import WebhookBroadcast.Endpoint.Board
import WebhookBroadcast.Ingest.Store
import WebhookBroadcast.Lifecycle.History
import WebhookBroadcast.Worker.AutoDisable

/-!
# Traffic

The system in which Endpoints live: fan-outs create Deliveries, any number of
`processDelivery` runs work on them call by call, and the operator retries
Deliveries and patches Endpoints while retention sweeps.

Deliveries come and go here, so the discipline of a Delivery only holds from
its creation on.  `Orderly` says that it does: a run that got past its first
read works on a Delivery that has been created, and no other Delivery is ever
created under that id.
-/

namespace WebhookBroadcast

open Interaction Timeline Relational

/-! ## The system -/

/-- What changes the database besides the worker. -/
inductive Traffic where
  | fanOut (broadcast : BroadcastRow) (targets : List (Uuid × Uuid))
  | retry (deliveryId : Uuid) (updatedAt : Instant)
  | sweep (cutoff : Instant)
  | patch (channelId endpointId : Uuid) (body : EndpointUpdate)
      (now : Instant)

/-- The transaction of a fan-out that creates Deliveries with these ids to
these Endpoints. -/
def fanOutTransaction (broadcast : BroadcastRow)
    (targets : List (Uuid × Uuid)) : Transaction where
  broadcast := broadcast
  deliveries := targets.map fun target =>
    DeliveryRow.created target.1 broadcast.id target.2 broadcast.channelId
      broadcast.receivedAt

namespace Traffic

def run : Traffic → World → World
  | fanOut broadcast targets, w =>
      { w with db := (fanOutTransaction broadcast targets).commit w.db }
  | retry deliveryId updatedAt, w =>
      { w with db := (retryDeadLetteredDelivery w.db deliveryId updatedAt).2 }
  | sweep cutoff, w =>
      { w with db := deleteBroadcastsReceivedBefore w.db cutoff }
  | patch channelId endpointId body now, w =>
      { w with
        db := (updateEndpoint w.db channelId endpointId (body.toPatch now)).2 }

/-- The ids under which a fan-out creates Deliveries. -/
def created : Traffic → List Uuid
  | fanOut _ targets => targets.map Prod.fst
  | _ => []

end Traffic

abbrev TrafficEvent := Event Task Choice Traffic

abbrev TrafficHistory := List TrafficEvent

abbrev TrafficPool := Pool Effects Thrown Unit Task World

def trafficSystem (dateParse : String → Option Instant) :
    System Effects Thrown Unit Task Choice Traffic World where
  handler := perform
  program task := processDelivery dateParse task.deps task.deliveryId
  background := Traffic.run

/-- The pool that a history leads to from world `w`. -/
def onward (dateParse : String → Option Instant) (w : World)
    (history : TrafficHistory) : TrafficPool :=
  (trafficSystem dateParse).exec (Pool.idle w) history

theorem onward_concat (dateParse : String → Option Instant) (w : World)
    (history : TrafficHistory) (e : TrafficEvent) :
    onward dateParse w (history ++ [e]) =
      (trafficSystem dateParse).apply (onward dateParse w history) e :=
  System.exec_concat _ _ _ _

def createdBy : TrafficEvent → List Uuid
  | .start _ => []
  | .step _ _ => []
  | .background b => b.created

/-- The ids of all Deliveries that a history creates. -/
def createdIn (history : TrafficHistory) : List Uuid :=
  history.flatMap createdBy

theorem createdIn_concat (history : TrafficHistory) (e : TrafficEvent) :
    createdIn (history ++ [e]) = createdIn history ++ createdBy e := by
  simp [createdIn]

/-! ## What traffic does to one Delivery -/

namespace Traffic

variable {d : Uuid} {w : World}

/-- A Delivery that the event does not create evolves as runs expect, and keeps
its Endpoint. -/
theorem evolves (b : Traffic) (hd : d ∉ b.created)
    (hw : w.db.Consistent d) :
    (b.run w).db.Consistent d ∧
      (Regime.any.discipline d).rely w (b.run w) ∧
      ∀ row', (b.run w).db.delivery? d = some row' →
        ∃ row, w.db.delivery? d = some row ∧
          row'.endpointId = row.endpointId := by
  have hsame {w' : World} (hrow : w'.db.delivery? d = w.db.delivery? d)
      (hlog : w'.db.attemptLog d = w.db.attemptLog d) :
      w'.db.Consistent d ∧ (Regime.any.discipline d).rely w w' ∧
        ∀ row', w'.db.delivery? d = some row' →
          ∃ row, w.db.delivery? d = some row ∧
            row'.endpointId = row.endpointId := by
    obtain ⟨hcons, hchange⟩ := hw.frame hrow hlog Regime.any.budgets
    refine ⟨hcons, .change hchange, fun row' hrow' => ?_⟩
    exact ⟨row', hrow ▸ hrow', rfl⟩
  cases b with
  | fanOut broadcast targets =>
      by_cases hcheck : (fanOutTransaction broadcast targets).check w.db =
          .ok ()
      · have hgrows := Transaction.grows_commit hcheck
        refine hsame ?_ (hgrows.attemptLog d)
        rcases hgrows.delivery?_cases d with h | ⟨_, row, hrow, hid, _⟩
        · exact h
        · obtain ⟨target, htarget, rfl⟩ := List.mem_map.mp hrow
          exact absurd (List.mem_map.mpr ⟨target, htarget, hid⟩) hd
      · have hrefused := Transaction.commit_of_check_ne hcheck
        exact hsame (by simp [run, hrefused]) (by simp [run, hrefused])
  | retry deliveryId updatedAt =>
      refine ⟨Background.consistent (.retry deliveryId updatedAt) hw, ?_, ?_⟩
      · exact (Regime.any.workers_uphold d fun _ => none).background_rely
          (.retry deliveryId updatedAt) w (Or.inl trivial) hw
      · intro row' hrow'
        by_cases hid : d = deliveryId
        · subst hid
          simp only [run, retryDeadLetteredDelivery,
            delivery?_moveStatus_self] at hrow'
          obtain ⟨row, hrow, rfl⟩ := Option.map_eq_some_iff.mp hrow'
          refine ⟨row, hrow, ?_⟩
          split <;> rfl
        · refine ⟨row', ?_, rfl⟩
          rw [← hrow']
          exact (delivery?_moveStatus_of_ne hid).symm
  | sweep cutoff =>
      refine ⟨Background.consistent (.sweep cutoff) hw, ?_, ?_⟩
      · exact (Regime.any.workers_uphold d fun _ => none).background_rely
          (.sweep cutoff) w (Or.inl trivial) hw
      · intro row' hrow'
        rcases w.db.delivery?_deleteBroadcasts
          (fun b => b.receivedAt < cutoff) d with hnone | ⟨hrow, _⟩
        · exact absurd (hnone.symm.trans hrow') (by simp)
        · exact ⟨row', hrow.symm.trans hrow', rfl⟩
  | patch channelId endpointId body now =>
      obtain ⟨-, hdeliveries, hattempts⟩ := tables_updateEndpoint w.db
        channelId endpointId (body.toPatch now)
      refine hsame ?_ ?_
      · simp only [run, Database.delivery?, hdeliveries]
      · simp only [run, Database.attemptLog, hattempts]

/-- A Delivery that the event does create is new and has not been attempted. -/
theorem consistent_created (b : Traffic) (hnone : w.db.delivery? d = none) :
    (b.run w).db.Consistent d := by
  by_cases hd : d ∈ b.created
  · cases b with
    | fanOut broadcast targets =>
        by_cases hcheck : (fanOutTransaction broadcast targets).check w.db =
            .ok ()
        · have hgrows := Transaction.grows_commit hcheck
          rcases hgrows.delivery?_cases d with h | ⟨_, row, hrow, hid, h⟩
          · exact Database.Consistent.of_none (h.trans hnone)
          · obtain ⟨target, -, rfl⟩ := List.mem_map.mp hrow
            refine Database.Fresh.consistent ⟨_, h, rfl, ?_⟩
            exact (hgrows.attemptLog d).trans
              (Database.attemptLog_eq_nil hnone)
        · rw [run, Transaction.commit_of_check_ne hcheck]
          exact Database.Consistent.of_none hnone
    | _ => cases hd
  · exact (b.evolves hd (Database.Consistent.of_none hnone)).1

end Traffic

/-! ## Orderly pools -/

/-- What is known of a run: it keeps the discipline of its Delivery, and it is
past its first read only if that Delivery has been created. -/
structure InOrder (dateParse : String → Option Instant) (created : List Uuid)
    (w : World) (run : Run Effects Thrown Unit Task) : Prop where
  shape : run.program.EveryCall
    (Shape run.task.deliveryId run.task.deps.backoffMaxMs)
  ensures : (Regime.any.discipline run.task.deliveryId).Ensures
    (fun _ _ => True) run.program w
  begun : run.program =
      processDelivery dateParse run.task.deps run.task.deliveryId ∨
    run.program.result?.isSome ∨ run.task.deliveryId ∈ created

structure Orderly (dateParse : String → Option Instant) (created : List Uuid)
    (P : TrafficPool) : Prop where
  consistent : ∀ d, P.state.db.Consistent d
  known : ∀ d, (P.state.db.delivery? d).isSome → d ∈ created
  runs : ∀ run ∈ P.runs, InOrder dateParse created P.state run

section Orderly

variable {dateParse : String → Option Instant} {created : List Uuid}

theorem ensures_unread (deps : ProcessDeliveryDeps) (d : Uuid) (w : World) :
    (Regime.any.discipline d).Ensures (fun _ _ => True)
      (processDelivery dateParse deps d) w :=
  (Regime.ensures_processDelivery (Set.mem_univ _) w).consequence
    fun _ _ _ => trivial

theorem ensures_ended {d : Uuid} {p : Action Unit} (hp : p.result?.isSome)
    (w : World) :
    (Regime.any.discipline d).Ensures (fun _ _ => True) p w := by
  cases p with
  | done a => exact fun _ _ => trivial
  | fail e => exact fun _ _ => trivial
  | call c k => cases hp

/-- A run that is not past its first read is in order in any world. -/
theorem InOrder.of_not_begun {w : World} {run : Run Effects Thrown Unit Task}
    (h : InOrder dateParse created w run)
    (hd : run.task.deliveryId ∉ created) (created' : List Uuid)
    (w' : World) : InOrder dateParse created' w' run where
  shape := h.shape
  ensures := by
    rcases h.begun with hunread | hended | hmem
    · rw [hunread]
      exact ensures_unread _ _ _
    · exact ensures_ended hended _
    · exact absurd hmem hd
  begun := by
    rcases h.begun with hunread | hended | hmem
    · exact Or.inl hunread
    · exact Or.inr (Or.inl hended)
    · exact absurd hmem hd

theorem InOrder.interfere {w w' : World}
    {run : Run Effects Thrown Unit Task}
    (h : InOrder dateParse created w run)
    (hrely : (Regime.any.discipline run.task.deliveryId).rely w w')
    {created' : List Uuid} (hsub : created ⊆ created') :
    InOrder dateParse created' w' run where
  shape := h.shape
  ensures := h.ensures.interfere (Relation.ReflTransGen.single hrely)
  begun := h.begun.imp_right fun hbegun => hbegun.imp_right fun hd => hsub hd

/-- A step of a run changes no other Delivery, and its own as the discipline
says. -/
theorem InOrder.step {w : World} {run : Run Effects Thrown Unit Task}
    (h : InOrder dateParse created w run)
    (hcons : ∀ d, w.db.Consistent d) (x : Choice) (d : Uuid) :
    (run.program.advance perform x w).2.db.Consistent d ∧
      Change Regime.any.budgets (w.db.timeline? d)
        ((run.program.advance perform x w).2.db.timeline? d) := by
  by_cases hd : d = run.task.deliveryId
  · subst hd
    obtain ⟨hinv, hsame | hchange, _⟩ := h.ensures.advance (hcons _)
      (x := x) fun _ _ _ => Or.inl trivial
    · have hdb : (run.program.advance perform x w).2 = w := hsame
      rw [hdb]
      exact ⟨hcons _, .stay _⟩
    · exact ⟨hinv, hchange⟩
  · cases hp : run.program with
    | done a => exact ⟨hcons d, .stay _⟩
    | fail e => exact ⟨hcons d, .stay _⟩
    | call c k =>
        have hshape := h.shape
        rw [hp] at hshape
        have hquiet : c.writes ≠ some d := by
          rcases writes_of_shape hshape.1 with hw | hw
          · rw [hw]
            exact Option.some_ne_none d |>.symm
          · rw [hw]
            exact fun heq => hd (Option.some.inj heq).symm
        obtain ⟨hrow, hlog⟩ := perform_frame hquiet x w
        exact (hcons d).frame hrow hlog _

/-- The run itself stays in order. -/
theorem InOrder.advance {w : World} {run : Run Effects Thrown Unit Task}
    (h : InOrder dateParse created w run)
    (hcons : ∀ d, w.db.Consistent d)
    (hknown : ∀ d, (w.db.delivery? d).isSome → d ∈ created) (x : Choice) :
    InOrder dateParse created (run.program.advance perform x w).2
      ⟨run.task, (run.program.advance perform x w).1⟩ where
  shape := h.shape.advance perform x w
  ensures := (h.ensures.advance (hcons _) (x := x)
    fun _ _ _ => Or.inl trivial).2.2
  begun := by
    rcases h.begun with hunread | hended | hmem
    · right
      have hread := perform_read (x := x) (w := w)
        (q := .getDeliveryForProcessing run.task.deliveryId) rfl
      rw [hunread]
      rcases hread with ⟨hx, _⟩ | ⟨e, hx, _⟩
      · simp only [processDelivery, query, Program.call_bind, Program.advance,
          hx, Query.run, Program.done_bind]
        cases hrecord : getDeliveryForProcessing w.db run.task.deliveryId with
        | none => exact Or.inl rfl
        | some record =>
            exact Or.inr (hknown _
              (isSome_of_getDeliveryForProcessing hrecord))
      · simp only [processDelivery, query, Program.call_bind, Program.advance,
          hx]
        exact Or.inl rfl
    · right
      left
      cases hp : run.program with
      | done a => rfl
      | fail e => rfl
      | call c k =>
          rw [hp] at hended
          cases hended
    · exact Or.inr (Or.inr hmem)

theorem Orderly.idle {w : World} (hw : w.db.deliveries.rows = []) :
    Orderly dateParse [] (Pool.idle w) := by
  have hnone (d : Uuid) : w.db.delivery? d = none := by
    rw [Database.delivery?, Table.find?_eq_none_iff]
    intro row hrow
    rw [Table.mem_def, hw] at hrow
    cases hrow
  constructor
  · exact fun d => Database.Consistent.of_none (hnone d)
  · intro d hd
    rw [Pool.idle, hnone] at hd
    cases hd
  · simp [Pool.idle]

theorem Orderly.background {P : TrafficPool}
    (h : Orderly dateParse created P) {b : Traffic}
    (hfresh : ∀ d ∈ b.created, d ∉ created) :
    Orderly dateParse (created ++ b.created)
      ((trafficSystem dateParse).apply P (.background b)) := by
  have hnone {d : Uuid} (hd : d ∉ created) : P.state.db.delivery? d = none := by
    rw [← Option.not_isSome_iff_eq_none]
    exact fun hsome => hd (h.known d hsome)
  constructor
  · intro d
    by_cases hd : d ∈ b.created
    · exact b.consistent_created (hnone (hfresh d hd))
    · exact (b.evolves hd (h.consistent d)).1
  · intro d hd
    rw [List.mem_append]
    by_cases hcreated : d ∈ b.created
    · exact Or.inr hcreated
    · obtain ⟨row', hrow'⟩ := Option.isSome_iff_exists.mp hd
      obtain ⟨row, hrow, _⟩ :=
        (b.evolves hcreated (h.consistent d)).2.2 row' hrow'
      exact Or.inl (h.known d (by rw [hrow]; rfl))
  · intro run hrun
    by_cases hd : run.task.deliveryId ∈ b.created
    · exact (h.runs run hrun).of_not_begun (hfresh _ hd) _ _
    · exact (h.runs run hrun).interfere
        (b.evolves hd (h.consistent _)).2.1
        (List.subset_append_left _ _)

theorem Orderly.step {P : TrafficPool} (h : Orderly dateParse created P)
    (i : ℕ) (x : Choice) :
    Orderly dateParse created
      ((trafficSystem dateParse).apply P (.step i x)) := by
  cases hi : P.runs[i]? with
  | none =>
      rw [System.apply_step_none _ x hi]
      exact h
  | some run =>
      rw [System.apply_step_some _ x hi]
      have hrun := h.runs run (List.mem_of_getElem? hi)
      have hstep := hrun.step h.consistent x
      constructor
      · exact fun d => (hstep d).1
      · intro d hd
        apply h.known
        rw [Option.isSome_iff_ne_none] at hd ⊢
        intro hnone
        have hchange := (hstep d).2
        rw [Database.timeline?_eq_none_iff.mpr hnone] at hchange
        exact hd (Database.timeline?_eq_none_iff.mp (Change.eq_none hchange))
      · intro other hother
        rcases List.mem_or_eq_of_mem_set hother with hother | rfl
        · exact (h.runs other hother).interfere
            (.change (hstep other.task.deliveryId).2) fun _ => id
        · exact hrun.advance h.consistent h.known x

/-- Every event keeps a pool orderly, as long as fan-outs use new ids. -/
theorem Orderly.apply {P : TrafficPool} (h : Orderly dateParse created P)
    {e : TrafficEvent} (hfresh : ∀ d ∈ createdBy e, d ∉ created) :
    Orderly dateParse (created ++ createdBy e)
      ((trafficSystem dateParse).apply P e) := by
  cases e with
  | start task =>
      rw [createdBy, List.append_nil]
      refine ⟨h.consistent, h.known, ?_⟩
      intro run hrun
      rcases List.mem_append.mp hrun with hrun | hrun
      · exact h.runs run hrun
      · rw [List.mem_singleton] at hrun
        subst hrun
        exact ⟨shape_processDelivery dateParse, ensures_unread _ _ _,
          Or.inl rfl⟩
  | step i x =>
      rw [createdBy, List.append_nil]
      exact h.step i x
  | background b => exact h.background hfresh

/-- The run lemma: after every history whose fan-outs use new ids the pool is
orderly. -/
theorem orderly_onward {w : World} (hw : w.db.deliveries.rows = [])
    (history : TrafficHistory) (hfresh : (createdIn history).Nodup) :
    Orderly dateParse (createdIn history) (onward dateParse w history) := by
  induction history using List.reverseRecOn with
  | nil => exact .idle hw
  | append_singleton history e ih =>
      rw [createdIn_concat] at hfresh ⊢
      obtain ⟨hbefore, _, hdisjoint⟩ := List.nodup_append.mp hfresh
      rw [onward_concat]
      exact (ih hbefore).apply fun d hd hmem => hdisjoint d hmem d hd rfl

end Orderly

/-! ## Traffic to one Endpoint -/

/-- A Channel with one enabled Endpoint. -/
def trafficWorld : World where
  db := .withEndpoints ⟨0, "orders", none, true, [], false, none, none, 0, 0⟩
    [⟨1, 0, none, "https://a.example", none, .empty, true, none, 0, 0⟩]
  jobs := fun _ => none

/-- A Broadcast with one Delivery to the Endpoint, both under this id. -/
def received (id : Uuid) (receivedAt : Instant) : TrafficEvent :=
  .background (.fanOut ⟨id, 0, receivedAt, "text/plain", [], .empty⟩ [(id, 1)])

/-- A run with a budget of one Attempt and a window of a second: the Endpoint
answers with this status, and the clock stands still. -/
def attempted (i : ℕ) (deliveryId : Uuid) (status : ℕ) (time : Instant) :
    TrafficHistory :=
  .start ⟨{ defaultTimeoutMs := 1000
            maxAttempts? := some 1
            endpointAutoDisableAfterMs? := some 1000 }, deliveryId⟩ ::
    List.replicate 13 (.step i { time, reply := .response status none })

end WebhookBroadcast
