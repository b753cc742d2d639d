import WebhookBroadcast.Retention.Commitments
import WebhookBroadcast.Retention.Removals

/-!
# Accepted until swept

Whoever is told that a Broadcast is accepted can rely on it: the Broadcast stays
until a sweep whose window begins after it was received, and each of its
Deliveries until then or until its Endpoint is deleted.  No crash, fault or
concurrent request removes them before.
-/

namespace WebhookBroadcast

open Interaction Relational

/-! ## What the monitor has seen -/

/-- The call is the commit of the transaction, and was acknowledged. -/
def Acknowledged (tx : Transaction) (m : Made ApiEffects ApiChoice Deployment) :
    Prop :=
  m.call = commitCall tx ∧
    (performApi m.choice (commitCall tx) m.found).1 = .ok ()

section Monitor

variable {tx : Transaction} {s : Commitments}

theorem committed_next (m : Made ApiEffects ApiChoice Deployment)
    (htx : tx ∈ (apiCommitments.next m.call
      (performApi m.choice m.call m.found).1 s).committed) :
    tx ∈ s.committed ∨ Acknowledged tx m := by
  rcases m with ⟨c, x, D⟩
  cases c with
  | inr c => exact Or.inl htx
  | inl c =>
      cases c with
      | inl c => exact Or.inl htx
      | inr c =>
          cases c with
          | addBulk jobs => exact Or.inl htx
          | query q =>
              cases q with
              | commit tx' =>
                  cases hanswer : (performApi x (commitCall tx') D).1 with
                  | error e =>
                      simp only [hanswer] at htx
                      exact Or.inl htx
                  | ok answer =>
                      simp only [hanswer] at htx
                      rcases List.mem_cons.mp htx with rfl | htx
                      · exact Or.inr ⟨rfl, hanswer⟩
                      · exact Or.inl htx
              | _ => exact Or.inl htx

theorem committed_after {trace : List (Made ApiEffects ApiChoice Deployment)}
    (htx : tx ∈ (apiCommitments.after performApi s trace).committed) :
    tx ∈ s.committed ∨ ∃ m ∈ trace, Acknowledged tx m := by
  induction trace generalizing s with
  | nil => exact Or.inl htx
  | cons m trace ih =>
      rcases ih htx with h | ⟨m', hm', hacked⟩
      · rcases committed_next m h with h | hacked
        · exact Or.inl h
        · exact Or.inr ⟨m, List.mem_cons_self, hacked⟩
      · exact Or.inr ⟨m', List.mem_cons_of_mem _ hm', hacked⟩

/-- A withdrawal is not forgotten. -/
theorem withdrawn_after {trace : List (Made ApiEffects ApiChoice Deployment)}
    (h : (apiCommitments.after performApi s trace).withdrawn = false) :
    s.withdrawn = false ∧ ∀ m ∈ trace, ∀ id, m.call ≠ withdrawCall id := by
  induction trace generalizing s with
  | nil => exact ⟨h, by simp⟩
  | cons m trace ih =>
      obtain ⟨hnext, hrest⟩ := ih h
      suffices hm : s.withdrawn = false ∧ ∀ id, m.call ≠ withdrawCall id by
        refine ⟨hm.1, fun m' hm' => ?_⟩
        rcases List.mem_cons.mp hm' with rfl | hm'
        · exact hm.2
        · exact hrest m' hm'
      rcases m with ⟨c, x, D⟩
      cases c with
      | inr c => exact ⟨hnext, fun id => nofun⟩
      | inl c =>
          cases c with
          | inl c => exact ⟨hnext, fun id => nofun⟩
          | inr c =>
              cases c with
              | addBulk jobs => exact ⟨hnext, fun id => nofun⟩
              | query q =>
                  cases q with
                  | deleteBroadcastById id => cases hnext
                  | commit tx' =>
                      refine ⟨?_, fun id => nofun⟩
                      cases hanswer : (performApi x (commitCall tx') D).1 with
                      | error e =>
                          simp only [hanswer] at hnext
                          exact hnext
                      | ok answer =>
                          simp only [hanswer] at hnext
                          exact hnext
                  | _ => exact ⟨hnext, fun id => nofun⟩

end Monitor

/-- A commit that is acknowledged has stored its rows. -/
theorem Acknowledged.grows {tx : Transaction}
    {m : Made ApiEffects ApiChoice Deployment} (h : Acknowledged tx m) :
    m.found.world.db.Grows (performApi m.choice m.call m.found).2.world.db
      [tx.broadcast] tx.deliveries := by
  obtain ⟨hcall, hacked⟩ := h
  rw [hcall]
  rcases performAccept_query_cases m.choice.toChoice (.commit tx)
      m.found.world with ⟨result, hresult, hrun⟩ | ⟨e, t, hrun, -⟩
  · have hafter : (performApi m.choice (commitCall tx) m.found).2.world.db =
        tx.commit m.found.world.db :=
      congrArg (fun r => r.2.db) hrun
    rw [hafter]
    exact Transaction.grows_commit hresult
  · have herror : (performApi m.choice (commitCall tx) m.found).1 =
        .error e := congrArg Prod.fst hrun
    rw [herror] at hacked
    cases hacked

/-! ## What stays -/

section System

variable {hashToken : String → String} {config : OperatorAuthConfig}
  {dateParse : String → Option Instant}

/-- Some event of this part of a history is a step at which a run makes the
call. -/
def PerformedIn (hashToken : String → String) (config : OperatorAuthConfig)
    (dateParse : String → Option Instant) (P : ApiPool) (events : ApiHistory)
    (c : ApiEffects.Call) : Prop :=
  ∃ first e last, events = first ++ e :: last ∧
    Performs ((api hashToken config dateParse).exec P first) e c

theorem PerformedIn.cons {P : ApiPool} {e : ApiEvent} {events : ApiHistory}
    {c : ApiEffects.Call}
    (h : PerformedIn hashToken config dateParse
      ((api hashToken config dateParse).apply P e) events c) :
    PerformedIn hashToken config dateParse P (e :: events) c := by
  obtain ⟨first, e', last, rfl, hperforms⟩ := h
  exact ⟨e :: first, e', last, rfl, hperforms⟩

/-- A Broadcast that nobody withdraws stays until it is swept. -/
theorem broadcast_kept {events : ApiHistory} {b : BroadcastRow} :
    ∀ {P : ApiPool}, b ∈ P.state.world.db.broadcasts →
      ¬ PerformedIn hashToken config dateParse P events (withdrawCall b.id) →
        b ∈ ((api hashToken config dateParse).exec P
          events).state.world.db.broadcasts ∨ ∃ e ∈ events, Sweeps e b := by
  induction events with
  | nil => exact fun hb _ => Or.inl hb
  | cons e events ih =>
      intro P hb hno
      rcases broadcast_removed hashToken config dateParse (e := e) hb with
        hb | hsweep | hwithdrawn
      · rcases ih hb fun h => hno h.cons with hb | ⟨e', he', hsweep⟩
        · exact Or.inl hb
        · exact Or.inr ⟨e', List.mem_cons_of_mem _ he', hsweep⟩
      · exact Or.inr ⟨e, List.mem_cons_self, hsweep⟩
      · exact absurd ⟨[], e, events, rfl, hwithdrawn⟩ hno

/-- A Delivery of it stays as long, or until its Endpoint is deleted. -/
theorem delivery_kept {events : ApiHistory} {b : BroadcastRow}
    {d : DeliveryRow} (hown : d.broadcastId = b.id) :
    ∀ {P : ApiPool}, b ∈ P.state.world.db.broadcasts →
      (∃ d' ∈ P.state.world.db.deliveries, d'.identity = d.identity) →
      ¬ PerformedIn hashToken config dateParse P events (withdrawCall b.id) →
        (∃ d' ∈ ((api hashToken config dateParse).exec P
          events).state.world.db.deliveries, d'.identity = d.identity) ∨
        (∃ e ∈ events, Sweeps e b) ∨
        ∃ channelId, PerformedIn hashToken config dateParse P events
          (deleteEndpointCall channelId d.endpointId) := by
  induction events with
  | nil => exact fun _ hd _ => Or.inl hd
  | cons e events ih =>
      rintro P hb ⟨d', hd', hidentity⟩ hno
      have hids := hidentity
      simp only [DeliveryRow.identity, Prod.mk.injEq] at hids
      have hbroadcast :=
        broadcast_removed hashToken config dateParse (e := e) hb
      have hdelivery := delivery_removed hashToken config dateParse (e := e) hb
        hd' (hids.2.1.trans hown)
      rcases hdelivery with ⟨later, hlater, hsame⟩ | hsweep | hwithdrawn |
        ⟨channelId, hdeleted⟩
      · rcases hbroadcast with hb | hsweep | hwithdrawn
        · rcases ih hb ⟨later, hlater, hsame.trans hidentity⟩
              fun h => hno h.cons with
            hd | ⟨e', he', hsweep⟩ | ⟨channelId, hdeleted⟩
          · exact Or.inl hd
          · exact Or.inr (Or.inl ⟨e', List.mem_cons_of_mem _ he', hsweep⟩)
          · exact Or.inr (Or.inr ⟨channelId, hdeleted.cons⟩)
        · exact Or.inr (Or.inl ⟨e, List.mem_cons_self, hsweep⟩)
        · exact absurd ⟨[], e, events, rfl, hwithdrawn⟩ hno
      · exact Or.inr (Or.inl ⟨e, List.mem_cons_self, hsweep⟩)
      · exact absurd ⟨[], e, events, rfl, hwithdrawn⟩ hno
      · rw [hids.2.2.1] at hdeleted
        exact Or.inr (Or.inr ⟨channelId, [], e, events, rfl, hdeleted⟩)

/-! ## Accepted Broadcasts -/

variable {D : Deployment} {history : ApiHistory} {i : ℕ}

/-- No other run commits a Broadcast under this id: `crypto.randomUUID` does not
repeat itself. -/
def OwnId (hashToken : String → String) (config : OperatorAuthConfig)
    (dateParse : String → Option Instant) (D : Deployment)
    (history : ApiHistory) (i : ℕ) (broadcastId : Uuid) : Prop :=
  ∀ j, j ≠ i → ∀ m ∈ (api hashToken config dateParse).madeBy j (Pool.idle D)
    history, ∀ tx, m.call = commitCall tx → tx.broadcast.id ≠ broadcastId

/-- A run withdraws only what it has committed. -/
theorem committed_of_withdraws {before : ApiHistory} {j : ℕ} {t : ApiTask}
    {broadcastId : Uuid}
    (hmakes : ((api hashToken config dateParse).exec (Pool.idle D)
      before).Makes j t (withdrawCall broadcastId)) :
    ∃ m ∈ (api hashToken config dateParse).madeBy j (Pool.idle D) before,
      ∃ tx, m.call = commitCall tx ∧ tx.broadcast.id = broadcastId := by
  have hallowed := Monitor.allows_of_makes (M := apiCommitments)
    (Y := api hashToken config dateParse) (P := Pool.idle D)
    (fun t => accepts_program hashToken config dateParse t)
    List.getElem?_nil hmakes
  obtain ⟨tx, htx, hid⟩ := hallowed
  rcases committed_after htx with h | ⟨m, hm, hacked⟩
  · exact absurd h List.not_mem_nil
  · exact ⟨m, hm, tx, hacked.1, hid⟩

/-- Nobody withdraws what a run was told is accepted. -/
theorem not_withdrawn {broadcastId : Uuid}
    (hown : OwnId hashToken config dateParse D history i broadcastId)
    (hkept : ∀ m ∈ (api hashToken config dateParse).madeBy i (Pool.idle D)
      history, m.call ≠ withdrawCall broadcastId)
    {before after : ApiHistory} (hhistory : history = before ++ after) :
    ¬ PerformedIn hashToken config dateParse
      ((api hashToken config dateParse).exec (Pool.idle D) before) after
      (withdrawCall broadcastId) := by
  rintro ⟨first, e, last, rfl, j, x, t, rfl, hmakes⟩
  rw [← System.exec_append] at hmakes
  have hsplit : history = (before ++ first) ++ .step j x :: last := by
    rw [hhistory, List.append_assoc]
  by_cases hj : j = i
  · subst hj
    have hmade := System.mem_madeBy_of_makes _ hmakes x last
    rw [← hsplit] at hmade
    exact hkept _ hmade rfl
  · obtain ⟨m, hm, tx, hcall, hid⟩ := committed_of_withdraws hmakes
    refine hown j hj m ?_ tx hcall hid
    rw [hsplit, System.madeBy_append]
    exact List.mem_append_left _ hm

/-- A run that ends with the id of an accepted Broadcast has committed it, and
in every interleaving, whatever crashes or fails, the Broadcast is stored until
a sweep whose window begins after it was received, and each of its Deliveries
until such a sweep or until an operator deletes its Endpoint. -/
theorem accepted_until_swept (hashToken : String → String)
    (config : OperatorAuthConfig) (dateParse : String → Option Instant)
    (D : Deployment) (history : ApiHistory) (i : ℕ)
    (run : Run ApiEffects Thrown Handled ApiTask)
    (hrun : ((api hashToken config dateParse).exec (Pool.idle D)
      history).runs[i]? = some run)
    (handled : Handled) (hresult : run.program.result? = some (.ok handled))
    (broadcastId : Uuid) (haccepted : handled.acceptedId? = some broadcastId)
    (hown : OwnId hashToken config dateParse D history i broadcastId) :
    ∃ before x after tx, history = before ++ .step i x :: after ∧
      ((api hashToken config dateParse).exec (Pool.idle D) before).Makes i
        run.task (commitCall tx) ∧
      tx.broadcast.id = broadcastId ∧ tx.Own ∧
      (tx.broadcast ∈ ((api hashToken config dateParse).exec (Pool.idle D)
          history).state.world.db.broadcasts ∨
        ∃ e ∈ after, Sweeps e tx.broadcast) ∧
      ∀ d ∈ tx.deliveries,
        (∃ d' ∈ ((api hashToken config dateParse).exec (Pool.idle D)
          history).state.world.db.deliveries, d'.identity = d.identity) ∨
        (∃ e ∈ after, Sweeps e tx.broadcast) ∨
        ∃ channelId, PerformedIn hashToken config dateParse
          ((api hashToken config dateParse).exec (Pool.idle D)
            (before ++ [.step i x])) after
          (deleteEndpointCall channelId d.endpointId) := by
  have haccepts := fun t => accepts_program hashToken config dateParse t
  have hstands := Monitor.result_of_exec (M := apiCommitments)
    (Y := api hashToken config dateParse) (P := Pool.idle D) haccepts
    List.getElem?_nil hrun hresult
  obtain ⟨hwithdrawn, tx, htx, hid⟩ := hstands handled rfl broadcastId haccepted
  have hkept := (withdrawn_after hwithdrawn).2
  rcases committed_after htx with h | ⟨m, hm, hacked⟩
  · exact absurd h List.not_mem_nil
  obtain ⟨before, after, t, hhistory, hmakes, hfound⟩ :=
    System.makes_of_mem_madeBy _ hm
  rw [hacked.1] at hmakes
  have htask : run.task = t := by
    have hworks := System.worksOn_exec (api hashToken config dateParse)
      hmakes.worksOn (.step i m.choice :: after)
    rw [← System.exec_append, ← hhistory] at hworks
    exact Pool.WorksOn.unique ⟨run, hrun, rfl⟩ hworks
  have htxOwn : tx.Own := Monitor.allows_of_makes (M := apiCommitments)
    haccepts List.getElem?_nil hmakes
  -- what the commit has stored
  have hgrows := hacked.grows
  have hstate : ((api hashToken config dateParse).exec (Pool.idle D)
      (before ++ [.step i m.choice])).state =
        (performApi m.choice m.call m.found).2 := by
    rw [System.exec_concat, System.state_apply_step _ hmakes, hacked.1, hfound]
    rfl
  rw [← hstate] at hgrows
  have hsplit : history = (before ++ [.step i m.choice]) ++ after := by
    rw [hhistory, List.append_assoc, List.singleton_append]
  have hno := not_withdrawn hown (fun m hm => hkept m hm broadcastId) hsplit
  rw [← hid] at hno
  have hfinal : (api hashToken config dateParse).exec (Pool.idle D) history =
      (api hashToken config dateParse).exec ((api hashToken config
        dateParse).exec (Pool.idle D) (before ++ [.step i m.choice])) after := by
    rw [← System.exec_append, ← hsplit]
  have hb : tx.broadcast ∈ ((api hashToken config dateParse).exec (Pool.idle D)
      (before ++ [.step i m.choice])).state.world.db.broadcasts := by
    rw [Table.mem_def, hgrows.broadcasts]
    exact List.mem_append_right _ List.mem_cons_self
  refine ⟨before, m.choice, after, tx, hhistory, htask ▸ hmakes, hid, htxOwn,
    ?_, fun d hd => ?_⟩
  · rw [hfinal]
    exact broadcast_kept hb hno
  · rw [hfinal]
    refine delivery_kept (htxOwn d hd) hb ⟨d, ?_, rfl⟩ hno
    rw [Table.mem_def, hgrows.deliveries]
    exact List.mem_append_right _ hd

end System

/-! ## A request that is answered -/

/-- Ingest of an open Channel up to its answer. -/
def openlyAnswered : ApiHistory :=
  openlyAccepted ++ (List.range' 8 3).map fun k =>
    .step 0 { toChoice := smoothly k }

theorem accepted_until_swept_openly : ∃ tx : Transaction,
    tx.broadcast.id = 101 ∧
      tx.broadcast ∈ ((api id keyConfig fun _ => none).exec
        (Pool.idle openDeployment) openlyAnswered).state.world.db.broadcasts := by
  have hown : OwnId id keyConfig (fun _ => none) openDeployment openlyAnswered
      0 101 := by
    intro j hj m hm
    rw [System.madeBy_of_no_step] at hm
    · exact absurd hm List.not_mem_nil
    · intro x hx
      simp [openlyAnswered, openlyAccepted, ingestSteps, hj.symm] at hx
  obtain ⟨before, x, after, tx, hhistory, -, hid, -, hstored, -⟩ :=
    accepted_until_swept id keyConfig (fun _ => none) openDeployment
      openlyAnswered 0 _ rfl _ rfl 101 rfl hown
  refine ⟨tx, hid, hstored.resolve_right ?_⟩
  rintro ⟨e, he, retentionDays, now, rfl, -⟩
  have hsweep : .background (.sweep retentionDays now) ∈ openlyAnswered := by
    rw [hhistory]
    exact List.mem_append_right _ (List.mem_cons_of_mem _ he)
  simp [openlyAnswered, openlyAccepted, ingestSteps] at hsweep

end WebhookBroadcast
