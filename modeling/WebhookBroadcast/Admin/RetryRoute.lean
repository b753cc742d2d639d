import WebhookBroadcast.Interaction.Alone
import WebhookBroadcast.Lifecycle.Refinement
import WebhookBroadcast.Queue.DeliveryQueue

/-!
# The operator retry

`POST /deliveries/:deliveryId/retry` of `apps/api/src/admin/deliveries.ts`: the
row is put back to pending in Postgres, and then its job is put into the queue
in Redis.  Nothing undoes the first step when the second fails.  This module
proves exactly which failures leave the Delivery pending without a job.
-/

namespace WebhookBroadcast

open Interaction

/-! ## The route -/

/-- The body of a response: a Delivery, or an error with its code and
message. -/
inductive ResponseBody where
  | delivery (row : DeliveryDetailRow)
  | error (code message : String)
deriving DecidableEq

structure Response where
  status : ℕ
  body : ResponseBody
deriving DecidableEq

def deliveryNotFound : Response :=
  ⟨404, .error "not_found" "delivery not found"⟩

def notDeadLettered : Response :=
  ⟨409, .error "conflict" "only dead_lettered Deliveries can be retried"⟩

/-- Re-queues a `dead_lettered` Delivery only. -/
def retryDelivery (maxAttempts : ℕ) (deliveryId : Uuid) : Action Response := do
  let at_ ← now
  let retried ← query (.retryDeadLetteredDelivery deliveryId at_)
  if !retried then
    let existing ← query (.getDeliveryDetailById deliveryId)
    match existing with
    | none => return deliveryNotFound
    | some _ => return notDeadLettered
  else
    let row ← query (.getDeliveryDetailById deliveryId)
    match row with
    | none => return deliveryNotFound
    | some row =>
        let requestId ← randomUUID
        enqueue maxAttempts
          ⟨row.id, requestId, row.channelId, row.broadcastId, row.endpointId⟩
        let updated ← query (.getDeliveryDetailById deliveryId)
        match updated with
        | none => return deliveryNotFound
        | some updated => return ⟨200, .delivery updated⟩

/-! ## Failing calls -/

/-- How each call of the route fails, if it does. -/
structure RouteFaults where
  update : Option Fault := none
  read : Option Fault := none
  getJob : Option Fault := none
  getState : Option Fault := none
  remove : Option Fault := none
  add : Option Fault := none
  reread : Option Fault := none
deriving DecidableEq

namespace RouteFaults

/-- The fault of one call.  The two reads of the route are the same statement,
and are told apart by whether the first has been made. -/
def of (faults : RouteFaults) (hasRead : Bool) : Call → Option Fault
  | .query (.retryDeadLetteredDelivery _ _) => faults.update
  | .query (.getDeliveryDetailById _) =>
      if hasRead then faults.reread else faults.read
  | .queue (.getJob _) => faults.getJob
  | .queue (.getState _) => faults.getState
  | .queue (.remove _) => faults.remove
  | .queue (.add _ _ _) => faults.add
  | _ => none

/-- Whether the detail of the Delivery has been read after the call. -/
def readsDetail (hasRead : Bool) : Call → Bool
  | .query (.getDeliveryDetailById _) => true
  | _ => hasRead

/-- The handler of a route whose calls fail in this way. -/
def perform (faults : RouteFaults) : Handler Effects Choice (World × Bool) :=
  fun x c s =>
    let outcome := WebhookBroadcast.perform
      { x with fault := faults.of s.2 c } c s.1
    (outcome.1, outcome.2, readsDetail s.2 c)

/-- The route, with no other request and no worker. -/
def run (faults : RouteFaults) (readings : ℕ → Choice) (maxAttempts : ℕ)
    (deliveryId : Uuid) (w : World) : Except Thrown Response × World :=
  let outcome := (retryDelivery maxAttempts deliveryId).eval faults.perform
    readings 0 (w, false)
  (outcome.1, outcome.2.1)

end RouteFaults

/-- The job will run, or is running. -/
def Unfinished (job : Option Job) : Prop :=
  ∃ j, job = some j ∧ ¬ j.state.Finished

/-- The route answered `200`; or the Delivery is dead-lettered as before; or it
is pending and has an unfinished job. -/
def AllOrNothing (d : Uuid) (w : World) (r : Except Thrown Response)
    (w' : World) : Prop :=
  (∃ row, r = .ok ⟨200, .delivery row⟩) ∨
    (w'.db.delivery? d).map DeliveryRow.progress =
      (w.db.delivery? d).map DeliveryRow.progress ∨
    (w'.db.delivery? d).map DeliveryRow.status = some .pending ∧
      Unfinished (w'.jobs d)

/-- `getJob` and, where there is a job, `getState` and `remove` succeed, and
`add` is carried out. -/
def RouteFaults.QueueAccepts (faults : RouteFaults) (job : Option Job) : Prop :=
  faults.getJob = none ∧
    (job.isSome → faults.getState = none ∧ faults.remove = none) ∧
    ∀ fault, faults.add = some fault → fault.applied

/-- The job is unfinished anyway, or the row is not updated, or everything up
to `add` succeeds. -/
def RouteFaults.Harmless (faults : RouteFaults) (job : Option Job) : Prop :=
  Unfinished job ∨
    (∃ fault, faults.update = some fault ∧ fault.applied = false) ∨
    faults.update = none ∧ faults.read = none ∧ faults.QueueAccepts job

/-! ## Rules -/

section Rules

variable {faults : RouteFaults} {α : Type} {w : World} {hasRead : Bool}
  {post : Except Thrown α → World × Bool → Prop}

theorem always_routeQuery {q : Query} {f : q.Result → Action α}
    {result : q.Result} (hresult : (q.run w.db).1 = .ok result)
    (hfault : ∀ fault, faults.of hasRead (.query q) = some fault → ∀ e,
      post (.error (.database e))
        (if fault.applied then { w with db := (q.run w.db).2 } else w,
          RouteFaults.readsDetail hasRead (.query q)))
    (hf : faults.of hasRead (.query q) = none →
      (f result).Always faults.perform post
        ({ w with db := (q.run w.db).2 },
          RouteFaults.readsDetail hasRead (.query q))) :
    (query q >>= f).Always faults.perform post (w, hasRead) := by
  intro x
  cases h : faults.of hasRead (.query q) with
  | none =>
      rw [RouteFaults.perform, h, perform_query_of_none rfl, hresult]
      exact hf h
  | some fault =>
      rw [RouteFaults.perform, h, perform_query_of_some rfl]
      exact hfault fault h _

theorem always_routeQueue {q : QueueCall} {f : q.Result → Action α}
    (hfault : ∀ fault, faults.of hasRead (.queue q) = some fault →
      ∀ message, post (.error (.queue message))
        (if fault.applied then { w with jobs := (q.run w.jobs).2 } else w,
          hasRead))
    (hf : faults.of hasRead (.queue q) = none →
      (f (q.run w.jobs).1).Always faults.perform post
        ({ w with jobs := (q.run w.jobs).2 }, hasRead)) :
    (queueCall q >>= f).Always faults.perform post (w, hasRead) := by
  intro x
  cases h : faults.of hasRead (.queue q) with
  | none =>
      rw [RouteFaults.perform, h, perform_queue_of_none rfl]
      exact hf h
  | some fault =>
      rw [RouteFaults.perform, h, perform_queue_of_some rfl]
      exact hfault fault h _

end Rules

/-! ## From the update to the answer -/

/-- The row has been put back to pending. -/
structure Requeued (d : Uuid) (w w' : World) : Prop where
  pending : (w'.db.delivery? d).map DeliveryRow.status = some .pending
  changed : (w'.db.delivery? d).map DeliveryRow.progress ≠
    (w.db.delivery? d).map DeliveryRow.progress

section Route

variable {faults : RouteFaults} {d : Uuid} {w w' : World}

theorem Requeued.allOrNothing_of_unfinished (h : Requeued d w w')
    (hjob : Unfinished (w'.jobs d)) (r : Except Thrown Response) :
    AllOrNothing d w r w' :=
  Or.inr (Or.inr ⟨h.pending, hjob⟩)

/-- When the route throws after the update, all depends on the job. -/
theorem Requeued.allOrNothing_error_iff (h : Requeued d w w') (e : Thrown) :
    AllOrNothing d w (.error e) w' ↔ Unfinished (w'.jobs d) := by
  constructor
  · rintro (⟨row, hok⟩ | hsame | ⟨_, hjob⟩)
    · cases hok
    · exact absurd hsame h.changed
    · exact hjob
  · exact fun hjob => h.allOrNothing_of_unfinished hjob _

theorem unfinished_added (maxAttempts : ℕ) (data : DeliveryWorkItem) :
    Unfinished (some (Job.added maxAttempts data)) :=
  ⟨_, rfl, by simp [Job.added, JobState.Finished]⟩

theorem unfinished_add {jobs : JobStore} {maxAttempts : ℕ}
    {data : DeliveryWorkItem} (h : jobs d = none ∨ Unfinished (jobs d)) :
    Unfinished (jobs.add d maxAttempts data d) := by
  rcases h with h | ⟨job, hjob, hstate⟩
  · rw [JobStore.add_of_none h]
    exact unfinished_added _ _
  · rw [JobStore.add_of_some hjob]
    exact ⟨job, hjob, hstate⟩

section Enqueue

variable {maxAttempts : ℕ} {item : DeliveryWorkItem}
  {f : Unit → Action Response}

theorem always_add (hid : item.deliveryId = d) (hw : Requeued d w w')
    (hjob : w'.jobs d = none ∨ Unfinished (w'.jobs d))
    (hf : ∀ w'', Requeued d w w'' → Unfinished (w''.jobs d) →
      (f ()).Always faults.perform (fun r s => AllOrNothing d w r s.1)
        (w'', true)) :
    (queueCall (.add item.deliveryId maxAttempts item) >>= f).Always
      faults.perform (fun r s => AllOrNothing d w r s.1 ↔
        Unfinished (w'.jobs d) ∨
          ∀ fault, faults.add = some fault → fault.applied) (w', true) := by
  subst hid
  have hadded (jobs : JobStore) : Requeued item.deliveryId w
      { w' with jobs := jobs } := ⟨hw.pending, hw.changed⟩
  apply always_routeQueue
  · intro fault hfault message
    have hadd : faults.add = some fault := hfault
    by_cases happlied : fault.applied
    · rw [if_pos happlied]
      refine iff_of_true ((hadded _).allOrNothing_of_unfinished
        (unfinished_add hjob) _) (Or.inr fun other hother => ?_)
      rw [hadd] at hother
      cases hother
      exact happlied
    · rw [if_neg happlied, hw.allOrNothing_error_iff]
      constructor
      · exact Or.inl
      · rintro (h | h)
        · exact h
        · exact absurd (h fault hadd) happlied
  · intro hadd
    refine (hf _ (hadded _) (unfinished_add hjob)).consequence ?_
    intro r s h
    refine iff_of_true h (Or.inr fun fault hfault => ?_)
    have hnone : faults.add = none := hadd
    rw [hnone] at hfault
    cases hfault

/-- A finished job is removed before its id is taken again. -/
theorem always_remove (hid : item.deliveryId = d) (hw : Requeued d w w')
    {job : Job} (hjob : w'.jobs d = some job) (hfinished : job.state.Finished)
    (hf : ∀ w'', Requeued d w w'' → Unfinished (w''.jobs d) →
      (f ()).Always faults.perform (fun r s => AllOrNothing d w r s.1)
        (w'', true)) :
    (queueCall (.remove item.deliveryId) >>= fun _ =>
      queueCall (.add item.deliveryId maxAttempts item) >>= f).Always
      faults.perform (fun r s => AllOrNothing d w r s.1 ↔
        faults.remove = none ∧
          ∀ fault, faults.add = some fault → fault.applied) (w', true) := by
  subst hid
  let removed : World :=
    { w' with jobs := w'.jobs.remove item.deliveryId }
  have hremoved : removed.jobs item.deliveryId = none :=
    JobStore.remove_self_of_finished hjob hfinished
  have hw'' : Requeued item.deliveryId w removed := ⟨hw.pending, hw.changed⟩
  have hnone : ¬ Unfinished (none : Option Job) := by simp [Unfinished]
  have hdone : ¬ Unfinished (some job) := by simp [Unfinished, hfinished]
  apply always_routeQueue
  · intro fault hfault message
    have hremove : faults.remove = some fault := hfault
    have hlost : ¬ AllOrNothing item.deliveryId w (.error (.queue message))
        (if fault.applied then removed else w') := by
      by_cases happlied : fault.applied
      · rw [if_pos happlied, hw''.allOrNothing_error_iff, hremoved]
        exact hnone
      · rw [if_neg happlied, hw.allOrNothing_error_iff, hjob]
        exact hdone
    exact iff_of_false hlost fun h => by simp [hremove] at h
  · intro hfault
    have hremove : faults.remove = none := hfault
    refine (always_add rfl hw'' (Or.inl hremoved) hf).consequence ?_
    intro r s h
    rw [h, hremoved, or_iff_right hnone]
    simp [hremove]

/-- A job that will still run is left to `add`, which does nothing. -/
theorem always_getState (hid : item.deliveryId = d) (hw : Requeued d w w')
    {job : Job} (hjob : w'.jobs d = some job)
    (hf : ∀ w'', Requeued d w w'' → Unfinished (w''.jobs d) →
      (f ()).Always faults.perform (fun r s => AllOrNothing d w r s.1)
        (w'', true)) :
    (queueCall (.getState item.deliveryId) >>= fun state =>
      (if state = some .completed ∨ state = some .failed then
        queueCall (.remove item.deliveryId) else return ()) >>= fun _ =>
      queueCall (.add item.deliveryId maxAttempts item) >>= f).Always
      faults.perform (fun r s => AllOrNothing d w r s.1 ↔
        Unfinished (some job) ∨ faults.getState = none ∧
          faults.remove = none ∧
          ∀ fault, faults.add = some fault → fault.applied) (w', true) := by
  subst hid
  apply always_routeQueue
  · intro fault hfault message
    have hgetState : faults.getState = some fault := hfault
    change AllOrNothing _ _ _ (if fault.applied then w' else w') ↔ _
    rw [ite_self, hw.allOrNothing_error_iff, hjob, hgetState]
    simp
  · intro hfault
    have hgetState : faults.getState = none := hfault
    change Program.Always faults.perform _
      ((if (w'.jobs item.deliveryId).map Job.state = some .completed ∨
          (w'.jobs item.deliveryId).map Job.state = some .failed then _
        else _ : Action Unit) >>= _) (w', true)
    simp only [hjob, Option.map_some, Option.some.injEq]
    by_cases hfinished : job.state = .completed ∨ job.state = .failed
    · have hdone : ¬ Unfinished (some job) := by
        rintro ⟨_, hsome, hunfinished⟩
        cases hsome
        exact hunfinished hfinished
      rw [if_pos hfinished]
      refine (always_remove rfl hw hjob hfinished hf).consequence ?_
      intro r s h
      rw [h, or_iff_right hdone, hgetState, eq_self, true_and]
    · have hunfinished : Unfinished (some job) := ⟨job, rfl, hfinished⟩
      rw [if_neg hfinished]
      refine (always_add rfl hw (Or.inr (hjob ▸ hunfinished)) hf).consequence ?_
      intro r s h
      rw [h, hjob]
      exact iff_of_true (Or.inl hunfinished) (Or.inl hunfinished)

/-- The calls of `enqueue`, by what becomes of the job. -/
theorem always_enqueue (hid : item.deliveryId = d) (hw : Requeued d w w')
    (hf : ∀ w'', Requeued d w w'' → Unfinished (w''.jobs d) →
      (f ()).Always faults.perform (fun r s => AllOrNothing d w r s.1)
        (w'', true)) :
    (enqueue maxAttempts item >>= f).Always faults.perform
      (fun r s => AllOrNothing d w r s.1 ↔
        Unfinished (w'.jobs d) ∨ faults.QueueAccepts (w'.jobs d))
      (w', true) := by
  subst hid
  unfold enqueue removeFinishedJob
  rw [Program.bind_assoc, Program.bind_assoc]
  apply always_routeQueue
  · intro fault hfault message
    have hgetJob : faults.getJob = some fault := hfault
    change AllOrNothing _ _ _ (if fault.applied then w' else w') ↔ _
    rw [ite_self, hw.allOrNothing_error_iff]
    simp [RouteFaults.QueueAccepts, hgetJob]
  · intro hfault
    have hgetJob : faults.getJob = none := hfault
    change Program.Always faults.perform _
      ((if (!(w'.jobs item.deliveryId).isSome) then _ else _ :
        Action Unit) >>= _) (w', true)
    cases hjob : w'.jobs item.deliveryId with
    | none =>
        refine (always_add rfl hw (Or.inl hjob) hf).consequence ?_
        intro r s h
        rw [h, hjob]
        simp [RouteFaults.QueueAccepts, hgetJob]
    | some job =>
        simp only [Option.isSome_some, Bool.not_true, Bool.false_eq_true,
          if_false, Program.bind_assoc]
        refine (always_getState rfl hw hjob hf).consequence ?_
        intro r s h
        rw [h]
        simp [RouteFaults.QueueAccepts, hgetJob, and_assoc]

end Enqueue

/-- The update puts a dead-lettered row back to pending. -/
theorem requeued_update {row : DeliveryRow}
    (hrow : w.db.delivery? d = some row) (hdead : row.status = .deadLettered)
    (at_ : Instant) :
    (retryDeadLetteredDelivery w.db d at_).1 = true ∧
      Requeued d w
        { w with db := (retryDeadLetteredDelivery w.db d at_).2 } := by
  have hmoved : (retryDeadLetteredDelivery w.db d at_).2.delivery? d =
      some (row.moved .pending at_) := by
    rw [retryDeadLetteredDelivery, delivery?_moveStatus_self, hrow,
      Option.map_some, if_pos hdead]
  refine ⟨moveStatus_result_iff.mpr ⟨row, hrow, hdead⟩, ?_, ?_⟩
  · rw [hmoved]
    rfl
  · intro hsame
    rw [hmoved, hrow, Option.map_some, Option.map_some] at hsame
    have hstatus := congrArg Progress.status (Option.some.inj hsame)
    simp [DeliveryRow.progress, DeliveryRow.moved, hdead] at hstatus

/-- The last read decides the answer and nothing else. -/
theorem always_reread (hw : Requeued d w w') (hjob : Unfinished (w'.jobs d))
    (f : Option DeliveryDetailRow → Action Response)
    (hf : ∀ updated, ∃ response, f updated = .done response) :
    (query (.getDeliveryDetailById d) >>= f).Always faults.perform
      (fun r s => AllOrNothing d w r s.1) (w', true) := by
  apply always_routeQuery rfl
  · intro fault _ e
    change AllOrNothing _ _ _ (if fault.applied then w' else w')
    rw [ite_self]
    exact hw.allOrNothing_of_unfinished hjob _
  · intro _
    obtain ⟨response, hresponse⟩ := hf (getDeliveryDetailById w'.db d)
    rw [hresponse]
    exact hw.allOrNothing_of_unfinished hjob _

theorem retryDelivery_alone {maxAttempts : ℕ} {row : DeliveryRow}
    (hrow : w.db.delivery? d = some row)
    (hdead : row.status = .deadLettered) :
    (retryDelivery maxAttempts d).Always faults.perform
      (fun r s => AllOrNothing d w r s.1 ↔ faults.Harmless (w.jobs d))
      (w, false) := by
  intro x
  obtain ⟨haccepted, hw'⟩ := requeued_update hrow hdead x.time
  set w' : World :=
    { w with db := (retryDeadLetteredDelivery w.db d x.time).2 }
  have hresult : ((Query.retryDeadLetteredDelivery d x.time).run w.db).1 =
      .ok true := congrArg Except.ok haccepted
  change (query (.retryDeadLetteredDelivery d x.time) >>= _).Always _ _
    (w, false)
  apply always_routeQuery hresult
  · intro fault hfault e
    have hupdate : faults.update = some fault := hfault
    by_cases happlied : fault.applied
    · rw [if_pos happlied]
      refine (hw'.allOrNothing_error_iff _).trans ?_
      simp [RouteFaults.Harmless, hupdate, happlied, w']
    · rw [if_neg happlied]
      refine iff_of_true (Or.inr (Or.inl rfl)) (Or.inr (Or.inl ?_))
      exact ⟨fault, hupdate, by simpa using happlied⟩
  · intro hfault
    have hupdate : faults.update = none := hfault
    change (query (.getDeliveryDetailById d) >>= _).Always _ _ (w', false)
    apply always_routeQuery rfl
    · intro fault hfault e
      have hread : faults.read = some fault := hfault
      change AllOrNothing _ _ _ (if fault.applied then w' else w') ↔ _
      rw [ite_self]
      refine (hw'.allOrNothing_error_iff _).trans ?_
      simp [RouteFaults.Harmless, hupdate, hread, w']
    · intro hfault
      have hread : faults.read = none := hfault
      obtain ⟨row', hrow', _⟩ := Option.map_eq_some_iff.mp hw'.pending
      obtain ⟨detail, hdetail, hid, _⟩ := getDeliveryDetailById_of_row hrow'
      have hid : detail.id = d := hid.trans (Database.id_of_delivery? hrow')
      change Program.Always _ _ _ (w', true)
      simp only [hdetail]
      intro y
      refine (always_enqueue hid hw' fun w'' hw'' hjob =>
        always_reread hw'' hjob _ ?_).consequence ?_
      · intro updated
        cases updated with
        | none => exact ⟨_, rfl⟩
        | some updated => exact ⟨_, rfl⟩
      · intro r s h
        rw [h]
        simp [RouteFaults.Harmless, hupdate, hread, w']

/-- A Delivery that is not dead-lettered, such as one that was left pending
without a job, is refused. -/
theorem retryDelivery_refused {maxAttempts : ℕ} {row : DeliveryRow}
    (hrow : w.db.delivery? d = some row)
    (hne : row.status ≠ .deadLettered) (readings : ℕ → Choice) :
    (RouteFaults.run {} readings maxAttempts d w).1 = .ok notDeadLettered := by
  have halways : (retryDelivery maxAttempts d).Always
      (RouteFaults.perform {}) (fun r _ => r = .ok notDeadLettered)
      (w, false) := by
    intro x
    have hrefused : (retryDeadLetteredDelivery w.db d x.time).1 = false := by
      rw [← Bool.not_eq_true, retryDeadLetteredDelivery, moveStatus_result_iff]
      rintro ⟨row', hrow', hdead⟩
      rw [hrow] at hrow'
      cases hrow'
      exact hne hdead
    have hresult : ((Query.retryDeadLetteredDelivery d x.time).run w.db).1 =
        .ok false := congrArg Except.ok hrefused
    have hrow' : (retryDeadLetteredDelivery w.db d x.time).2.delivery? d =
        some row := by
      rw [retryDeadLetteredDelivery, delivery?_moveStatus_self, hrow,
        Option.map_some, if_neg hne]
    obtain ⟨detail, hdetail, _⟩ := getDeliveryDetailById_of_row hrow'
    change (query (.retryDeadLetteredDelivery d x.time) >>= _).Always _ _
      (w, false)
    apply always_routeQuery hresult (fun _ h => by cases h)
    intro _
    refine always_routeQuery (congrArg Except.ok hdetail)
      (fun _ h => by cases h) fun _ => rfl
  exact halways.eval

end Route

/-- The retry of a dead-lettered Delivery is all or nothing exactly when no
harmful failure occurs. -/
theorem allOrNothing_iff_harmless (maxAttempts : ℕ) (d : Uuid)
    (faults : RouteFaults) (readings : ℕ → Choice) (w : World)
    (row : DeliveryRow) (hrow : w.db.delivery? d = some row)
    (hdead : row.status = .deadLettered) :
    AllOrNothing d w (faults.run readings maxAttempts d w).1
        (faults.run readings maxAttempts d w).2 ↔
      faults.Harmless (w.jobs d) :=
  (retryDelivery_alone hrow hdead).eval

/-- A Delivery that was dead-lettered after one Attempt, and whose job is
done. -/
def deadLetteredWorld : World where
  db := Database.ofTimeline 0
    ⟨.deadLettered, [⟨some 500, 12, none, 0⟩]⟩
  jobs := fun _ => some ⟨.completed, 1, 1, ⟨0, 0, 0, 0, 0⟩⟩

/-- Redis does not accept the new job. -/
def addFaults : RouteFaults where
  add := some (.rejected "connect ECONNREFUSED")

theorem allOrNothing_iff_harmless_add :
    AllOrNothing 0 deadLetteredWorld
        (addFaults.run (fun _ => {}) 1 0 deadLetteredWorld).1
        (addFaults.run (fun _ => {}) 1 0 deadLetteredWorld).2 ↔
      addFaults.Harmless (deadLetteredWorld.jobs 0) :=
  allOrNothing_iff_harmless 1 0 addFaults _ deadLetteredWorld _ rfl rfl

/-- The route throws, the row is pending, and there is no job. -/
theorem not_allOrNothing_add :
    ¬ ∀ (maxAttempts : ℕ) (d : Uuid) (faults : RouteFaults)
        (readings : ℕ → Choice) (w : World) (row : DeliveryRow),
      w.db.delivery? d = some row → row.status = .deadLettered →
        AllOrNothing d w (faults.run readings maxAttempts d w).1
          (faults.run readings maxAttempts d w).2 := by
  intro hall
  have hkept := hall 1 0 addFaults (fun _ => {}) deadLetteredWorld _ rfl rfl
  have hthrown : (addFaults.run (fun _ => {}) 1 0 deadLetteredWorld).1 =
      .error (.queue "connect ECONNREFUSED") := by decide
  have hstatus : selectDeliveryStatus
      (addFaults.run (fun _ => {}) 1 0 deadLetteredWorld).2.db 0 =
        some .pending := by decide
  have hjob : (addFaults.run (fun _ => {}) 1 0 deadLetteredWorld).2.jobs 0 =
      none := by decide
  rcases hkept with ⟨row, hok⟩ | hsame | ⟨_, job, hunfinished, _⟩
  · rw [hthrown] at hok
    cases hok
  · have hchanged : ((addFaults.run (fun _ => {}) 1 0
        deadLetteredWorld).2.db.delivery? 0).map DeliveryRow.progress ≠
      (deadLetteredWorld.db.delivery? 0).map DeliveryRow.progress := by decide
    exact hchanged hsame
  · rw [hjob] at hunfinished
    cases hunfinished

end WebhookBroadcast
