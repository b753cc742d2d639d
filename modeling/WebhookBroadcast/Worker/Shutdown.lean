import WebhookBroadcast.Interaction.Isolation
import WebhookBroadcast.Interaction.Severed
import WebhookBroadcast.Lifecycle.History

/-!
# Shutting the worker down

The shutdown handler of `apps/api/src/worker.ts` ends the connection pool in
the tick in which it tells the worker to close.  The runs in flight go on:
a statement that was sent before is still answered, every later one is
rejected.  This module proves exactly which of these runs lose their Delivery.
-/

namespace WebhookBroadcast

open Interaction Timeline

/-! ## Runs without a pool -/

/-- After `pool.end()` a statement is rejected without being sent. -/
def poolEnded : (c : Call) → Option c.Answer
  | .query _ => some (.error (.unavailable
      "Cannot use a pool after calling end on the pool"))
  | _ => none

/-- The worker gives the job no other run. -/
def EndsForGood {α : Type} (r : Except Thrown α) : Prop :=
  ∀ message delayMs, r ≠ .error (.retryableDeliveryError message delayMs)

/-- Without the pool, the program cannot ask for another run. -/
def Strands {α : Type} (p : Action α) : Prop :=
  (p.severed poolEnded).EveryEnd EndsForGood

theorem endsForGood_ok {α : Type} (a : α) :
    EndsForGood (.ok a : Except Thrown α) :=
  fun _ _ h => by cases h

theorem endsForGood_database {α : Type} (e : DbError) :
    EndsForGood (.error (.database e) : Except Thrown α) :=
  fun _ _ h => by cases h

theorem strands_bind {α β : Type} {p : Action α} {f : α → Action β}
    (hp : p.EveryEnd EndsForGood) (hf : ∀ a, Strands (f a)) :
    Strands (p >>= f) := by
  unfold Strands
  rw [Program.severed_bind]
  refine Program.EveryEnd.bind (fun a _ => hf a) ?_ hp.severed
  intro e he message delayMs h
  cases h
  exact he message delayMs rfl

theorem strands_finishAttempt {deps : ProcessDeliveryDeps} {d : Uuid} {n : ℕ}
    {attempt : HttpAttempt} {at_ : Instant} {status : DeliveryStatus}
    (f : Unit → Action Unit) :
    Strands (finishAttempt deps d n attempt at_ status >>= f) :=
  endsForGood_database _

theorem strands_settleAttempt {deps : ProcessDeliveryDeps}
    {record : DeliveryForProcessing} {d : Uuid} {n : ℕ} {attempt : HttpAttempt}
    {at_ : Instant} : Strands (settleAttempt deps record d n attempt at_) := by
  unfold settleAttempt
  split
  · rw [← Program.bind_done (finishAttempt _ _ _ _ _ _)]
    exact strands_finishAttempt _
  · split
    · exact strands_finishAttempt _
    · split
      · exact strands_finishAttempt _
      · exact strands_finishAttempt _

/-- A run that waits at this call strands, unless the call is one of the last
that it needs. -/
def Exposed : (c : Call) → (c.Answer → Action Unit) → Prop
  | .query (.completeDelivery _), k => ∀ e, Strands (k (.error e))
  | .query (.resetInProgressDeliveryToPending _ _), _ => True
  | .random, _ => True
  | _, k => ∀ a, Strands (k a)

section Exposed

variable {d : Uuid} {deps : ProcessDeliveryDeps}

theorem exposed_of_dials {α : Type} {c : Call} (hc : c.Dials)
    {k : c.Answer → Action α} {f : α → Action Unit}
    (hk : ∀ a, (k a).EveryEnd EndsForGood) (hf : ∀ a, Strands (f a)) :
    Exposed c fun a => k a >>= f := by
  have hstrands (a : c.Answer) : Strands (k a >>= f) := strands_bind (hk a) hf
  cases c with
  | query q => cases hc
  | queue q => cases hc
  | random => cases hc
  | _ => exact hstrands

theorem exposed_of_onEndpoint {c : Call} (hc : c.OnEndpoint)
    {k : c.Answer → Action Unit} (hk : ∀ a, Strands (k a)) : Exposed c k := by
  cases c with
  | query q =>
      cases q with
      | selectEndpointEnablement _ => exact hk
      | selectLastSuccess _ => exact hk
      | selectStreakStart _ _ => exact hk
      | stampAutoDisabled _ _ => exact hk
      | _ => cases hc
  | _ => cases hc

/-- A program whose only business is with the random source is not exposed. -/
theorem exposed_of_retries {capMs : ℕ} {p : Action Unit}
    (hp : Retries capMs p) : p.EveryCall Exposed := by
  refine Program.EveryCall.mono (fun c k hc => ?_) hp.calls
  have hrandom : c = .random := hc
  subst hrandom
  trivial

theorem exposed_releaseClaim {n : ℕ} {at_ : Instant} {dbErr : DbError}
    (f : Unit → Action Unit) :
    (releaseClaim deps d n at_ dbErr >>= f).EveryCall Exposed := by
  have hretries := retries_notPersisted deps d n dbErr f
  refine ⟨trivial, ?_⟩
  intro answer
  cases answer with
  | error e => trivial
  | ok released => exact exposed_of_retries hretries

theorem exposed_finishAttempt {n : ℕ} {attempt : HttpAttempt} {at_ : Instant}
    {status : DeliveryStatus} {f : Unit → Action Unit}
    (hf : (f ()).EveryCall Exposed) :
    (finishAttempt deps d n attempt at_ status >>= f).EveryCall Exposed := by
  refine ⟨fun _ => endsForGood_database _, ?_⟩
  intro answer
  cases answer with
  | ok result => exact hf
  | error dbErr => exact exposed_releaseClaim f

theorem everyEnd_query {α : Type} {q : Query} {f : q.Result → Action α}
    (hf : ∀ result, (f result).EveryEnd EndsForGood) :
    (query q >>= f).EveryEnd EndsForGood := by
  intro answer
  cases answer with
  | ok result => exact hf result
  | error e => exact endsForGood_database e

theorem maybeAutoDisableEndpoint_endsForGood (endpointId : Uuid)
    (autoDisableAfterMs : ℕ) (now : Instant) :
    (maybeAutoDisableEndpoint endpointId autoDisableAfterMs now).EveryEnd
      EndsForGood := by
  apply everyEnd_query
  intro endpoint
  cases endpoint with
  | none => exact endsForGood_ok _
  | some endpoint =>
      dsimp only
      split
      · exact endsForGood_ok _
      · apply everyEnd_query
        intro lastSuccess
        apply everyEnd_query
        intro streakStart
        cases streakStart with
        | none => exact endsForGood_ok _
        | some start =>
            dsimp only
            split
            · exact endsForGood_ok _
            · rw [← Program.bind_done (query _)]
              exact everyEnd_query fun _ => endsForGood_ok _

theorem exposed_disableAfter (endpointId : Uuid) (autoDisableAfterMs : ℕ)
    (now : Instant) :
    (do
      let _ ← maybeAutoDisableEndpoint endpointId autoDisableAfterMs now
      return ()).EveryCall Exposed := by
  refine Program.EveryCall.bind ?_ ?_
    (Program.EveryCall.and_everyEnd (MakesOnly.maybeAutoDisableEndpoint _ _ _)
      (maybeAutoDisableEndpoint_endsForGood endpointId autoDisableAfterMs now))
    Program.EveryEnd.trivial
  · rintro c k ⟨hc, hk⟩
    exact exposed_of_onEndpoint hc fun a =>
      strands_bind (hk a) fun _ => endsForGood_ok _
  · exact fun _ _ => trivial

theorem exposed_settleAttempt {record : DeliveryForProcessing} {n : ℕ}
    {attempt : HttpAttempt} {at_ : Instant} (hattempt : attempt.Observed) :
    (settleAttempt deps record d n attempt at_).EveryCall Exposed := by
  unfold settleAttempt
  split
  · rw [← Program.bind_done (finishAttempt _ _ _ _ _ _)]
    exact exposed_finishAttempt trivial
  · split
    · exact exposed_finishAttempt (exposed_disableAfter _ _ _)
    · split
      · exact exposed_finishAttempt (exposed_disableAfter _ _ _)
      · exact exposed_finishAttempt
          (exposed_of_retries (retries_attemptFailed deps d n hattempt))

theorem exposed_markDeliveryInProgress {updatedAt : Instant}
    {f : Bool → Action Unit} (hstrands : ∀ claimed, Strands (f claimed))
    (hf : ∀ claimed, (f claimed).EveryCall Exposed) :
    (markDeliveryInProgress d updatedAt >>= f).EveryCall Exposed := by
  constructor
  · intro answer
    cases answer with
    | error e => exact endsForGood_database e
    | ok claimed =>
        cases claimed with
        | true => exact hstrands true
        | false => exact endsForGood_database _
  · intro answer
    cases answer with
    | error e => trivial
    | ok claimed =>
        cases claimed with
        | true => exact hf true
        | false =>
            constructor
            · intro existing
              cases existing with
              | error e => exact endsForGood_database e
              | ok status => exact hstrands _
            · intro existing
              cases existing with
              | error e => trivial
              | ok status => exact hf _

theorem exposed_processDelivery (dateParse : String → Option Instant) :
    (processDelivery dateParse deps d).EveryCall Exposed := by
  have hdial (record : DeliveryForProcessing) :
      (dialEndpoint dateParse deps record).EveryEnd EndsForGood := by
    refine Program.EveryEnd.mono (fun r h => ?_)
      (dialEndpoint_observed dateParse deps record)
    obtain ⟨attempt, rfl, _⟩ := h
    exact endsForGood_ok attempt
  have hsettle (record : DeliveryForProcessing) (n : ℕ)
      (attempt : HttpAttempt) : Strands (do
        let at_ ← now
        settleAttempt deps record d n attempt at_) :=
    fun at_ => strands_settleAttempt
  constructor
  · intro answer
    match answer with
    | .error e => exact endsForGood_database e
    | .ok none => exact endsForGood_ok ()
    | .ok (some record) =>
        by_cases hguard : record.status ≠ .pending ∧
            record.status ≠ .inProgress
        · simp only [Program.bind, if_pos hguard]
          exact endsForGood_ok ()
        · simp only [Program.bind, if_neg hguard]
          exact fun claimedAt => endsForGood_database _
  · intro answer
    match answer with
    | .error e => trivial
    | .ok none => trivial
    | .ok (some record) =>
        by_cases hguard : record.status ≠ .pending ∧
            record.status ≠ .inProgress
        · simp only [Program.bind, if_pos hguard]
          trivial
        · simp only [Program.bind, if_neg hguard]
          refine ⟨fun claimedAt => endsForGood_database _, fun claimedAt => ?_⟩
          apply exposed_markDeliveryInProgress
          · intro claimed
            cases claimed with
            | false => exact endsForGood_ok ()
            | true =>
                exact strands_bind (hdial record)
                  fun attempt => hsettle record _ attempt
          · intro claimed
            cases claimed with
            | false => trivial
            | true =>
                refine Program.EveryCall.bind ?_ ?_
                  (Program.EveryCall.and_everyEnd
                    (MakesOnly.dialEndpoint dateParse deps record)
                    (hdial record))
                  (dialEndpoint_observed dateParse deps record)
                · rintro c k ⟨hc, hk⟩
                  exact exposed_of_dials hc hk fun attempt =>
                    hsettle record _ attempt
                · rintro attempt ⟨_, hok, hattempt⟩
                  cases hok
                  exact ⟨fun at_ => strands_settleAttempt,
                    fun at_ => exposed_settleAttempt hattempt⟩

end Exposed

/-! ## What becomes of a Delivery -/

/-- The Delivery is terminal or gone, or the job that its run ends with `r` is
moved on to another run. -/
def Kept (d : Uuid) (r : Except Thrown Unit) (w : World) : Prop :=
  Settled (w.db.timeline? d) ∨ ∃ job, w.jobs d = some job ∧
    ((job.settle r).state = .waiting ∨ (job.settle r).state = .delayed)

/-- The job of the Delivery may run again. -/
def HasRunsLeft (d : Uuid) (w : World) : Prop :=
  ∃ job, w.jobs d = some job ∧ job.runs < job.attempts

/-- A run of the Delivery that is at this point when the pool ends will not
lose it.  What it may still need is the transaction it has sent, if that leaves
the Delivery terminal, or else a job that may run again once the claim has been
given up. -/
def DrainsCleanly (d : Uuid) (w : World) : Action Unit → Prop
  | .call (.query (.completeDelivery input)) _ =>
      if Recordable w.db input then input.status.Terminal ∨ HasRunsLeft d w
      else Settled (w.db.timeline? d)
  | .call (.query (.resetInProgressDeliveryToPending _ _)) _ =>
      Settled (w.db.timeline? d) ∨ HasRunsLeft d w
  | .call .random _ => Settled (w.db.timeline? d) ∨ HasRunsLeft d w
  | _ => Settled (w.db.timeline? d)

theorem kept_iff_of_asksForRetry {d : Uuid} {capMs : ℕ}
    {r : Except Thrown Unit} (hr : AsksForRetry capMs r) (w : World) :
    Kept d r w ↔ Settled (w.db.timeline? d) ∨ HasRunsLeft d w := by
  obtain ⟨message, delayMs, rfl, hdelay, _⟩ := hr
  have hqueued (job : Job) :
      (((job.settle (.error (.retryableDeliveryError message delayMs))).state =
          .waiting ∨
        (job.settle (.error (.retryableDeliveryError message delayMs))).state =
          .delayed) ↔ job.runs < job.attempts) := by
    simp only [Job.settle, Job.reject, backoffStrategy, hdelay, and_true]
    by_cases hruns : job.runs < job.attempts
    · by_cases hzero : delayMs = 0
      · simp [hruns, hzero]
      · simp [hruns, hzero]
    · simp [hruns]
  simp only [Kept, HasRunsLeft, hqueued]

theorem kept_iff_of_endsForGood {d : Uuid} {r : Except Thrown Unit}
    (hr : EndsForGood r) (w : World) :
    Kept d r w ↔ Settled (w.db.timeline? d) := by
  have hfinished (job : Job) : (job.settle r).state.Finished := by
    match r with
    | .ok _ => exact Or.inl rfl
    | .error (.retryableDeliveryError message delayMs) =>
        exact absurd rfl (hr message delayMs)
    | .error (.database e) =>
        exact (job.reject_finished_iff (-1)).mpr (by norm_num)
    | .error (.queue message) =>
        exact (job.reject_finished_iff (-1)).mpr (by norm_num)
  constructor
  · rintro (hsettled | ⟨job, _, hqueued⟩)
    · exact hsettled
    · rcases hfinished job with h | h
      · simp [h] at hqueued
      · simp [h] at hqueued
  · exact Or.inl

/-- A change that leaves the Delivery and all jobs alone. -/
structure LeavesAlone (d : Uuid) (w w' : World) : Prop where
  row : w'.db.delivery? d = w.db.delivery? d
  log : w'.db.attemptLog d = w.db.attemptLog d
  jobs : w'.jobs = w.jobs

namespace LeavesAlone

variable {d : Uuid} {w w' w'' : World}

theorem refl (w : World) : LeavesAlone d w w := ⟨rfl, rfl, rfl⟩

theorem trans (h : LeavesAlone d w w') (h' : LeavesAlone d w' w'') :
    LeavesAlone d w w'' :=
  ⟨h'.row.trans h.row, h'.log.trans h.log, h'.jobs.trans h.jobs⟩

theorem timeline? (h : LeavesAlone d w w') :
    w'.db.timeline? d = w.db.timeline? d :=
  Database.timeline?_congr h.row h.log

theorem hasRunsLeft (h : LeavesAlone d w w') :
    HasRunsLeft d w' ↔ HasRunsLeft d w := by
  rw [HasRunsLeft, HasRunsLeft, h.jobs]

end LeavesAlone

theorem leavesAlone_perform {d : Uuid} {c : Call} (hwrites : c.writes ≠ some d)
    (hqueue : ∀ q, c ≠ .queue q) (x : Choice) (w : World) :
    LeavesAlone d w (perform x c w).2 := by
  obtain ⟨hrow, hlog⟩ := perform_frame hwrites x w
  exact ⟨hrow, hlog, perform_jobs_of_not_queue hqueue x w⟩

/-! ## Draining a run -/

/-- While the worker waits for its runs, statements that were sent are
answered; the others leave the Delivery of the run and its job alone. -/
def draining (d : Uuid) : Discipline Effects Choice World where
  handler := perform
  permits _ _ x := x.fault = none
  invariant _ := True
  rely := LeavesAlone d
  guarantee _ _ := True

section Draining

variable {d : Uuid} {capMs : ℕ} {p : Action Unit}

theorem leavesAlone_of_interferes {w w' : World}
    (h : (draining d).Interferes w w') : LeavesAlone d w w' :=
  h.preserves (fun _ _ hstep hw => hw.trans hstep) (LeavesAlone.refl w)

/-- A severed run does nothing any more but end. -/
theorem ensures_severed (hshape : p.EveryCall (Shape d capMs))
    {ends : Except Thrown Unit → Prop}
    (hends : (p.severed poolEnded).EveryEnd ends) (w : World) :
    (draining d).Ensures (fun r w' => ends r ∧ LeavesAlone d w w')
      (p.severed poolEnded) w := by
  have hcalls : p.EveryCall fun c _ => ∀ q, c ≠ Call.queue q :=
    Program.EveryCall.mono (fun _ _ => not_queue_of_shape) hshape
  refine Discipline.Ensures.of_everyCall
    (fun _ _ hstep hw => hw.trans hstep) ?_ hends (LeavesAlone.refl w)
  refine Program.EveryCall.mono (fun c k hc t x _ _ ht => ?_)
    (Program.EveryCall.severed hcalls)
  refine ⟨trivial, trivial, ht.trans (leavesAlone_perform ?_ hc.1 x t)⟩
  cases c with
  | query q => cases hc.2
  | _ => exact (Option.some_ne_none d).symm

theorem ensures_of_strands (hshape : p.EveryCall (Shape d capMs))
    (hp : Strands p) (w : World) :
    (draining d).Ensures
      (fun r w' => Kept d r w' ↔ Settled (w.db.timeline? d))
      (p.severed poolEnded) w :=
  (ensures_severed hshape hp w).consequence fun r w' h => by
    rw [kept_iff_of_endsForGood h.1, h.2.timeline?]

theorem ensures_of_retries (hp : Retries capMs p) (w : World) :
    (draining d).Ensures
      (fun r w' => Kept d r w' ↔
        Settled (w.db.timeline? d) ∨ HasRunsLeft d w)
      (p.severed poolEnded) w :=
  (ensures_severed hp.shape hp.ends.severed w).consequence fun r w' h => by
    rw [kept_iff_of_asksForRetry h.1, h.2.timeline?, h.2.hasRunsLeft]

theorem settled_moveStatus {old new : DeliveryStatus} (hold : old.Live)
    (hnew : new.Live) (db : Database) (updatedAt : Instant) :
    Settled ((moveStatus old new db d updatedAt).2.timeline? d) ↔
      Settled (db.timeline? d) := by
  rw [timeline?_moveStatus_self]
  cases db.timeline? d with
  | none => rfl
  | some t =>
      rw [Option.map_some, settled_some, settled_some]
      by_cases hstatus : t.status = old
      · simp [hstatus, hold, hnew]
      · simp [hstatus]

theorem drainsCleanly_congr (hshape : p.EveryCall (Shape d capMs))
    {w w' : World} (h : LeavesAlone d w w') :
    DrainsCleanly d w' p ↔ DrainsCleanly d w p := by
  have hsettled : Settled (w'.db.timeline? d) ↔ Settled (w.db.timeline? d) := by
    rw [h.timeline?]
  unfold DrainsCleanly
  split
  next input k =>
    have hid : input.deliveryId = d := hshape.1.1
    have hrecordable : Recordable w'.db input ↔ Recordable w.db input := by
      rw [Recordable, Recordable, hid, h.row, h.log]
    simp only [hrecordable, h.hasRunsLeft, hsettled]
  · rw [hsettled, h.hasRunsLeft]
  · rw [hsettled, h.hasRunsLeft]
  · exact hsettled

/-- What the transaction that was sent decides. -/
theorem ensures_of_completeDelivery {input : CompleteDeliveryInput}
    {k : Except DbError Unit → Action Unit} {t : World} {x : Choice}
    (hx : x.fault = none)
    (hc : Shape d capMs (.query (.completeDelivery input)) k)
    (hexposed : Exposed (.query (.completeDelivery input)) k)
    (hk : ∀ a, (k a).EveryCall (Shape d capMs)) :
    (draining d).Ensures
      (fun r w' => Kept d r w' ↔
        DrainsCleanly d t (.call (.query (.completeDelivery input)) k))
      ((k (perform x (.query (.completeDelivery input)) t).1).severed
        poolEnded)
      (perform x (.query (.completeDelivery input)) t).2 := by
  obtain ⟨rfl, hretries⟩ := hc
  rw [perform_query_of_none hx]
  simp only [Query.run, DrainsCleanly]
  by_cases hrec : Recordable t.db input
  · obtain ⟨row, hrow⟩ := Option.isSome_iff_exists.mp hrec.1
    rw [completeDelivery_result_of_recordable hrec, if_pos hrec]
    have hsettled : Settled ((completeDelivery t.db input).2.timeline?
        input.deliveryId) ↔ input.status.Terminal := by
      rw [timeline?_completeDelivery_self hrec hrow, settled_some,
        DeliveryStatus.terminal_iff_not_live]
    by_cases hterminal : input.status.Terminal
    · refine (ensures_severed (hk _) Program.EveryEnd.trivial _).consequence ?_
      intro r w' h
      refine iff_of_true (Or.inl ?_) (Or.inl hterminal)
      rw [h.2.timeline?]
      exact hsettled.mpr hterminal
    · refine (ensures_of_retries (hretries hterminal) _).consequence ?_
      intro r w' h
      rw [h, hsettled]
      rfl
  · obtain ⟨⟨e, herror⟩, hsame⟩ := completeDelivery_of_not_recordable hrec
    rw [herror, hsame, if_neg hrec]
    exact ensures_of_strands (hk _) (hexposed e) t

/-- A run that is drained keeps its Delivery exactly when it drains cleanly. -/
theorem ensures_drained (hshape : p.EveryCall (Shape d capMs))
    (hexposed : p.EveryCall Exposed) (hopen : p.result? = none) (w : World) :
    (draining d).Ensures (fun r w' => Kept d r w' ↔ DrainsCleanly d w p)
      (p.drained poolEnded) w := by
  cases p with
  | done a => cases hopen
  | fail e => cases hopen
  | call c k =>
      intro t hwt _ x hx
      refine ⟨trivial, trivial, ?_⟩
      rw [← drainsCleanly_congr hshape (leavesAlone_of_interferes hwt)]
      obtain ⟨hc, hk⟩ := hshape
      have hquiet {t' : World} (hsettled : Settled (t'.db.timeline? d) ↔
          Settled (t.db.timeline? d)) {a : c.Answer} (hstrands : Strands (k a)) :
          (draining d).Ensures
            (fun r w' => Kept d r w' ↔ Settled (t.db.timeline? d))
            ((k a).severed poolEnded) t' :=
        (ensures_of_strands (hk a) hstrands t').consequence
          fun r w' h => h.trans hsettled
      have hsame (hwrites : c.writes = none) :
          Settled ((perform x c t).2.db.timeline? d) ↔
            Settled (t.db.timeline? d) := by
        have hne : c.writes ≠ some d := by simp [hwrites]
        rw [(leavesAlone_perform hne (not_queue_of_shape hc) x t).timeline?]
      cases c with
      | queue q => exact absurd rfl (not_queue_of_shape hc q)
      | randomUUID => rcases hc with hc | hc <;> cases hc
      | random => exact ensures_of_retries (hc _) t
      | fetch request => exact hquiet (hsame rfl) (hexposed.1 _)
      | drainBody => exact hquiet (hsame rfl) (hexposed.1 _)
      | now => exact hquiet (hsame rfl) (hexposed.1 _)
      | hrtime => exact hquiet (hsame rfl) (hexposed.1 _)
      | query q =>
          cases q with
          | completeDelivery input =>
              exact ensures_of_completeDelivery hx hc hexposed.1 hk
          | resetInProgressDeliveryToPending id updatedAt =>
              obtain ⟨rfl, hretries⟩ := hc
              have hreset := settled_moveStatus (d := id)
                DeliveryStatus.live_inProgress DeliveryStatus.live_pending t.db
                updatedAt
              change (draining id).Ensures _ ((k (perform x _ t).1).severed _)
                (perform x _ t).2
              rw [perform_query_of_none hx]
              refine (ensures_of_retries (hretries _) _).consequence ?_
              intro r w' h
              exact h.trans (or_congr_left hreset)
          | claimPendingDelivery id updatedAt =>
              have hid : id = d := hc
              subst hid
              refine hquiet ?_ (hexposed.1 _)
              change Settled ((perform x _ t).2.db.timeline? id) ↔ _
              rw [perform_query_of_none hx]
              exact settled_moveStatus DeliveryStatus.live_pending
                DeliveryStatus.live_inProgress t.db updatedAt
          | retryDeadLetteredDelivery id updatedAt =>
              rcases hc with hc | hc <;> cases hc
          | getDeliveryDetailById id =>
              rcases hc with hc | hc <;> cases hc
          | _ => exact hquiet (hsame rfl) (hexposed.1 _)

end Draining

/-! ## The shutdown -/

/-- The runs that a worker is processing: they have not ended, and each holds
the active job of its own Delivery. -/
structure InFlight (P : Pool Effects Thrown Unit Task World)
    (runs : List (Run Effects Thrown Unit Task)) : Prop where
  mem : ∀ run ∈ runs, run ∈ P.runs
  unfinished : ∀ run ∈ runs, run.program.result? = none
  active : ∀ run ∈ runs, ∃ job, P.state.jobs run.task.deliveryId = some job ∧
    job.state = .active
  nodup : (runs.map fun run => run.task.deliveryId).Nodup

/-- The shutdown handler of the worker that processes these runs: no job is
fetched any more, and the pool is ended. -/
def shutdown (w : World) (runs : List (Run Effects Thrown Unit Task)) :
    Pool Effects Thrown Unit Task World :=
  ⟨w, runs.map fun run => ⟨run.task, run.program.drained poolEnded⟩⟩

/-- The runs after some more of their steps. -/
def drain (dateParse : String → Option Instant) (w : World)
    (runs : List (Run Effects Thrown Unit Task))
    (steps : List (ℕ × Choice)) : Pool Effects Thrown Unit Task World :=
  (workers dateParse).exec (shutdown w runs)
    (steps.map fun step => .step step.1 step.2)

/-- Every run has ended. -/
def Drained (P : Pool Effects Thrown Unit Task World) : Prop :=
  ∀ run ∈ P.runs, run.program.result? ≠ none

/-- Each Delivery whose run has ended is terminal, gone or has a job that will
run it again. -/
def LosesNothing (P : Pool Effects Thrown Unit Task World) : Prop :=
  ∀ run ∈ P.runs, ∀ r, run.program.result? = some r →
    Kept run.task.deliveryId r P.state

section Shutdown

variable {dateParse : String → Option Instant} {w : World} {history : History}
  {runs : List (Run Effects Thrown Unit Task)} {steps : List (ℕ × Choice)}

theorem exposed_after (dateParse : String → Option Instant) (w : World)
    (history : History) : ∀ run ∈ (after dateParse w history).runs,
      run.program.EveryCall Exposed :=
  everyCall_after (φ := fun _ => Exposed)
    (fun _ => exposed_processDelivery dateParse) w history

/-- Each run in flight owns its Delivery. -/
theorem isolated_shutdown (hruns : InFlight (after dateParse w history) runs)
    {i : ℕ} {run : Run Effects Thrown Unit Task} (hi : runs[i]? = some run) :
    System.Isolated (draining run.task.deliveryId)
      (fun r w' => Kept run.task.deliveryId r w' ↔
        DrainsCleanly run.task.deliveryId (after dateParse w history).state
          run.program) i
      (shutdown (after dateParse w history).state runs) := by
  have hmem : run ∈ runs := List.mem_of_getElem? hi
  refine ⟨trivial, ?_, ?_⟩
  · intro drained hdrained
    have hdrained' : drained =
        ⟨run.task, run.program.drained poolEnded⟩ := by
      simpa [shutdown, hi] using hdrained.symm
    rw [hdrained']
    exact ensures_drained (shape_after dateParse w history run
      (hruns.mem run hmem)) (exposed_after dateParse w history run
      (hruns.mem run hmem)) (hruns.unfinished run hmem) _
  · intro j drained hij hdrained
    obtain ⟨other, hj, rfl⟩ : ∃ other, runs[j]? = some other ∧
        (⟨other.task, other.program.drained poolEnded⟩ :
          Run Effects Thrown Unit Task) = drained := by
      simpa [shutdown] using hdrained
    have hne : other.task.deliveryId ≠ run.task.deliveryId := by
      intro heq
      have hids (l : ℕ) : (runs.map fun run => run.task.deliveryId)[l]? =
          runs[l]?.map fun run => run.task.deliveryId := List.getElem?_map
      have hlt : j < (runs.map fun run => run.task.deliveryId).length := by
        simpa using (List.getElem?_eq_some_iff.mp hj).1
      apply hij
      apply (List.getElem?_inj hlt hruns.nodup).mp
      rw [hids, hids, hj, hi, Option.map_some, Option.map_some, heq]
    have hshape := shape_after dateParse w history other
      (hruns.mem other (List.mem_of_getElem? hj))
    have hcalls : other.program.EveryCall fun (c : Call) _ =>
        c.writes ≠ some run.task.deliveryId ∧ ∀ q, c ≠ .queue q := by
      refine Program.EveryCall.mono (fun c k hc => ?_) hshape
      refine ⟨?_, not_queue_of_shape hc⟩
      rcases writes_of_shape hc with h | h
      · simp [h]
      · simpa [h] using hne
    refine Program.EveryCall.mono (fun c k hc t x _ _ => ?_)
      (Program.EveryCall.drained hcalls)
    exact ⟨trivial, leavesAlone_perform hc.1 hc.2 x t⟩

theorem tasks_drain : (drain dateParse w runs steps).runs.map Run.task =
    runs.map Run.task := by
  rw [drain, System.tasks_exec_steps, shutdown, List.map_map]
  rfl

/-- Runs of the same tasks have the same places. -/
theorem exists_same_task {others : List (Run Effects Thrown Unit Task)}
    (h : others.map Run.task = runs.map Run.task) {i : ℕ}
    {run : Run Effects Thrown Unit Task} (hi : runs[i]? = some run) :
    ∃ other, others[i]? = some other ∧ other.task = run.task := by
  have hplace := congrArg (·[i]?) h
  simp only [List.getElem?_map, hi, Option.map_some,
    Option.map_eq_some_iff] at hplace
  exact hplace

end Shutdown

/-- A shutdown loses nothing exactly when every run in flight drains cleanly
from where it is. -/
theorem losesNothing_iff_drainsCleanly
    (dateParse : String → Option Instant) (w : World) (history : History)
    (runs : List (Run Effects Thrown Unit Task))
    (hruns : InFlight (after dateParse w history) runs)
    (steps : List (ℕ × Choice)) (hsteps : ∀ step ∈ steps, step.2.fault = none)
    (hdrained : Drained
      (drain dateParse (after dateParse w history).state runs steps)) :
    LosesNothing
        (drain dateParse (after dateParse w history).state runs steps) ↔
      ∀ run ∈ runs, DrainsCleanly run.task.deliveryId
        (after dateParse w history).state run.program := by
  let P := drain dateParse (after dateParse w history).state runs steps
  have hdecided {i : ℕ} {run drained : Run Effects Thrown Unit Task}
      (hi : runs[i]? = some run) (hi' : P.runs[i]? = some drained)
      {r : Except Thrown Unit} (hr : drained.program.result? = some r) :
      Kept run.task.deliveryId r P.state ↔
        DrainsCleanly run.task.deliveryId (after dateParse w history).state
          run.program :=
    (System.Isolated.exec rfl steps (fun step hstep _ _ => hsteps step hstep)
      (isolated_shutdown hruns hi)).ended hi' hr
  have htasks : P.runs.map Run.task = runs.map Run.task := tasks_drain
  constructor
  · intro hkept run hrun
    obtain ⟨i, hi⟩ := List.mem_iff_getElem?.mp hrun
    obtain ⟨drained, hi', htask⟩ := exists_same_task htasks hi
    have hmem : drained ∈ P.runs := List.mem_of_getElem? hi'
    obtain ⟨r, hr⟩ := Option.ne_none_iff_exists'.mp (hdrained drained hmem)
    have hrun := hkept drained hmem r hr
    rw [htask] at hrun
    exact (hdecided hi hi' hr).mp hrun
  · intro hclean drained hmem r hr
    obtain ⟨i, hi'⟩ := List.mem_iff_getElem?.mp hmem
    obtain ⟨run, hi, htask⟩ := exists_same_task htasks.symm hi'
    rw [← htask]
    exact (hdecided hi hi' hr).mpr (hclean run (List.mem_of_getElem? hi))

/-- A fresh Delivery whose job is in its first run. -/
def dialingWorld : World where
  db := Database.ofTimeline 0 ⟨.pending, []⟩
  jobs := fun _ => some ⟨.active, 1, 8, ⟨0, 0, 0, 0, 0⟩⟩

/-- The run goes as far as its `fetch`. -/
def dialingHistory : History :=
  .start ⟨{ defaultTimeoutMs := 1000 }, 0⟩ :: List.replicate 4 (.step 0 {})

def dialing : Pool Effects Thrown Unit Task World :=
  after (fun _ => none) dialingWorld dialingHistory

theorem inFlight_dialing : InFlight dialing dialing.runs where
  mem := fun _ h => h
  unfinished := by decide
  active := by
    have hactive : ∀ run ∈ dialing.runs,
        (dialing.state.jobs run.task.deliveryId).map Job.state =
          some .active := by decide
    exact fun run hrun => Option.map_eq_some_iff.mp (hactive run hrun)
  nodup := by decide

/-- The Endpoint answers `200` after the pool has ended. -/
def answeredSteps : List (ℕ × Choice) := List.replicate 4 (0, {})

theorem losesNothing_iff_drainsCleanly_dialing :
    LosesNothing
        (drain (fun _ => none) dialing.state dialing.runs answeredSteps) ↔
      ∀ run ∈ dialing.runs, DrainsCleanly run.task.deliveryId
        dialing.state run.program :=
  losesNothing_iff_drainsCleanly _ dialingWorld dialingHistory dialing.runs
    inFlight_dialing answeredSteps (by simp [answeredSteps])
    (by unfold Drained; decide)

/-- The row is left in progress, and the job has failed for good. -/
theorem not_losesNothing_dialing :
    ¬ ∀ (dateParse : String → Option Instant) (w : World) (history : History)
        (runs : List (Run Effects Thrown Unit Task)),
      InFlight (after dateParse w history) runs →
      ∀ steps : List (ℕ × Choice), (∀ step ∈ steps, step.2.fault = none) →
        Drained (drain dateParse (after dateParse w history).state runs
          steps) →
        LosesNothing (drain dateParse (after dateParse w history).state runs
          steps) := by
  intro hall
  let P := drain (fun _ => none) dialing.state dialing.runs answeredSteps
  have hkept : LosesNothing P :=
    hall _ dialingWorld dialingHistory dialing.runs inFlight_dialing
      answeredSteps (by simp [answeredSteps]) (by unfold Drained; decide)
  have hresult : (P.runs[0]?.map fun run =>
      (run.task.deliveryId, run.program.result?)) =
      some (0, some (.error (.database (.unavailable
        "Cannot use a pool after calling end on the pool")))) := by decide
  have hstatus : selectDeliveryStatus P.state.db 0 = some .inProgress := by
    decide
  obtain ⟨run, hi, hrun⟩ := Option.map_eq_some_iff.mp hresult
  obtain ⟨hid, hr⟩ := Prod.mk.inj hrun
  have hlost := hkept run (List.mem_of_getElem? hi) _ hr
  rw [hid, kept_iff_of_endsForGood (endsForGood_database _)] at hlost
  obtain ⟨row, hrow, hprogress⟩ := Option.map_eq_some_iff.mp hstatus
  exact hlost _ (Database.timeline?_eq_some hrow) (Or.inr hprogress)

end WebhookBroadcast
