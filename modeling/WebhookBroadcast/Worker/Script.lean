import WebhookBroadcast.Interaction.Alone
import WebhookBroadcast.Lifecycle.Refinement
import WebhookBroadcast.Worker.Calls

/-!
# Scripted runs

A run that works on its Delivery alone makes each of its statements at most
once, so that what happens to it is fixed by a script: which of its statements
fail and how, what the Endpoint replies, and the readings of clock and random
source.

`RunScript.effect` says what a script does to the timeline of a live Delivery
and how the run ends; the main theorem is that `processDelivery` does just
that.
-/

namespace WebhookBroadcast

open Interaction Timeline

/-! ## Scripts -/

/-- How each statement of a run fails, if it does. -/
structure RunFaults where
  read : Option Fault := none
  claim : Option Fault := none
  reread : Option Fault := none
  complete : Option Fault := none
  reset : Option Fault := none
  enablement : Option Fault := none
  lastSuccess : Option Fault := none
  streakStart : Option Fault := none
  stamp : Option Fault := none
deriving DecidableEq

namespace RunFaults

/-- The fault of one call. -/
def of (faults : RunFaults) : Call → Option Fault
  | .query (.getDeliveryForProcessing _) => faults.read
  | .query (.claimPendingDelivery _ _) => faults.claim
  | .query (.selectDeliveryStatus _) => faults.reread
  | .query (.completeDelivery _) => faults.complete
  | .query (.resetInProgressDeliveryToPending _ _) => faults.reset
  | .query (.selectEndpointEnablement _) => faults.enablement
  | .query (.selectLastSuccess _) => faults.lastSuccess
  | .query (.selectStreakStart _ _) => faults.streakStart
  | .query (.stampAutoDisabled _ _) => faults.stamp
  | _ => none

/-- The statements of `maybeAutoDisableEndpoint` succeed. -/
def SparesEndpoint (faults : RunFaults) : Prop :=
  faults.enablement = none ∧ faults.lastSuccess = none ∧
    faults.streakStart = none ∧ faults.stamp = none

instance (faults : RunFaults) : Decidable faults.SparesEndpoint :=
  inferInstanceAs (Decidable (_ ∧ _ ∧ _ ∧ _))

end RunFaults

/-- Everything that the environment decides in one run. -/
structure RunScript where
  faults : RunFaults := {}
  reply : FetchReply
  readings : ℕ → Choice := fun _ => {}

/-- The status code of a reply; none when there was no response. -/
def FetchReply.statusCode : FetchReply → Option ℕ
  | response status _ => some status
  | failure _ _ => none

namespace RunScript

/-- The handler of a scripted run. -/
def perform (s : RunScript) : Handler Effects Choice World := fun x c w =>
  WebhookBroadcast.perform
    { x with fault := s.faults.of c, reply := s.reply } c w

/-- The scripted run of a Delivery. -/
def run (s : RunScript) (dateParse : String → Option Instant)
    (deps : ProcessDeliveryDeps) (deliveryId : Uuid) (w : World) :
    Except Thrown Unit × World :=
  (processDelivery dateParse deps deliveryId).eval s.perform s.readings 0 w

end RunScript

/-! ## The effect of a script -/

/-- The status that an outcome leads to when it is the `n`-th Attempt. -/
def resultingStatus (maxAttempts n : ℕ) (statusCode : Option ℕ) :
    DeliveryStatus :=
  if isSuccess statusCode then .succeeded
  else if !isRetryableOutcome statusCode then .failed
  else if maxAttempts ≤ n then .deadLettered
  else .pending

theorem resultingStatus_ne_inProgress (maxAttempts n : ℕ)
    (statusCode : Option ℕ) :
    resultingStatus maxAttempts n statusCode ≠ .inProgress := by
  unfold resultingStatus
  split
  · simp
  · split
    · simp
    · split <;> simp

theorem resultingStatus_of_not_terminal {maxAttempts n : ℕ}
    {statusCode : Option ℕ}
    (h : ¬ (resultingStatus maxAttempts n statusCode).Terminal) :
    resultingStatus maxAttempts n statusCode = .pending := by
  unfold resultingStatus at h ⊢
  split at h
  · exact absurd (Or.inl rfl) h
  · split at h
    · exact absurd (Or.inr (Or.inl rfl)) h
    · split at h
      · exact absurd (Or.inr (Or.inr rfl)) h
      next hsuccess hretryable hexhausted =>
        simp [hsuccess, hretryable, hexhausted]

/-- An outcome after which the Delivery is terminal: no use in retrying it, or
no Attempt left. -/
def FinalOutcome (maxAttempts n : ℕ) (statusCode : Option ℕ) : Prop :=
  isRetryableOutcome statusCode = false ∨ maxAttempts ≤ n

instance (maxAttempts n : ℕ) (statusCode : Option ℕ) :
    Decidable (FinalOutcome maxAttempts n statusCode) :=
  inferInstanceAs (Decidable (_ ∨ _))

theorem not_retryable_of_isSuccess {statusCode : Option ℕ}
    (h : isSuccess statusCode) : isRetryableOutcome statusCode = false := by
  cases statusCode with
  | none => cases h
  | some code =>
      simp only [isSuccess, Bool.and_eq_true, decide_eq_true_eq] at h
      have hcodes : ¬ (code = 408 ∨ code = 429) := by omega
      have hserver : ¬ 500 ≤ code := by omega
      simp [isRetryableOutcome, hcodes, hserver]

theorem resultingStatus_terminal_iff {maxAttempts n : ℕ}
    {statusCode : Option ℕ} :
    (resultingStatus maxAttempts n statusCode).Terminal ↔
      FinalOutcome maxAttempts n statusCode := by
  unfold resultingStatus FinalOutcome
  by_cases hsuccess : isSuccess statusCode
  · simp [hsuccess, not_retryable_of_isSuccess hsuccess,
      DeliveryStatus.terminal_iff_not_live]
  · by_cases hretryable : isRetryableOutcome statusCode
    · by_cases hexhausted : maxAttempts ≤ n
      · simp [hsuccess, hretryable, hexhausted,
          DeliveryStatus.terminal_iff_not_live]
      · simp [hsuccess, hretryable, hexhausted,
          DeliveryStatus.terminal_iff_not_live]
    · simp [hsuccess, hretryable, DeliveryStatus.terminal_iff_not_live]

/-- How a run ends: its Delivery is terminal, and it resolves unless disabling
the Endpoint failed; it asks for another run; or it throws the error of a
statement that nobody caught. -/
inductive Verdict where
  | settled
  | retry
  | unhandled
deriving DecidableEq

def Verdict.Matches (faults : RunFaults) (capMs : ℕ) :
    Verdict → Except Thrown Unit → Prop
  | settled, r => r = .ok () ∨
      ¬ faults.SparesEndpoint ∧ ∃ e, r = .error (.database e)
  | retry, r => AsksForRetry capMs r
  | unhandled, r => ∃ e, r = .error (.database e)

theorem Verdict.Matches.settled_of_ok {faults : RunFaults} {capMs : ℕ}
    {verdict : Verdict} {r : Except Thrown Unit}
    (h : verdict.Matches faults capMs r) (hr : r = .ok ()) :
    verdict = .settled := by
  subst hr
  cases verdict with
  | settled => rfl
  | retry =>
      obtain ⟨n, delayMs, h, _⟩ := h
      cases h
  | unhandled =>
      obtain ⟨e, h⟩ := h
      cases h

def Timeline.claimed (t : Timeline) : Timeline :=
  if t.status = .pending then ⟨.inProgress, t.outcomes⟩ else t

def Timeline.released (t : Timeline) : Timeline :=
  if t.status = .inProgress then ⟨.pending, t.outcomes⟩ else t

namespace RunScript

/-- After an outcome that could not be persisted. -/
def effectOfRelease (s : RunScript) (t : Timeline) : Timeline × Verdict :=
  match s.faults.reset with
  | none => (t.released, .retry)
  | some fault => (if fault.applied then t.released else t, .unhandled)

/-- After an Attempt with outcome `o`. -/
def effectOfAttempt (s : RunScript) (maxAttempts : ℕ) (t : Timeline)
    (o : Outcome) : Timeline × Verdict :=
  let status :=
    resultingStatus maxAttempts (t.outcomes.length + 1) o.statusCode
  let recorded : Timeline := ⟨status, t.outcomes ++ [o]⟩
  match s.faults.complete with
  | none => (recorded, if status.Terminal then .settled else .retry)
  | some fault => s.effectOfRelease (if fault.applied then recorded else t)

/-- After a read that found the Delivery live. -/
def effectOfClaim (s : RunScript) (maxAttempts : ℕ) (t : Timeline)
    (o : Outcome) : Timeline × Verdict :=
  match s.faults.claim with
  | some fault => (if fault.applied then t.claimed else t, .unhandled)
  | none =>
      if t.status = .inProgress ∧ s.faults.reread ≠ none then (t, .unhandled)
      else s.effectOfAttempt maxAttempts t.claimed o

/-- What a run does to the timeline of a live Delivery. -/
def effect (s : RunScript) (maxAttempts : ℕ) (t : Timeline) (o : Outcome) :
    Timeline × Verdict :=
  match s.faults.read with
  | some _ => (t, .unhandled)
  | none => s.effectOfClaim maxAttempts t o

theorem effectOfRelease_ne_settled (s : RunScript) (t : Timeline) :
    (s.effectOfRelease t).2 ≠ .settled := by
  unfold effectOfRelease
  split <;> simp

/-- Only a run that has recorded a terminal status settles. -/
theorem terminal_of_effect_settled (s : RunScript) {maxAttempts : ℕ}
    {t : Timeline} {o : Outcome} (h : (s.effect maxAttempts t o).2 = .settled) :
    (s.effect maxAttempts t o).1.status.Terminal := by
  have hattempt (u : Timeline)
      (h : (s.effectOfAttempt maxAttempts u o).2 = .settled) :
      (s.effectOfAttempt maxAttempts u o).1.status.Terminal := by
    unfold effectOfAttempt at h ⊢
    cases hcomplete : s.faults.complete with
    | none =>
        simp only [hcomplete] at h ⊢
        by_contra hnot
        simp [hnot] at h
    | some fault =>
        simp only [hcomplete] at h
        exact absurd h (s.effectOfRelease_ne_settled _)
  unfold effect effectOfClaim at h ⊢
  split at h
  · cases h
  split at h
  · cases h
  split at h
  · cases h
  next hreread =>
    simp only [if_neg hreread]
    exact hattempt _ h

end RunScript

/-- The outcome is one that the reply can lead to: it has its status code, and
an error exactly when there is none. -/
structure Outcome.Reports (o : Outcome) (reply : FetchReply) : Prop where
  statusCode_eq : o.statusCode = reply.statusCode
  exclusive : o.statusCode.isSome = o.error.isNone

theorem exists_reports (reply : FetchReply) :
    ∃ o : Outcome, o.Reports reply := by
  cases reply with
  | response status retryAfter => exact ⟨⟨some status, 0, none, 0⟩, rfl, rfl⟩
  | failure aborted message => exact ⟨⟨none, 0, some message, 0⟩, rfl, rfl⟩

/-! ## Rules -/

/-- The database holds this timeline of the Delivery, and holds it well. -/
structure World.HasTimeline (w : World) (d : Uuid) (t : Timeline) : Prop where
  consistent : w.db.Consistent d
  timeline : w.db.timeline? d = some t

theorem World.exists_timeline {w : World} {d : Uuid} {row : DeliveryRow}
    (hw : w.db.Consistent d) (hrow : w.db.delivery? d = some row) :
    ∃ t, w.HasTimeline d t ∧ t.status = row.status ∧
      t.outcomes.length = row.attemptCount := by
  refine ⟨_, ⟨hw, Database.timeline?_eq_some hrow⟩, rfl, ?_⟩
  simpa using (hw row hrow).length_eq

namespace World.HasTimeline

variable {w : World} {d : Uuid} {t : Timeline}

theorem exists_row (h : w.HasTimeline d t) :
    ∃ row, w.db.delivery? d = some row ∧ row.status = t.status ∧
      row.attemptCount = t.outcomes.length := by
  obtain ⟨row, hrow, rfl⟩ := Database.exists_of_timeline? h.timeline
  refine ⟨row, hrow, rfl, ?_⟩
  simpa using (h.consistent row hrow).length_eq.symm

theorem attemptLog (h : w.HasTimeline d t) :
    (w.db.attemptLog d).map AttemptRow.n =
        List.range' 1 t.outcomes.length ∧
      (w.db.attemptLog d).map AttemptRow.outcome = t.outcomes := by
  obtain ⟨row, hrow, rfl⟩ := Database.exists_of_timeline? h.timeline
  have hsum := h.consistent row hrow
  refine ⟨?_, rfl⟩
  rw [hsum.numbers, DeliveryRow.timeline_outcomes, List.length_map,
    hsum.length_eq]

theorem selectDeliveryStatus (h : w.HasTimeline d t) :
    WebhookBroadcast.selectDeliveryStatus w.db d = some t.status := by
  obtain ⟨row, hrow, hstatus, _⟩ := h.exists_row
  rw [WebhookBroadcast.selectDeliveryStatus, hrow, Option.map_some, hstatus]

theorem getDeliveryForProcessing (h : w.HasTimeline d t) :
    ∃ record, WebhookBroadcast.getDeliveryForProcessing w.db d =
      some record ∧ record.status = t.status ∧
      record.attemptCount = t.outcomes.length := by
  obtain ⟨row, hrow, hstatus, hcount⟩ := h.exists_row
  obtain ⟨record, hrecord, _, _, hrecordStatus, hrecordCount⟩ :=
    getDeliveryForProcessing_of_row hrow
  exact ⟨record, hrecord, hrecordStatus.trans hstatus,
    hrecordCount.trans hcount⟩

theorem moveStatus (h : w.HasTimeline d t) (old new : DeliveryStatus)
    (updatedAt : Instant) :
    World.HasTimeline
      { w with db := (moveStatus old new w.db d updatedAt).2 } d
      (if t.status = old then ⟨new, t.outcomes⟩ else t) where
  consistent := h.consistent.moveStatus
  timeline := by
    rw [timeline?_moveStatus_self, h.timeline, Option.map_some]

theorem moveStatus_result (h : w.HasTimeline d t) (old new : DeliveryStatus)
    (updatedAt : Instant) :
    (WebhookBroadcast.moveStatus old new w.db d updatedAt).1 =
      decide (t.status = old) := by
  obtain ⟨row, hrow, hstatus, _⟩ := h.exists_row
  rw [Bool.eq_iff_iff, decide_eq_true_eq, moveStatus_result_iff, ← hstatus]
  simp [hrow]

theorem completeDelivery (h : w.HasTimeline d t)
    {input : CompleteDeliveryInput} (hid : input.deliveryId = d)
    (hn : input.n = t.outcomes.length + 1) :
    (WebhookBroadcast.completeDelivery w.db input).1 = .ok () ∧
      World.HasTimeline
        { w with db := (WebhookBroadcast.completeDelivery w.db input).2 } d
        ⟨input.status, t.outcomes ++ [input.attempt.outcome]⟩ := by
  subst hid
  obtain ⟨row, hrow, _, hcount⟩ := h.exists_row
  have hsum := h.consistent row hrow
  have hrec : Recordable w.db input := by
    refine ⟨by rw [hrow]; rfl, ?_⟩
    rw [hsum.number_free_iff (by omega)]
    omega
  refine ⟨completeDelivery_result_of_recordable hrec, ?_, ?_⟩
  · intro row' hrow'
    rw [delivery?_completeDelivery_self hrec, hrow] at hrow'
    cases hrow'
    rw [attemptLog_completeDelivery_self hrec]
    exact hsum.complete (by omega)
  · rw [timeline?_completeDelivery_self hrec hrow, h.attemptLog.2]

theorem frame (h : w.HasTimeline d t) {c : Call} (hc : c.writes ≠ some d)
    (x : Choice) : (WebhookBroadcast.perform x c w).2.HasTimeline d t := by
  obtain ⟨hrow, hlog⟩ := perform_frame hc x w
  exact ⟨h.consistent.congr hrow hlog,
    (Database.timeline?_congr hrow hlog).trans h.timeline⟩

end World.HasTimeline

section Rules

variable {s : RunScript} {α : Type} {q : Query} {w : World}
  {post : Except Thrown α → World → Prop}

theorem always_tryQuery_of_none {f : Except DbError q.Result → Action α}
    (hfault : s.faults.of (.query q) = none)
    (hf : (f (q.run w.db).1).Always s.perform post
      { w with db := (q.run w.db).2 }) :
    (tryQuery q >>= f).Always s.perform post w := by
  intro x
  rw [RunScript.perform, hfault, perform_query_of_none rfl]
  exact hf

theorem always_tryQuery_of_some {fault : Fault}
    {f : Except DbError q.Result → Action α}
    (hfault : s.faults.of (.query q) = some fault)
    (hf : (f (.error (.unavailable fault.message))).Always s.perform post
      (if fault.applied then { w with db := (q.run w.db).2 } else w)) :
    (tryQuery q >>= f).Always s.perform post w := by
  intro x
  rw [RunScript.perform, hfault, perform_query_of_some rfl]
  exact hf

theorem always_query_of_none {f : q.Result → Action α} {result : q.Result}
    (hfault : s.faults.of (.query q) = none)
    (hresult : (q.run w.db).1 = .ok result)
    (hf : (f result).Always s.perform post
      { w with db := (q.run w.db).2 }) :
    (query q >>= f).Always s.perform post w := by
  intro x
  rw [RunScript.perform, hfault, perform_query_of_none rfl, hresult]
  exact hf

theorem always_query_of_some {fault : Fault} {f : q.Result → Action α}
    (hfault : s.faults.of (.query q) = some fault)
    (hpost : ∀ e, post (.error (.database e))
      (if fault.applied then { w with db := (q.run w.db).2 } else w)) :
    (query q >>= f).Always s.perform post w := by
  intro x
  rw [RunScript.perform, hfault, perform_query_of_some rfl]
  exact hpost _

/-- A program that writes other things than the Delivery keeps its timeline. -/
theorem always_of_makesOnly {kind : Call → Prop}
    (hkind : ∀ c, kind c → c.writes = none) {p : Action α}
    (hp : MakesOnly kind p) {ends : Except Thrown α → Prop}
    (hends : p.EveryEnd ends) {d : Uuid} {t : Timeline}
    (hw : w.HasTimeline d t) :
    p.Always s.perform (fun r w' => ends r ∧ w'.HasTimeline d t) w := by
  refine Program.Always.of_everyCall ?_ hends hw
  refine Program.EveryCall.mono (fun c k hc x w' hw' => ?_) hp
  apply hw'.frame
  rw [hkind c hc]
  exact (Option.some_ne_none d).symm

end Rules

/-! ## The functions of the worker -/

/-- The run has ended with this effect on the Delivery. -/
def EndsWith (s : RunScript) (capMs : ℕ) (d : Uuid) (e : Timeline × Verdict)
    (r : Except Thrown Unit) (w : World) : Prop :=
  w.HasTimeline d e.1 ∧ e.2.Matches s.faults capMs r

section Functions

variable {s : RunScript} {d : Uuid} {t : Timeline} {w : World}
  {deps : ProcessDeliveryDeps}

/-- One statement of `maybeAutoDisableEndpoint`. -/
theorem always_endpointQuery {α : Type} {q : Query} {f : q.Result → Action α}
    (hq : (Call.query q).OnEndpoint) (hw : w.HasTimeline d t)
    (hresult : ∀ db, ∃ result, (q.run db).1 = .ok result)
    (hspares : s.faults.of (.query q) ≠ none → ¬ s.faults.SparesEndpoint)
    (hf : ∀ result w', w'.HasTimeline d t →
      (f result).Always s.perform (fun r w' => w'.HasTimeline d t ∧
        ((∃ a, r = .ok a) ∨ ¬ s.faults.SparesEndpoint ∧
          ∃ e, r = .error (.database e))) w') :
    (query q >>= f).Always s.perform (fun r w' => w'.HasTimeline d t ∧
      ((∃ a, r = .ok a) ∨ ¬ s.faults.SparesEndpoint ∧
        ∃ e, r = .error (.database e))) w := by
  have hrun : World.HasTimeline { w with db := (q.run w.db).2 } d t := by
    have hquiet : q.writes ≠ some d := by
      rw [show q.writes = none from writes_of_onEndpoint hq]
      exact (Option.some_ne_none d).symm
    obtain ⟨hrow, hlog⟩ := Query.run_frame hquiet w.db
    exact ⟨hw.consistent.congr hrow hlog,
      (Database.timeline?_congr hrow hlog).trans hw.timeline⟩
  obtain ⟨result, hok⟩ := hresult w.db
  cases hfault : s.faults.of (.query q) with
  | none => exact always_query_of_none hfault hok (hf result _ hrun)
  | some fault =>
      apply always_query_of_some hfault
      intro e
      refine ⟨?_, Or.inr ⟨hspares (by simp [hfault]), e, rfl⟩⟩
      split
      · exact hrun
      · exact hw

theorem maybeAutoDisableEndpoint_alone (endpointId : Uuid)
    (autoDisableAfterMs : ℕ) (now : Instant) (hw : w.HasTimeline d t) :
    (maybeAutoDisableEndpoint endpointId autoDisableAfterMs now).Always
      s.perform (fun r w' => w'.HasTimeline d t ∧
        ((∃ a, r = .ok a) ∨ ¬ s.faults.SparesEndpoint ∧
          ∃ e, r = .error (.database e))) w := by
  have hdone (b : Bool) (w' : World) (hw' : w'.HasTimeline d t) :
      (Program.done b : Action Bool).Always s.perform
        (fun r w' => w'.HasTimeline d t ∧ ((∃ a, r = .ok a) ∨
          ¬ s.faults.SparesEndpoint ∧ ∃ e, r = .error (.database e))) w' :=
    ⟨hw', Or.inl ⟨b, rfl⟩⟩
  refine always_endpointQuery trivial hw (fun db => ⟨_, rfl⟩)
    (fun h hspares => h hspares.1) ?_
  intro endpoint w₁ hw₁
  cases endpoint with
  | none => exact hdone false w₁ hw₁
  | some endpoint =>
      dsimp only
      split
      · exact hdone false w₁ hw₁
      · refine always_endpointQuery trivial hw₁ (fun db => ⟨_, rfl⟩)
          (fun h hspares => h hspares.2.1) ?_
        intro lastSuccess w₂ hw₂
        refine always_endpointQuery trivial hw₂ (fun db => ⟨_, rfl⟩)
          (fun h hspares => h hspares.2.2.1) ?_
        intro streakStart w₃ hw₃
        cases streakStart with
        | none => exact hdone false w₃ hw₃
        | some start =>
            dsimp only
            split
            · exact hdone false w₃ hw₃
            · rw [← Program.bind_done (query _)]
              exact always_endpointQuery trivial hw₃ (fun db => ⟨_, rfl⟩)
                (fun h hspares => h hspares.2.2.2) hdone

theorem releaseClaim_alone {n : ℕ} {at_ : Instant} {dbErr : DbError}
    (hw : w.HasTimeline d t) (f : Unit → Action Unit) :
    (releaseClaim deps d n at_ dbErr >>= f).Always s.perform
      (EndsWith s deps.backoffMaxMs d (s.effectOfRelease t)) w := by
  have hreset : World.HasTimeline
      { w with db :=
        (resetInProgressDeliveryToPending w.db d at_).2 } d t.released :=
    hw.moveStatus .inProgress .pending at_
  have hretries := retries_notPersisted deps d n dbErr f
  unfold releaseClaim
  rw [Program.bind_assoc]
  let q : Query := .resetInProgressDeliveryToPending d at_
  cases hfault : s.faults.reset with
  | none =>
      have heffect : s.effectOfRelease t = (t.released, .retry) := by
        simp [RunScript.effectOfRelease, hfault]
      rw [heffect]
      apply always_query_of_none (show s.faults.of (.query q) = none
        from hfault) rfl
      exact (always_of_makesOnly (fun c hc => by rw [hc]; rfl)
        hretries.calls hretries.ends hreset).consequence
          fun r w' h => ⟨h.2, h.1⟩
  | some fault =>
      apply always_query_of_some (show s.faults.of (.query q) = some fault
        from hfault)
      intro e
      constructor
      · simp only [RunScript.effectOfRelease, hfault]
        by_cases happlied : fault.applied
        · rw [if_pos happlied, if_pos happlied]
          exact hreset
        · rw [if_neg happlied, if_neg happlied]
          exact hw
      · simp only [RunScript.effectOfRelease, hfault]
        exact ⟨e, rfl⟩

theorem finishAttempt_alone {attempt : HttpAttempt} {at_ : Instant}
    {status : DeliveryStatus} {o : Outcome} {f : Unit → Action Unit}
    (hw : w.HasTimeline d t)
    (ho : o = (completionInput d (t.outcomes.length + 1) attempt at_
      status).attempt.outcome)
    (hstatus : resultingStatus deps.maxAttempts (t.outcomes.length + 1)
      o.statusCode = status)
    (hf : ∀ w', w'.HasTimeline d ⟨status, t.outcomes ++ [o]⟩ →
      (f ()).Always s.perform (EndsWith s deps.backoffMaxMs d
        (⟨status, t.outcomes ++ [o]⟩,
          if status.Terminal then .settled else .retry)) w') :
    (finishAttempt deps d (t.outcomes.length + 1) attempt at_ status
        >>= f).Always s.perform
      (EndsWith s deps.backoffMaxMs d
        (s.effectOfAttempt deps.maxAttempts t o)) w := by
  let input := completionInput d (t.outcomes.length + 1) attempt at_ status
  obtain ⟨hok, hrecorded⟩ :=
    hw.completeDelivery (show input.deliveryId = d from rfl) rfl
  have hrecorded' : World.HasTimeline
      { w with db := (completeDelivery w.db input).2 } d
      ⟨status, t.outcomes ++ [o]⟩ := by
    rw [ho]
    exact hrecorded
  unfold finishAttempt
  rw [Program.bind_assoc]
  cases hfault : s.faults.complete with
  | none =>
      have heffect : s.effectOfAttempt deps.maxAttempts t o =
          (⟨status, t.outcomes ++ [o]⟩,
            if status.Terminal then .settled else .retry) := by
        simp only [RunScript.effectOfAttempt, hfault, hstatus]
      rw [heffect]
      apply always_tryQuery_of_none (show s.faults.of
        (.query (.completeDelivery input)) = none from hfault)
      simp only [Query.run, hok]
      exact hf _ hrecorded'
  | some fault =>
      have heffect : s.effectOfAttempt deps.maxAttempts t o =
          s.effectOfRelease (if fault.applied then
            ⟨status, t.outcomes ++ [o]⟩ else t) := by
        simp only [RunScript.effectOfAttempt, hfault, hstatus]
      rw [heffect]
      apply always_tryQuery_of_some (show s.faults.of
        (.query (.completeDelivery input)) = some fault from hfault)
      apply releaseClaim_alone
      split
      · exact hrecorded'
      · exact hw

theorem disableAfter_alone {endpointId : Uuid} {autoDisableAfterMs : ℕ}
    {now : Instant} {capMs : ℕ} (hw : w.HasTimeline d t) :
    (do
      let _ ← maybeAutoDisableEndpoint endpointId autoDisableAfterMs now
      return ()).Always s.perform (EndsWith s capMs d (t, .settled)) w := by
  refine Program.Always.bind ?_ ?_
    (maybeAutoDisableEndpoint_alone endpointId autoDisableAfterMs now hw)
  · exact fun disabled w' h => ⟨h.1, Or.inl rfl⟩
  · rintro e w' ⟨hw', ⟨a, ha⟩ | ⟨hspares, e', he'⟩⟩
    · cases ha
    · cases he'
      exact ⟨hw', Or.inr ⟨hspares, e', rfl⟩⟩

theorem settleAttempt_alone {record : DeliveryForProcessing}
    {attempt : HttpAttempt} {at_ : Instant} (hw : w.HasTimeline d t)
    (hattempt : attempt.Observed) :
    (settleAttempt deps record d (t.outcomes.length + 1) attempt at_).Always
      s.perform (fun r w' => ∃ o : Outcome,
        o.statusCode = attempt.statusCode ∧
        o.statusCode.isSome = o.error.isNone ∧
        EndsWith s deps.backoffMaxMs d
          (s.effectOfAttempt deps.maxAttempts t o) r w') w := by
  set n := t.outcomes.length + 1 with hn
  let outcome (status : DeliveryStatus) : Outcome :=
    (completionInput d n attempt at_ status).attempt.outcome
  have hexists {p : Action Unit} (status : DeliveryStatus)
      (hexclusive : attempt.statusCode.isSome =
        (outcome status).error.isNone)
      (hp : p.Always s.perform (EndsWith s deps.backoffMaxMs d
        (s.effectOfAttempt deps.maxAttempts t (outcome status))) w) :
      p.Always s.perform (fun r w' => ∃ o : Outcome,
        o.statusCode = attempt.statusCode ∧
        o.statusCode.isSome = o.error.isNone ∧
        EndsWith s deps.backoffMaxMs d
          (s.effectOfAttempt deps.maxAttempts t o) r w') w :=
    hp.consequence fun r w' h => ⟨outcome status, rfl, hexclusive, h⟩
  have hstatus (status : DeliveryStatus)
      (h : resultingStatus deps.maxAttempts n attempt.statusCode = status) :
      resultingStatus deps.maxAttempts n (outcome status).statusCode =
        status := h
  unfold settleAttempt
  by_cases hsuccess : isSuccess attempt.statusCode
  · rw [if_pos hsuccess, ← Program.bind_done (finishAttempt _ _ _ _ _ _)]
    apply hexists .succeeded
    · cases hcode : attempt.statusCode with
      | none => simp [hcode, isSuccess] at hsuccess
      | some code => rfl
    · apply finishAttempt_alone hw rfl (hstatus _ ?_)
      · exact fun w' hw' => ⟨hw', Or.inl rfl⟩
      · simp [resultingStatus, hsuccess]
  · rw [if_neg hsuccess]
    by_cases hretryable : isRetryableOutcome attempt.statusCode
    · rw [if_neg (by simp [hretryable])]
      by_cases hexhausted : deps.maxAttempts ≤ n
      · rw [if_pos hexhausted]
        apply hexists .deadLettered hattempt.exclusive
        apply finishAttempt_alone hw rfl (hstatus _ ?_)
        · exact fun w' hw' => disableAfter_alone hw'
        · simp [resultingStatus, hsuccess, hretryable, hexhausted]
      · rw [if_neg hexhausted]
        apply hexists .pending hattempt.exclusive
        apply finishAttempt_alone hw rfl (hstatus _ ?_)
        · intro w' hw'
          have hretries := retries_attemptFailed deps d n hattempt
          exact (always_of_makesOnly (fun c hc => by rw [hc]; rfl)
            hretries.calls hretries.ends hw').consequence
              fun r w'' h => ⟨h.2, h.1⟩
        · simp [resultingStatus, hsuccess, hretryable, hexhausted]
    · rw [if_pos (by simp [hretryable])]
      apply hexists .failed hattempt.exclusive
      apply finishAttempt_alone hw rfl (hstatus _ ?_)
      · exact fun w' hw' => disableAfter_alone hw'
      · simp [resultingStatus, hsuccess, hretryable]

/-- Dialing observes the reply of the script. -/
theorem dialEndpoint_alone {dateParse : String → Option Instant}
    {record : DeliveryForProcessing} (hw : w.HasTimeline d t) :
    (dialEndpoint dateParse deps record).Always s.perform
      (fun r w' => w'.HasTimeline d t ∧ ∃ attempt, r = .ok attempt ∧
        attempt.Observed ∧ attempt.statusCode = s.reply.statusCode) w := by
  intro x y
  simp only [RunScript.perform, perform]
  cases hreply : s.reply with
  | failure aborted message =>
      intro z
      exact ⟨hw, _, rfl, ⟨rfl, fun ms h => by cases h⟩, rfl⟩
  | response status retryAfter =>
      change (readRetryAfterMs dateParse status retryAfter >>= _).Always _ _ _
      refine Program.Always.bind ?_ ?_ (always_of_makesOnly
        (fun _ => writes_of_dials)
        (MakesOnly.readRetryAfterMs dateParse status retryAfter)
        (readRetryAfterMs_nonneg dateParse status retryAfter) hw)
      · rintro retryAfterMs w' ⟨⟨_, hok, hms⟩, hw'⟩ _ _
        cases hok
        exact ⟨hw', _, rfl, ⟨rfl, hms⟩, rfl⟩
      · rintro e w' ⟨⟨_, herror, _⟩, _⟩
        cases herror

/-- Claiming a live Delivery.  What follows a claim that was refused does not
matter: alone, it is not. -/
theorem markDeliveryInProgress_alone {claimedAt : Instant} {maxAttempts : ℕ}
    {f : Bool → Action Unit} {capMs : ℕ} (hw : w.HasTimeline d t)
    (hlive : t.status.Live)
    (hf : ∀ w', w'.HasTimeline d t.claimed →
      (f true).Always s.perform (fun r w' => ∃ o : Outcome,
        o.Reports s.reply ∧ EndsWith s capMs d
          (s.effectOfAttempt maxAttempts t.claimed o) r w') w') :
    (markDeliveryInProgress d claimedAt >>= f).Always s.perform
      (fun r w' => ∃ o : Outcome, o.Reports s.reply ∧
        EndsWith s capMs d (s.effectOfClaim maxAttempts t o) r w') w := by
  let claim : Query := .claimPendingDelivery d claimedAt
  obtain ⟨o, ho⟩ := exists_reports s.reply
  have hclaim : World.HasTimeline
      { w with db := (claimPendingDelivery w.db d claimedAt).2 } d t.claimed :=
    hw.moveStatus .pending .inProgress claimedAt
  have hresult : (claimPendingDelivery w.db d claimedAt).1 =
      decide (t.status = .pending) := hw.moveStatus_result _ _ _
  unfold markDeliveryInProgress
  rw [Program.bind_assoc]
  cases hfault : s.faults.claim with
  | some fault =>
      apply always_query_of_some (show s.faults.of (.query claim) = some fault
        from hfault)
      intro e
      refine ⟨o, ho, ?_⟩
      simp only [RunScript.effectOfClaim, hfault]
      refine ⟨?_, e, rfl⟩
      by_cases happlied : fault.applied
      · rw [if_pos happlied, if_pos happlied]
        exact hclaim
      · rw [if_neg happlied, if_neg happlied]
        exact hw
  | none =>
      apply always_query_of_none (show s.faults.of (.query claim) = none
        from hfault) (congrArg Except.ok hresult)
      rcases hlive with hpending | hprogress
      · have heffect (o : Outcome) : s.effectOfClaim maxAttempts t o =
            s.effectOfAttempt maxAttempts t.claimed o := by
          simp [RunScript.effectOfClaim, hfault, hpending]
        simp only [hpending, decide_true, heffect]
        exact hf _ hclaim
      · have hclaimed : t.claimed = t := by
          simp [Timeline.claimed, hprogress]
        let reread : Query := .selectDeliveryStatus d
        simp only [hprogress, reduceCtorEq, decide_false, Bool.false_eq_true,
          if_false, Program.bind_assoc]
        rw [hclaimed] at hclaim hf
        have hstatus := hclaim.selectDeliveryStatus
        rw [hprogress] at hstatus
        cases hreread : s.faults.reread with
        | some fault =>
            apply always_query_of_some (show s.faults.of (.query reread) =
              some fault from hreread)
            intro e
            refine ⟨o, ho, ?_⟩
            simp only [RunScript.effectOfClaim, hfault, hprogress, hreread,
              ne_eq, reduceCtorEq, not_false_eq_true, and_self, if_true]
            refine ⟨?_, e, rfl⟩
            split
            · exact hclaim
            · exact hclaim
        | none =>
            have heffect (o : Outcome) : s.effectOfClaim maxAttempts t o =
                s.effectOfAttempt maxAttempts t o := by
              simp [RunScript.effectOfClaim, hfault, hreread, hclaimed]
            apply always_query_of_none (show s.faults.of (.query reread) =
              none from hreread) (congrArg Except.ok hstatus)
            simp only [heffect]
            exact hf _ hclaim

/-- What `processDelivery` does when it runs alone on a live Delivery. -/
theorem processDelivery_alone {dateParse : String → Option Instant}
    (hw : w.HasTimeline d t) (hlive : t.status.Live) :
    (processDelivery dateParse deps d).Always s.perform
      (fun r w' => ∃ o : Outcome, o.Reports s.reply ∧
        EndsWith s deps.backoffMaxMs d (s.effect deps.maxAttempts t o) r w')
      w := by
  let read : Query := .getDeliveryForProcessing d
  obtain ⟨record, hrecord, hstatus, hcount⟩ := hw.getDeliveryForProcessing
  have hguard : ¬ (record.status ≠ .pending ∧
      record.status ≠ .inProgress) := by
    rintro ⟨hpending, hprogress⟩
    rcases hlive with h | h
    · exact hpending (hstatus.trans h)
    · exact hprogress (hstatus.trans h)
  cases hread : s.faults.read with
  | some fault =>
      apply always_query_of_some (show s.faults.of (.query read) = some fault
        from hread)
      intro e
      obtain ⟨o, ho⟩ := exists_reports s.reply
      refine ⟨o, ho, ?_⟩
      simp only [RunScript.effect, hread]
      refine ⟨?_, e, rfl⟩
      split
      · exact hw
      · exact hw
  | none =>
      have heffect (o : Outcome) : s.effect deps.maxAttempts t o =
          s.effectOfClaim deps.maxAttempts t o := by
        simp only [RunScript.effect, hread]
      simp only [heffect]
      apply always_query_of_none (show s.faults.of (.query read) = none
        from hread) (congrArg Except.ok hrecord)
      simp only [if_neg hguard]
      intro x
      apply markDeliveryInProgress_alone hw hlive
      intro w₁ hw₁
      have hlength : t.outcomes = t.claimed.outcomes := by
        unfold Timeline.claimed
        split <;> rfl
      refine Program.Always.bind ?_ ?_ (dialEndpoint_alone hw₁)
      · rintro attempt w₂ ⟨hw₂, _, hok, hobserved, hcode⟩
        cases hok
        intro y
        rw [hcount, hlength]
        refine (settleAttempt_alone hw₂ hobserved).consequence ?_
        rintro r w₃ ⟨o, ho, hexclusive, hends⟩
        exact ⟨o, ⟨ho.trans hcode, hexclusive⟩, hends⟩
      · rintro e w₂ ⟨_, _, herror, _⟩
        cases herror

/-- The run of a script on a live Delivery. -/
theorem run_live {dateParse : String → Option Instant}
    (hw : w.HasTimeline d t) (hlive : t.status.Live) :
    ∃ o : Outcome, o.Reports s.reply ∧
      EndsWith s deps.backoffMaxMs d (s.effect deps.maxAttempts t o)
        (s.run dateParse deps d w).1 (s.run dateParse deps d w).2 :=
  (processDelivery_alone hw hlive).eval

/-- What `processDelivery` does when it runs alone on a settled Delivery. -/
theorem processDelivery_alone_settled {dateParse : String → Option Instant}
    (hw : Settled (w.db.timeline? d)) :
    (processDelivery dateParse deps d).Always s.perform
      (fun r w' => w'.db = w.db ∧ (s.faults.read = none → r = .ok ())) w := by
  let read : Query := .getDeliveryForProcessing d
  cases hread : s.faults.read with
  | some fault =>
      apply always_query_of_some (show s.faults.of (.query read) = some fault
        from hread)
      intro e
      refine ⟨?_, fun h => by cases h⟩
      split <;> rfl
  | none =>
      apply always_query_of_none (show s.faults.of (.query read) = none
        from hread) rfl
      cases hrecord : getDeliveryForProcessing w.db d with
      | none => exact ⟨rfl, fun _ => rfl⟩
      | some record =>
          have hrow := Option.isSome_iff_exists.mp
            (isSome_of_getDeliveryForProcessing hrecord)
          obtain ⟨row, hrow⟩ := hrow
          obtain ⟨record', hrecord', _, _, hstatus, _⟩ :=
            getDeliveryForProcessing_of_row hrow
          rw [hrecord] at hrecord'
          cases hrecord'
          have hnot := hw _ (Database.timeline?_eq_some hrow)
          rw [DeliveryRow.timeline_status, ← hstatus] at hnot
          have hguard : record.status ≠ .pending ∧
              record.status ≠ .inProgress :=
            ⟨fun h => hnot (Or.inl h), fun h => hnot (Or.inr h)⟩
          simp only [if_pos hguard]
          exact ⟨rfl, fun _ => rfl⟩

/-- The run of a script on a settled Delivery changes nothing, and resolves if
it can read. -/
theorem run_settled {dateParse : String → Option Instant}
    (hw : Settled (w.db.timeline? d)) :
    (s.run dateParse deps d w).2.db = w.db ∧
      (s.faults.read = none → (s.run dateParse deps d w).1 = .ok ()) :=
  (processDelivery_alone_settled hw).eval

/-- A run that resolves has settled its Delivery, whatever failed in it. -/
theorem processDelivery_alone_resolves {dateParse : String → Option Instant}
    (hw : w.db.Consistent d) :
    (processDelivery dateParse deps d).Always s.perform
      (fun r w' => r = .ok () → Settled (w'.db.timeline? d)) w := by
  by_cases hsettled : Settled (w.db.timeline? d)
  · refine (processDelivery_alone_settled hsettled).consequence ?_
    rintro r w' ⟨hdb, _⟩ _
    rw [hdb]
    exact hsettled
  · simp only [Settled, not_forall, not_not] at hsettled
    obtain ⟨t, ht, hlive⟩ := hsettled
    refine (processDelivery_alone ⟨hw, ht⟩ hlive).consequence ?_
    rintro r w' ⟨o, _, hw', hmatches⟩ hok
    rw [hw'.timeline, settled_some, ← DeliveryStatus.terminal_iff_not_live]
    exact s.terminal_of_effect_settled (hmatches.settled_of_ok hok)

/-- A run that may make the last Attempt, and of which no statement fails,
settles the Delivery and resolves. -/
theorem processDelivery_alone_exhausted {dateParse : String → Option Instant}
    (hw : w.db.Consistent d)
    (hexhausted : ∀ t, w.db.timeline? d = some t → t.status.Live →
      deps.maxAttempts ≤ t.outcomes.length + 1)
    (hs : s.faults = {}) :
    (processDelivery dateParse deps d).Always s.perform
      (fun r w' => r = .ok () ∧ Settled (w'.db.timeline? d)) w := by
  by_cases hsettled : Settled (w.db.timeline? d)
  · refine (processDelivery_alone_settled hsettled).consequence ?_
    rintro r w' ⟨hdb, hok⟩
    rw [hdb]
    exact ⟨hok (by rw [hs]), hsettled⟩
  · simp only [Settled, not_forall, not_not] at hsettled
    obtain ⟨t, ht, hlive⟩ := hsettled
    refine (processDelivery_alone ⟨hw, ht⟩ hlive).consequence ?_
    rintro r w' ⟨o, _, hw', hmatches⟩
    have hlength : t.claimed.outcomes = t.outcomes := by
      unfold Timeline.claimed
      split <;> rfl
    have hfinal : (resultingStatus deps.maxAttempts (t.outcomes.length + 1)
        o.statusCode).Terminal :=
      resultingStatus_terminal_iff.mpr (Or.inr (hexhausted t ht hlive))
    have heffect : (s.effect deps.maxAttempts t o).2 = .settled := by
      simp [RunScript.effect, RunScript.effectOfClaim,
        RunScript.effectOfAttempt, hs, hlength, hfinal]
    constructor
    · rw [heffect] at hmatches
      refine hmatches.resolve_right fun h => h.1 ?_
      rw [hs]
      exact ⟨rfl, rfl, rfl, rfl⟩
    · rw [hw'.timeline, settled_some, ← DeliveryStatus.terminal_iff_not_live]
      exact s.terminal_of_effect_settled heffect

end Functions

end WebhookBroadcast
