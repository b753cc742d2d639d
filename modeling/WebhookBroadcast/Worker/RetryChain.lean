import WebhookBroadcast.Worker.Script

/-!
# Chains of runs

One run after another on the same Delivery, as a job makes them, where nothing
fails but the persisting of outcomes.  Such a chain refines the retry policy.
The job that drives it counts runs while the Delivery counts recorded Attempts;
the last section says when the Delivery is settled by the time the job is
finished.
-/

namespace WebhookBroadcast

open Interaction Timeline

/-! ## Runs whose outcome may not be persisted -/

namespace RunScript

/-- No statement but `completeDelivery` fails. -/
def OnlyPersistFails (s : RunScript) : Prop :=
  s.faults = { complete := s.faults.complete }

/-- The outcome is committed, acknowledged or not. -/
def commits (s : RunScript) : Bool :=
  match s.faults.complete with
  | none => true
  | some fault => fault.applied

/-- A failing `completeDelivery` is rolled back, and nothing else fails. -/
def RollsBack (s : RunScript) : Prop :=
  s.OnlyPersistFails ∧ (s.commits → s.faults.complete = none)

variable {s : RunScript} {maxAttempts : ℕ} {t : Timeline} {o : Outcome}

theorem effect_of_not_commits (hs : s.OnlyPersistFails)
    (ht : t.status = .pending) (hcommits : s.commits = false) :
    s.effect maxAttempts t o = (t, .retry) := by
  have hread : s.faults.read = none := by rw [hs]
  have hclaim : s.faults.claim = none := by rw [hs]
  have hreset : s.faults.reset = none := by rw [hs]
  have hreleased : t.claimed.released = t := by
    cases t
    simp only at ht
    simp [Timeline.claimed, Timeline.released, ht]
  unfold commits at hcommits
  cases hcomplete : s.faults.complete with
  | none => simp [hcomplete] at hcommits
  | some fault =>
      simp only [hcomplete] at hcommits
      simp [effect, effectOfClaim, effectOfAttempt, effectOfRelease, hread,
        hclaim, hreset, hcomplete, hcommits, ht, hreleased]

theorem effect_of_commits (hs : s.OnlyPersistFails)
    (ht : t.status = .pending) (hcommits : s.commits = true) :
    s.effect maxAttempts t o =
      (⟨resultingStatus maxAttempts (t.outcomes.length + 1) o.statusCode,
          t.outcomes ++ [o]⟩,
        if FinalOutcome maxAttempts (t.outcomes.length + 1) o.statusCode ∧
            s.faults.complete = none then .settled else .retry) := by
  have hread : s.faults.read = none := by rw [hs]
  have hclaim : s.faults.claim = none := by rw [hs]
  have hreset : s.faults.reset = none := by rw [hs]
  have hclaimed : t.claimed = ⟨.inProgress, t.outcomes⟩ := by
    simp [Timeline.claimed, ht]
  unfold commits at hcommits
  cases hcomplete : s.faults.complete with
  | none =>
      simp [effect, effectOfClaim, effectOfAttempt, hread, hclaim, hcomplete,
        ht, hclaimed, resultingStatus_terminal_iff]
  | some fault =>
      simp only [hcomplete] at hcommits
      have hstatus := resultingStatus_ne_inProgress maxAttempts
        (t.outcomes.length + 1) o.statusCode
      simp [effect, effectOfClaim, effectOfAttempt, effectOfRelease, hread,
        hclaim, hreset, hcomplete, hcommits, ht, hclaimed,
        Timeline.released, hstatus]

end RunScript

section Run

variable {s : RunScript} {d : Uuid} {t : Timeline} {w : World}
  (dateParse : String → Option Instant) (deps : ProcessDeliveryDeps)

/-- A run that does not commit asks for another and leaves no trace. -/
theorem run_of_not_commits (hs : s.OnlyPersistFails)
    (hw : w.HasTimeline d t) (ht : t.status = .pending)
    (hcommits : s.commits = false) :
    (s.run dateParse deps d w).2.HasTimeline d t ∧
      AsksForRetry deps.backoffMaxMs (s.run dateParse deps d w).1 := by
  obtain ⟨o, _, hends⟩ := @run_live s d t w deps dateParse hw (Or.inl ht)
  rw [RunScript.effect_of_not_commits hs ht hcommits] at hends
  exact hends

/-- A run that commits records its outcome.  It resolves when the outcome is
final and was acknowledged, and asks for another run otherwise. -/
theorem run_of_commits (hs : s.OnlyPersistFails)
    (hw : w.HasTimeline d t) (ht : t.status = .pending)
    (hcommits : s.commits = true) :
    ∃ o : Outcome, o.Reports s.reply ∧
      (s.run dateParse deps d w).2.HasTimeline d
        ⟨resultingStatus deps.maxAttempts (t.outcomes.length + 1)
          s.reply.statusCode, t.outcomes ++ [o]⟩ ∧
      if FinalOutcome deps.maxAttempts (t.outcomes.length + 1)
          s.reply.statusCode ∧ s.faults.complete = none then
        (s.run dateParse deps d w).1 = .ok ()
      else AsksForRetry deps.backoffMaxMs (s.run dateParse deps d w).1 := by
  obtain ⟨o, ho, hw', hmatches⟩ :=
    @run_live s d t w deps dateParse hw (Or.inl ht)
  rw [RunScript.effect_of_commits hs ht hcommits, ho.statusCode_eq]
    at hw' hmatches
  refine ⟨o, ho, hw', ?_⟩
  have hspares : s.faults.SparesEndpoint := by
    rw [hs]
    exact ⟨rfl, rfl, rfl, rfl⟩
  split
  next hfinal =>
    rw [if_pos hfinal] at hmatches
    exact hmatches.resolve_right fun h => h.1 hspares
  next hfinal =>
    rw [if_neg hfinal] at hmatches
    exact hmatches

end Run

/-! ## Chains -/

/-- How many of the first `k` runs commit their outcome. -/
def commitsBefore (scripts : ℕ → RunScript) (k : ℕ) : ℕ :=
  (List.range k).countP fun i => (scripts i).commits

/-- The status codes of the committed outcomes among the first `k`. -/
def committedCodes (scripts : ℕ → RunScript) (k : ℕ) : List (Option ℕ) :=
  ((List.range k).filter fun i => (scripts i).commits).map
    fun i => (scripts i).reply.statusCode

theorem commitsBefore_succ (scripts : ℕ → RunScript) (k : ℕ) :
    commitsBefore scripts (k + 1) =
      commitsBefore scripts k + if (scripts k).commits then 1 else 0 := by
  simp [commitsBefore, List.range_succ]

theorem committedCodes_succ (scripts : ℕ → RunScript) (k : ℕ) :
    committedCodes scripts (k + 1) = committedCodes scripts k ++
      if (scripts k).commits then [(scripts k).reply.statusCode] else [] := by
  rw [committedCodes, List.range_succ, List.filter_append, List.map_append]
  split
  next h => simp [committedCodes, h]
  next h => simp [committedCodes, h]

theorem length_committedCodes (scripts : ℕ → RunScript) (k : ℕ) :
    (committedCodes scripts k).length = commitsBefore scripts k := by
  rw [committedCodes, List.length_map, commitsBefore,
    List.countP_eq_length_filter]

section Chain

variable (dateParse : String → Option Instant) (deps : ProcessDeliveryDeps)
  (d : Uuid) (w : World) (scripts : ℕ → RunScript)

/-- The world after the first `k` runs. -/
def chainWorld : ℕ → World
  | 0 => w
  | k + 1 => ((scripts k).run dateParse deps d (chainWorld k)).2

/-- How run `k` ends. -/
def chainResult (k : ℕ) : Except Thrown Unit :=
  ((scripts k).run dateParse deps d
    (chainWorld dateParse deps d w scripts k)).1

/-- The outcomes of the timeline have these status codes. -/
structure Records (t : Timeline) (codes : List (Option ℕ)) : Prop where
  codes_eq : t.outcomes.map Outcome.statusCode = codes
  exclusive : ∀ o ∈ t.outcomes, o.statusCode.isSome = o.error.isNone

theorem Records.length_eq {t : Timeline} {codes : List (Option ℕ)}
    (h : Records t codes) : t.outcomes.length = codes.length := by
  rw [← h.codes_eq, List.length_map]

theorem Records.append {t : Timeline} {codes : List (Option ℕ)}
    (h : Records t codes) {o : Outcome} {reply : FetchReply}
    (ho : o.Reports reply) (status : DeliveryStatus) :
    Records ⟨status, t.outcomes ++ [o]⟩ (codes ++ [reply.statusCode]) where
  codes_eq := by
    rw [List.map_append, h.codes_eq, List.map_singleton, ho.statusCode_eq]
  exclusive := by
    intro o' ho'
    rcases List.mem_append.mp ho' with ho' | ho'
    · exact h.exclusive o' ho'
    · rw [List.mem_singleton] at ho'
      rw [ho']
      exact ho.exclusive

/-- What run `k` does by the retry policy.  The `m`-th committed outcome ends
the chain when it is `2xx`, or not retryable, or the last that the budget
allows, in that order; any other run throws with a delay within the bounds and
leaves the row pending. -/
structure FollowsPolicy (k : ℕ) : Prop where
  resolves_iff : chainResult dateParse deps d w scripts k = .ok () ↔
    (scripts k).commits ∧ (isSuccess (scripts k).reply.statusCode ∨
      isRetryableOutcome (scripts k).reply.statusCode = false ∨
      commitsBefore scripts (k + 1) = deps.maxAttempts)
  throws : chainResult dateParse deps d w scripts k ≠ .ok () →
    AsksForRetry deps.backoffMaxMs
      (chainResult dateParse deps d w scripts k)
  row : ∃ row, (chainWorld dateParse deps d w scripts (k + 1)).db.delivery? d =
      some row ∧
    row.attemptCount = commitsBefore scripts (k + 1) ∧
    row.status =
      if (scripts k).commits then
        if isSuccess (scripts k).reply.statusCode then .succeeded
        else if !isRetryableOutcome (scripts k).reply.statusCode then .failed
        else if commitsBefore scripts (k + 1) = deps.maxAttempts then
          .deadLettered
        else .pending
      else .pending
  numbers : ((chainWorld dateParse deps d w scripts (k + 1)).db.attemptLog
    d).map AttemptRow.n = List.range' 1 (commitsBefore scripts (k + 1))
  codes : ((chainWorld dateParse deps d w scripts (k + 1)).db.attemptLog
    d).map AttemptRow.statusCode = committedCodes scripts (k + 1)
  exclusive : ∀ a ∈ (chainWorld dateParse deps d w scripts (k + 1)).db.attemptLog
    d, a.statusCode.isSome = a.error.isNone

variable {dateParse deps d w scripts}

/-- Until a run resolves, the Delivery is pending and below its budget. -/
theorem chain_pending (hw : w.HasTimeline d ⟨.pending, []⟩)
    (hM : 1 ≤ deps.maxAttempts) (hscripts : ∀ i, (scripts i).RollsBack) :
    ∀ k, (∀ j < k, chainResult dateParse deps d w scripts j ≠ .ok ()) →
      ∃ t, (chainWorld dateParse deps d w scripts k).HasTimeline d t ∧
        t.status = .pending ∧ Records t (committedCodes scripts k) ∧
        commitsBefore scripts k < deps.maxAttempts := by
  intro k
  induction k with
  | zero =>
      intro _
      exact ⟨_, hw, rfl, ⟨rfl, by simp⟩, hM⟩
  | succ k ih =>
      intro hk
      obtain ⟨t, ht, hpending, hrecords, hlt⟩ := ih fun j hj => hk j (by omega)
      obtain ⟨honly, hacknowledged⟩ := hscripts k
      have hlength := hrecords.length_eq
      rw [length_committedCodes] at hlength
      have hunresolved := hk k (Nat.lt_succ_self k)
      rw [committedCodes_succ, commitsBefore_succ]
      by_cases hcommits : (scripts k).commits
      · obtain ⟨o, ho, ht', hresult⟩ :=
          run_of_commits dateParse deps honly ht hpending hcommits
        have hfinal : ¬ FinalOutcome deps.maxAttempts (t.outcomes.length + 1)
            (scripts k).reply.statusCode := by
          intro hfinal
          rw [if_pos ⟨hfinal, hacknowledged hcommits⟩] at hresult
          exact hunresolved hresult
        have hleft : ¬ deps.maxAttempts ≤ t.outcomes.length + 1 :=
          fun h => hfinal (Or.inr h)
        rw [resultingStatus_of_not_terminal
          (resultingStatus_terminal_iff.not.mpr hfinal)] at ht'
        rw [if_pos hcommits, if_pos hcommits]
        exact ⟨_, ht', rfl, hrecords.append ho _, by omega⟩
      · obtain ⟨ht', _⟩ := run_of_not_commits dateParse deps honly ht hpending
          (by simpa using hcommits)
        rw [if_neg hcommits, if_neg hcommits, List.append_nil, Nat.add_zero]
        exact ⟨t, ht', hpending, hrecords, hlt⟩

/-- The rows that a timeline with these codes stands for. -/
theorem rows_of_records {t : Timeline} {codes : List (Option ℕ)}
    (hw : w.HasTimeline d t) (hrecords : Records t codes) :
    (∃ row, w.db.delivery? d = some row ∧ row.attemptCount = codes.length ∧
      row.status = t.status) ∧
    (w.db.attemptLog d).map AttemptRow.n = List.range' 1 codes.length ∧
    (w.db.attemptLog d).map AttemptRow.statusCode = codes ∧
    ∀ a ∈ w.db.attemptLog d, a.statusCode.isSome = a.error.isNone := by
  obtain ⟨row, hrow, hstatus, hcount⟩ := hw.exists_row
  obtain ⟨hnumbers, houtcomes⟩ := hw.attemptLog
  rw [← hrecords.length_eq]
  refine ⟨⟨row, hrow, hcount, hstatus⟩, hnumbers, ?_, ?_⟩
  · rw [← hrecords.codes_eq, ← houtcomes, List.map_map]
    rfl
  · intro a ha
    apply hrecords.exclusive a.outcome
    rw [← houtcomes]
    exact List.mem_map_of_mem ha

/-- At or below the budget, an outcome is final by the cases of the policy. -/
theorem finalOutcome_iff {maxAttempts n : ℕ} (hn : n ≤ maxAttempts)
    (statusCode : Option ℕ) :
    FinalOutcome maxAttempts n statusCode ↔
      isSuccess statusCode ∨ isRetryableOutcome statusCode = false ∨
        n = maxAttempts := by
  have hlast : maxAttempts ≤ n ↔ n = maxAttempts := by omega
  rw [FinalOutcome, hlast]
  refine ⟨Or.inr, fun h => h.elim ?_ id⟩
  exact fun hsuccess => Or.inl (not_retryable_of_isSuccess hsuccess)

theorem followsPolicy_of_not_commits {k : ℕ} {t : Timeline}
    (ht : (chainWorld dateParse deps d w scripts k).HasTimeline d t)
    (hpending : t.status = .pending)
    (hrecords : Records t (committedCodes scripts k))
    (honly : (scripts k).OnlyPersistFails) (hcommits : ¬ (scripts k).commits) :
    FollowsPolicy dateParse deps d w scripts k := by
  obtain ⟨ht', hretry⟩ := run_of_not_commits dateParse deps honly ht
    hpending (by simpa using hcommits)
  have hcount : commitsBefore scripts (k + 1) = commitsBefore scripts k := by
    rw [commitsBefore_succ, if_neg hcommits, Nat.add_zero]
  have hcodes : committedCodes scripts (k + 1) = committedCodes scripts k := by
    rw [committedCodes_succ, if_neg hcommits, List.append_nil]
  obtain ⟨⟨row, hrow, hrowCount, hrowStatus⟩, hnumbers, hlogCodes, hexcl⟩ :=
    rows_of_records ht' hrecords
  rw [length_committedCodes, ← hcount] at hrowCount hnumbers
  rw [← hcodes] at hlogCodes
  refine ⟨?_, fun _ => hretry, ⟨row, hrow, hrowCount, ?_⟩, hnumbers,
    hlogCodes, hexcl⟩
  · constructor
    · intro hok
      obtain ⟨_, _, herror, _⟩ := hretry
      rw [chainResult, herror] at hok
      cases hok
    · exact fun h => absurd h.1 hcommits
  · rw [if_neg hcommits, hrowStatus, hpending]

theorem followsPolicy_of_commits {k : ℕ} {t : Timeline}
    (ht : (chainWorld dateParse deps d w scripts k).HasTimeline d t)
    (hpending : t.status = .pending)
    (hrecords : Records t (committedCodes scripts k))
    (hlt : commitsBefore scripts k < deps.maxAttempts)
    (hscript : (scripts k).RollsBack) (hcommits : (scripts k).commits) :
    FollowsPolicy dateParse deps d w scripts k := by
  obtain ⟨honly, hacknowledged⟩ := hscript
  obtain ⟨o, ho, ht', hresult⟩ :=
    run_of_commits dateParse deps honly ht hpending hcommits
  have hsucc : commitsBefore scripts (k + 1) = commitsBefore scripts k + 1 := by
    rw [commitsBefore_succ, if_pos hcommits]
  have hcount : t.outcomes.length + 1 = commitsBefore scripts (k + 1) := by
    rw [hsucc, hrecords.length_eq, length_committedCodes]
  have hbudget : commitsBefore scripts (k + 1) ≤ deps.maxAttempts := by omega
  have hcodes : committedCodes scripts k ++ [(scripts k).reply.statusCode] =
      committedCodes scripts (k + 1) := by
    rw [committedCodes_succ, if_pos hcommits]
  have hrecords' := hrecords.append ho (resultingStatus deps.maxAttempts
    (t.outcomes.length + 1) (scripts k).reply.statusCode)
  rw [hcodes] at hrecords'
  obtain ⟨⟨row, hrow, hrowCount, hrowStatus⟩, hnumbers, hlogCodes, hexcl⟩ :=
    rows_of_records ht' hrecords'
  rw [length_committedCodes] at hrowCount hnumbers
  rw [hcount] at hresult hrowStatus
  have hfinal := finalOutcome_iff hbudget (scripts k).reply.statusCode
  refine ⟨?_, ?_, ⟨row, hrow, hrowCount, ?_⟩, hnumbers, hlogCodes, hexcl⟩
  · rw [← hfinal]
    constructor
    · intro hok
      refine ⟨hcommits, ?_⟩
      by_contra hopen
      rw [if_neg (fun h => hopen h.1)] at hresult
      obtain ⟨_, _, herror, _⟩ := hresult
      rw [chainResult, herror] at hok
      cases hok
    · intro h
      rw [if_pos ⟨h.2, hacknowledged hcommits⟩] at hresult
      exact hresult
  · intro hunresolved
    by_cases hends : FinalOutcome deps.maxAttempts
        (commitsBefore scripts (k + 1)) (scripts k).reply.statusCode
    · rw [if_pos ⟨hends, hacknowledged hcommits⟩] at hresult
      exact absurd hresult hunresolved
    · rw [if_neg (fun h => hends h.1)] at hresult
      exact hresult
  · have hlast : deps.maxAttempts ≤ commitsBefore scripts (k + 1) ↔
        commitsBefore scripts (k + 1) = deps.maxAttempts := by omega
    rw [if_pos hcommits, hrowStatus, resultingStatus]
    simp only [hlast]

theorem retry_chain_follows_policy (dateParse : String → Option Instant)
    (deps : ProcessDeliveryDeps) (hM : 1 ≤ deps.maxAttempts) (d : Uuid)
    (w : World) (hw : w.HasTimeline d ⟨.pending, []⟩)
    (scripts : ℕ → RunScript) (hscripts : ∀ i, (scripts i).RollsBack) (k : ℕ)
    (hk : ∀ j < k, chainResult dateParse deps d w scripts j ≠ .ok ()) :
    FollowsPolicy dateParse deps d w scripts k := by
  obtain ⟨t, ht, hpending, hrecords, hlt⟩ := chain_pending hw hM hscripts k hk
  by_cases hcommits : (scripts k).commits
  · exact followsPolicy_of_commits ht hpending hrecords hlt (hscripts k)
      hcommits
  · exact followsPolicy_of_not_commits ht hpending hrecords (hscripts k).1
      hcommits

end Chain

/-- An outcome that is rolled back, then a `500`, then a `200`. -/
def recoveringScripts : ℕ → RunScript
  | 0 =>
      { faults := { complete := some (.rejected "connection reset") }
        reply := .response 200 none }
  | 1 => { reply := .response 500 none }
  | _ => { reply := .response 200 none }

theorem recoveringScripts_rollBack (i : ℕ) :
    (recoveringScripts i).RollsBack := by
  match i with
  | 0 => exact ⟨rfl, fun h => by cases h⟩
  | 1 => exact ⟨rfl, fun _ => rfl⟩
  | _ + 2 => exact ⟨rfl, fun _ => rfl⟩

/-- The third run of the chain, which resolves. -/
theorem retry_chain_follows_policy_recovering :
    FollowsPolicy (fun _ => none) { defaultTimeoutMs := 1000 } 0
      (World.ofTimeline 0 ⟨.pending, []⟩) recoveringScripts 2 :=
  retry_chain_follows_policy _ { defaultTimeoutMs := 1000 } (by decide) 0 _
    ⟨Database.consistent_ofTimeline 0 _, Database.timeline?_ofTimeline 0 _⟩
    recoveringScripts recoveringScripts_rollBack 2 (by decide)

/-! ## The job that drives a chain -/

section Job

variable (dateParse : String → Option Instant) (deps : ProcessDeliveryDeps)
  (data : DeliveryWorkItem)

/-- A worker takes the job, if it is not finished, and runs it. -/
def jobStep (s : RunScript) (state : Job × World) : Job × World :=
  if state.1.state.Finished then state
  else
    let outcome := s.run dateParse deps data.deliveryId state.2
    (state.1.take.settle outcome.1, outcome.2)

/-- The job and the world after `k` turns of the job that `add` creates. -/
def jobAfter (w : World) (scripts : ℕ → RunScript) : ℕ → Job × World
  | 0 => (Job.added deps.maxAttempts data, w)
  | k + 1 => jobStep dateParse deps data (scripts k) (jobAfter w scripts k)

/-- Whenever the job is finished, the Delivery is terminal or gone. -/
def NeverStranded (w : World) (scripts : ℕ → RunScript) : Prop :=
  ∀ k, (jobAfter dateParse deps data w scripts k).1.state.Finished →
    Settled ((jobAfter dateParse deps data w scripts k).2.db.timeline?
      data.deliveryId)

/-- Run `i` commits a final outcome, the row having counted `count` Attempts
when the job was added. -/
def CommitsFinal (maxAttempts count : ℕ) (scripts : ℕ → RunScript) (i : ℕ) :
    Prop :=
  (scripts i).commits ∧ FinalOutcome maxAttempts
    (count + commitsBefore scripts (i + 1)) (scripts i).reply.statusCode

instance (maxAttempts count : ℕ) (scripts : ℕ → RunScript) (i : ℕ) :
    Decidable (CommitsFinal maxAttempts count scripts i) :=
  inferInstanceAs (Decidable (_ ∧ _))

variable {dateParse deps data} {w : World} {scripts : ℕ → RunScript}

theorem jobStep_of_not_finished {s : RunScript} {state : Job × World}
    (h : ¬ state.1.state.Finished) :
    jobStep dateParse deps data s state =
      (state.1.take.settle (s.run dateParse deps data.deliveryId state.2).1,
        (s.run dateParse deps data.deliveryId state.2).2) :=
  if_neg h

/-- A settled Delivery stays settled. -/
theorem settled_jobStep {s : RunScript} {state : Job × World}
    (h : Settled (state.2.db.timeline? data.deliveryId)) :
    Settled ((jobStep dateParse deps data s state).2.db.timeline?
      data.deliveryId) := by
  unfold jobStep
  split
  · exact h
  · rw [(run_settled h).1]
    exact h

theorem settled_jobAfter {i k : ℕ} (hik : i ≤ k)
    (h : Settled ((jobAfter dateParse deps data w scripts i).2.db.timeline?
      data.deliveryId)) :
    Settled ((jobAfter dateParse deps data w scripts k).2.db.timeline?
      data.deliveryId) := by
  induction k, hik using Nat.le_induction with
  | base => exact h
  | succ k _ ih => exact settled_jobStep ih

/-- While no final outcome is committed: the Delivery is pending, its Attempts
are the committed ones, and the job has made one run a turn. -/
structure Undecided (deps : ProcessDeliveryDeps) (d : Uuid) (count k : ℕ)
    (state : Job × World) : Prop where
  row : ∃ t, state.2.HasTimeline d t ∧ t.status = .pending ∧
    t.outcomes.length = count
  attempts_eq : state.1.attempts = deps.maxAttempts
  runs_eq : state.1.runs = k
  finished_iff : state.1.state.Finished ↔ deps.maxAttempts ≤ k

/-- A run that asks for another is the last one when no runs are left. -/
theorem Job.settle_finished_iff_of_asksForRetry {job : Job} {capMs : ℕ}
    {r : Except Thrown Unit} (h : AsksForRetry capMs r) :
    (job.settle r).state.Finished ↔ job.attempts ≤ job.runs := by
  obtain ⟨message, delayMs, rfl, hdelay, _⟩ := h
  rw [Job.settle, Job.reject_finished_iff, backoffStrategy]
  simp [hdelay]

theorem Job.settle_runs (job : Job) (r : Except Thrown Unit) :
    (job.settle r).runs = job.runs ∧
      (job.settle r).attempts = job.attempts := by
  cases r with
  | ok _ => exact ⟨rfl, rfl⟩
  | error e => exact ⟨rfl, rfl⟩

/-- One more turn, when it commits no final outcome. -/
theorem Undecided.jobStep {d : Uuid} {count k : ℕ} {state : Job × World}
    {s : RunScript} (hd : data.deliveryId = d)
    (h : Undecided deps d count k state) (hk : k < deps.maxAttempts)
    (hs : s.OnlyPersistFails)
    (hfinal : ¬ (s.commits ∧ FinalOutcome deps.maxAttempts (count + 1)
      s.reply.statusCode)) :
    Undecided deps d (count + if s.commits then 1 else 0) (k + 1)
      (jobStep dateParse deps data s state) := by
  subst hd
  obtain ⟨t, ht, hpending, hcount⟩ := h.row
  have hactive : ¬ state.1.state.Finished := by
    rw [h.finished_iff]
    omega
  let r := s.run dateParse deps data.deliveryId state.2
  have hstep : WebhookBroadcast.jobStep dateParse deps data s state =
      (state.1.take.settle r.1, r.2) := jobStep_of_not_finished hactive
  have hretry : AsksForRetry deps.backoffMaxMs r.1 ∧
      ∃ t', r.2.HasTimeline data.deliveryId t' ∧ t'.status = .pending ∧
        t'.outcomes.length = count + if s.commits then 1 else 0 := by
    by_cases hcommits : s.commits
    · obtain ⟨o, _, ht', hresult⟩ :=
        run_of_commits dateParse deps hs ht hpending hcommits
      have hopen : ¬ FinalOutcome deps.maxAttempts (t.outcomes.length + 1)
          s.reply.statusCode := by
        rw [hcount]
        exact fun hopen => hfinal ⟨hcommits, hopen⟩
      rw [if_neg (fun h => hopen h.1)] at hresult
      rw [resultingStatus_of_not_terminal
        (resultingStatus_terminal_iff.not.mpr hopen)] at ht'
      exact ⟨hresult, _, ht', rfl, by simp [hcommits, hcount]⟩
    · obtain ⟨ht', hresult⟩ := run_of_not_commits dateParse deps hs ht
        hpending (by simpa using hcommits)
      exact ⟨hresult, t, ht', hpending, by simp [hcommits, hcount]⟩
  rw [hstep]
  obtain ⟨hruns, hattempts⟩ := Job.settle_runs state.1.take r.1
  have hattempts' : state.1.take.attempts = deps.maxAttempts := h.attempts_eq
  have hruns' : state.1.take.runs = k + 1 := by rw [Job.take, h.runs_eq]
  refine ⟨hretry.2, hattempts.trans hattempts', hruns.trans hruns', ?_⟩
  rw [Job.settle_finished_iff_of_asksForRetry hretry.1, hattempts', hruns']

/-- A final outcome that is committed settles the Delivery. -/
theorem Undecided.settled_jobStep {d : Uuid} {count k : ℕ}
    {state : Job × World} {s : RunScript} (hd : data.deliveryId = d)
    (h : Undecided deps d count k state) (hk : k < deps.maxAttempts)
    (hs : s.OnlyPersistFails) (hcommits : s.commits)
    (hfinal : FinalOutcome deps.maxAttempts (count + 1) s.reply.statusCode) :
    Settled ((WebhookBroadcast.jobStep dateParse deps data s
      state).2.db.timeline? d) := by
  subst hd
  obtain ⟨t, ht, hpending, hcount⟩ := h.row
  have hactive : ¬ state.1.state.Finished := by
    rw [h.finished_iff]
    omega
  obtain ⟨o, _, ht', _⟩ :=
    run_of_commits dateParse deps hs ht hpending hcommits
  rw [jobStep_of_not_finished hactive, ht'.timeline, settled_some,
    ← DeliveryStatus.terminal_iff_not_live, resultingStatus_terminal_iff,
    hcount]
  exact hfinal

variable (dateParse) in
theorem undecided_jobAfter (hM : 1 ≤ deps.maxAttempts) {t : Timeline}
    (hw : w.HasTimeline data.deliveryId t) (hpending : t.status = .pending)
    (hscripts : ∀ i, (scripts i).OnlyPersistFails) (k : ℕ)
    (hk : k ≤ deps.maxAttempts)
    (hopen : ∀ i < k,
      ¬ CommitsFinal deps.maxAttempts t.outcomes.length scripts i) :
    Undecided deps data.deliveryId
      (t.outcomes.length + commitsBefore scripts k) k
      (jobAfter dateParse deps data w scripts k) := by
  induction k with
  | zero =>
      refine ⟨⟨t, hw, hpending, rfl⟩, rfl, rfl, ?_⟩
      have hzero : ¬ deps.maxAttempts ≤ 0 := by omega
      simp [jobAfter, Job.added, JobState.Finished, hzero]
  | succ k ih =>
      have hprevious := ih (by omega) fun i hi => hopen i (by omega)
      have hlast := hopen k (Nat.lt_succ_self k)
      rw [commitsBefore_succ, ← Nat.add_assoc]
      apply hprevious.jobStep rfl (by omega) (hscripts k)
      rintro ⟨hcommits, hfinal⟩
      refine hlast ⟨hcommits, ?_⟩
      rw [commitsBefore_succ, if_pos hcommits, ← Nat.add_assoc]
      exact hfinal

end Job

/-- No Delivery of a job is stranded exactly when, if it is there at all, one
of the runs that the job is allowed commits a final outcome. -/
theorem neverStranded_iff_commits_final (dateParse : String → Option Instant)
    (deps : ProcessDeliveryDeps) (hM : 1 ≤ deps.maxAttempts)
    (data : DeliveryWorkItem) (w : World)
    (hw : w.db.Consistent data.deliveryId)
    (hpending : ∀ row, w.db.delivery? data.deliveryId = some row →
      row.status = .pending)
    (scripts : ℕ → RunScript) (hscripts : ∀ i, (scripts i).OnlyPersistFails) :
    NeverStranded dateParse deps data w scripts ↔
      ∀ row, w.db.delivery? data.deliveryId = some row →
        ∃ i < deps.maxAttempts,
          CommitsFinal deps.maxAttempts row.attemptCount scripts i := by
  cases hrow : w.db.delivery? data.deliveryId with
  | none =>
      have hgone : Settled (w.db.timeline? data.deliveryId) := by
        intro t ht
        simp [Database.timeline?, hrow] at ht
      have hsafe : NeverStranded dateParse deps data w scripts :=
        fun k _ => settled_jobAfter (Nat.zero_le k) hgone
      exact iff_of_true hsafe fun row h => by cases h
  | some row =>
      obtain ⟨t, ht, hstatus, hcount⟩ := World.exists_timeline hw hrow
      rw [hpending row hrow] at hstatus
      simp only [Option.some.injEq, forall_eq', ← hcount]
      constructor
      · intro hsafe
        by_contra! hopen
        have hundecided := undecided_jobAfter dateParse
          hM ht hstatus hscripts deps.maxAttempts le_rfl hopen
        obtain ⟨t', ht', hpending', _⟩ := hundecided.row
        have hsettled := hsafe deps.maxAttempts
          (hundecided.finished_iff.mpr le_rfl)
        rw [ht'.timeline, settled_some, hpending'] at hsettled
        exact hsettled DeliveryStatus.live_pending
      · -- The first run that commits a final outcome settles the Delivery, and
        -- the job is not finished before.
        intro hexists k hfinished
        let first := Nat.find hexists
        obtain ⟨hlt, hcommits, hfinal⟩ := Nat.find_spec hexists
        have hopen : ∀ i < first,
            ¬ CommitsFinal deps.maxAttempts t.outcomes.length scripts i :=
          fun i hi hcommits => Nat.find_min hexists hi
            ⟨lt_trans hi hlt, hcommits⟩
        have hundecided (j : ℕ) (hj : j ≤ first) :=
          undecided_jobAfter dateParse hM ht hstatus hscripts j
            (le_of_lt (lt_of_le_of_lt hj hlt))
            (fun i hi => hopen i (lt_of_lt_of_le hi hj))
        rw [commitsBefore_succ, if_pos hcommits, ← Nat.add_assoc] at hfinal
        have hsettled : Settled ((jobAfter dateParse deps data w scripts
            (first + 1)).2.db.timeline? data.deliveryId) :=
          (hundecided first le_rfl).settled_jobStep rfl hlt (hscripts first)
            hcommits hfinal
        have hbeyond : first + 1 ≤ k := by
          by_contra hk
          have hle := ((hundecided k (by omega)).finished_iff).mp hfinished
          omega
        exact settled_jobAfter hbeyond hsettled

/-- A Delivery that may be attempted once, and whose one outcome cannot be
persisted. -/
def unpersistedScripts : ℕ → RunScript := fun _ =>
  { faults := { complete := some (.rejected "connection reset") }
    reply := .response 200 none }

def onceDeps : ProcessDeliveryDeps where
  defaultTimeoutMs := 1000
  maxAttempts? := some 1

theorem neverStranded_iff_commits_final_unpersisted :
    NeverStranded (fun _ => none) onceDeps ⟨0, 0, 0, 0, 0⟩
        (World.ofTimeline 0 ⟨.pending, []⟩) unpersistedScripts ↔
      ∀ row, (World.ofTimeline 0 ⟨.pending, []⟩).db.delivery? 0 = some row →
        ∃ i < 1, CommitsFinal 1 row.attemptCount unpersistedScripts i :=
  neverStranded_iff_commits_final _ onceDeps (by decide) ⟨0, 0, 0, 0, 0⟩ _
    (Database.consistent_ofTimeline 0 _)
    (fun row hrow => by cases hrow; rfl) unpersistedScripts (fun _ => rfl)

/-- The job has failed for good after its one run, and the row is pending. -/
theorem not_neverStranded_unpersisted :
    ¬ ∀ (dateParse : String → Option Instant) (deps : ProcessDeliveryDeps)
        (data : DeliveryWorkItem) (w : World) (scripts : ℕ → RunScript),
      1 ≤ deps.maxAttempts → w.HasTimeline data.deliveryId ⟨.pending, []⟩ →
      (∀ i, (scripts i).OnlyPersistFails) →
        NeverStranded dateParse deps data w scripts := by
  intro hall
  have hsafe := hall (fun _ => none) onceDeps ⟨0, 0, 0, 0, 0⟩
    (World.ofTimeline 0 ⟨.pending, []⟩) unpersistedScripts (by decide)
    ⟨Database.consistent_ofTimeline 0 _, Database.timeline?_ofTimeline 0 _⟩
    (fun _ => rfl)
  have hsettled := hsafe 1 (by decide)
  have hstatus : ((jobAfter (fun _ => none) onceDeps ⟨0, 0, 0, 0, 0⟩
      (World.ofTimeline 0 ⟨.pending, []⟩) unpersistedScripts 1).2.db.delivery?
        0).map DeliveryRow.status = some .pending := by decide
  obtain ⟨row, hrow, hpending⟩ := Option.map_eq_some_iff.mp hstatus
  exact hsettled _ (Database.timeline?_eq_some hrow) (Or.inl hpending)

end WebhookBroadcast
