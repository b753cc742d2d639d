import WebhookBroadcast.Worker.Script

/-!
# Runs whose statements fail

The worker's backoff strategy gives a job another run only for a
`RetryableDeliveryError`.  This module proves exactly which faults make a run
throw anything else while its Delivery is still live: those of the statements
before the Attempt, and a release that fails after an outcome that could not be
persisted.
-/

namespace WebhookBroadcast

open Interaction Timeline

/-- If the run rejected and the Delivery is live, then its error is one for
which the backoff strategy schedules another run. -/
def Survives (d : Uuid) (r : Except Thrown Unit) (w : World) : Prop :=
  ∀ e row, r = .error e → w.db.delivery? d = some row → row.status.Live →
    ∃ message delayMs, e = .retryableDeliveryError message delayMs ∧
      0 ≤ delayMs

/-- A fault that no `catch` turns into a `RetryableDeliveryError`.  An outcome
that was committed without acknowledgement does no harm when it is terminal. -/
def FatalFault (s : RunScript) (maxAttempts : ℕ) (row : DeliveryRow) : Prop :=
  s.faults.read ≠ none ∨ s.faults.claim ≠ none ∨
    (row.status = .inProgress ∧ s.faults.reread ≠ none) ∨
    (s.faults.reset ≠ none ∧ ∃ fault, s.faults.complete = some fault ∧
      ¬ (fault.applied ∧ FinalOutcome maxAttempts (row.attemptCount + 1)
        s.reply.statusCode))

/-! ## Effects that leave a live Delivery behind -/

namespace RunScript

variable {s : RunScript} {maxAttempts : ℕ} {t : Timeline} {o : Outcome}

theorem released_status_live (t : Timeline) :
    t.released.status.Live ↔ t.status.Live := by
  unfold Timeline.released
  split
  next h => simp [h]
  next h => rfl

theorem claimed_status_live (t : Timeline) :
    t.claimed.status.Live ↔ t.status.Live := by
  unfold Timeline.claimed
  split
  next h => simp [h]
  next h => rfl

theorem effectOfRelease_unhandled_iff :
    (s.effectOfRelease t).2 = .unhandled ∧
        (s.effectOfRelease t).1.status.Live ↔
      s.faults.reset ≠ none ∧ t.status.Live := by
  unfold effectOfRelease
  cases s.faults.reset with
  | none => simp
  | some fault =>
      by_cases happlied : fault.applied
      · simp [happlied, released_status_live]
      · simp [happlied]

theorem effectOfAttempt_unhandled_iff (ht : t.status.Live)
    (ho : o.Reports s.reply) :
    (s.effectOfAttempt maxAttempts t o).2 = .unhandled ∧
        (s.effectOfAttempt maxAttempts t o).1.status.Live ↔
      s.faults.reset ≠ none ∧ ∃ fault, s.faults.complete = some fault ∧
        ¬ (fault.applied ∧ FinalOutcome maxAttempts
          (t.outcomes.length + 1) s.reply.statusCode) := by
  simp only [effectOfAttempt, ho.statusCode_eq]
  cases s.faults.complete with
  | none =>
      by_cases hterminal : (resultingStatus maxAttempts
          (t.outcomes.length + 1) s.reply.statusCode).Terminal
      · simp [hterminal]
      · simp [hterminal]
  | some fault =>
      simp only [effectOfRelease_unhandled_iff, Option.some.injEq,
        exists_eq_left', ← resultingStatus_terminal_iff,
        DeliveryStatus.terminal_iff_not_live]
      by_cases happlied : fault.applied
      · simp [happlied]
      · simp [happlied, ht]

theorem effect_unhandled_iff (ht : t.status.Live) (ho : o.Reports s.reply)
    {row : DeliveryRow} (hstatus : row.status = t.status)
    (hcount : row.attemptCount = t.outcomes.length) :
    (s.effect maxAttempts t o).2 = .unhandled ∧
        (s.effect maxAttempts t o).1.status.Live ↔
      FatalFault s maxAttempts row := by
  have hlength : t.claimed.outcomes = t.outcomes := by
    unfold Timeline.claimed
    split <;> rfl
  have hattempt : (s.effectOfAttempt maxAttempts t.claimed o).2 = .unhandled ∧
      (s.effectOfAttempt maxAttempts t.claimed o).1.status.Live ↔ _ :=
    effectOfAttempt_unhandled_iff ((claimed_status_live t).mpr ht) ho
  rw [hlength, ← hcount] at hattempt
  unfold effect FatalFault
  cases hread : s.faults.read with
  | some fault => simp [ht]
  | none =>
      simp only [effectOfClaim]
      cases hclaim : s.faults.claim with
      | some fault =>
          by_cases happlied : fault.applied
          · simp [happlied, claimed_status_live, ht]
          · simp [happlied, ht]
      | none =>
          by_cases hreread : t.status = .inProgress ∧ s.faults.reread ≠ none
          · simp [hreread, hstatus]
          · rw [if_neg hreread, hattempt, hstatus]
            simp [hreread]

theorem effectOfAttempt_settled
    (h : (s.effectOfAttempt maxAttempts t o).2 = .settled) :
    (s.effectOfAttempt maxAttempts t o).1.status.Terminal := by
  unfold effectOfAttempt effectOfRelease at h ⊢
  cases hcomplete : s.faults.complete with
  | none =>
      by_cases hterminal : (resultingStatus maxAttempts
          (t.outcomes.length + 1) o.statusCode).Terminal
      · simpa [hcomplete] using hterminal
      · simp [hcomplete, hterminal] at h
  | some fault => cases hreset : s.faults.reset <;> simp [hcomplete, hreset] at h

theorem effect_settled (h : (s.effect maxAttempts t o).2 = .settled) :
    (s.effect maxAttempts t o).1.status.Terminal := by
  unfold effect effectOfClaim at h ⊢
  cases hread : s.faults.read with
  | some fault => simp [hread] at h
  | none =>
      cases hclaim : s.faults.claim with
      | some fault => simp [hread, hclaim] at h
      | none =>
          by_cases hreread : t.status = .inProgress ∧ s.faults.reread ≠ none
          · simp [hread, hclaim, hreread] at h
          · simp only [hread, hclaim, if_neg hreread] at h ⊢
            exact effectOfAttempt_settled h

end RunScript

/-- When a run survives, in terms of its effect. -/
theorem survives_iff_of_endsWith {s : RunScript} {capMs : ℕ} {d : Uuid}
    {e : Timeline × Verdict} {r : Except Thrown Unit} {w : World}
    (h : EndsWith s capMs d e r w)
    (hsettled : e.2 = .settled → e.1.status.Terminal) :
    Survives d r w ↔ ¬ (e.2 = .unhandled ∧ e.1.status.Live) := by
  obtain ⟨hw, hmatches⟩ := h
  obtain ⟨row, hrow, hstatus, _⟩ := hw.exists_row
  constructor
  · rintro hsurvives ⟨hunhandled, hlive⟩
    rw [hunhandled] at hmatches
    obtain ⟨error, herror⟩ := hmatches
    obtain ⟨_, _, hretry, _⟩ :=
      hsurvives _ row herror hrow (hstatus ▸ hlive)
    cases hretry
  · intro hnot error row' herror hrow' hlive
    rw [hrow] at hrow'
    cases hrow'
    rw [hstatus] at hlive
    cases hverdict : e.2 with
    | settled =>
        exact absurd hlive (DeliveryStatus.terminal_iff_not_live.mp
          (hsettled hverdict))
    | unhandled => exact absurd ⟨hverdict, hlive⟩ hnot
    | retry =>
        rw [hverdict] at hmatches
        obtain ⟨message, delayMs, hr, hdelay, _⟩ := hmatches
        rw [herror] at hr
        cases hr
        exact ⟨message, delayMs, rfl, hdelay⟩

/-- A run survives exactly when its Delivery is not live or no fault is
fatal. -/
theorem survives_iff_no_fatalFault (dateParse : String → Option Instant)
    (deps : ProcessDeliveryDeps) (d : Uuid) (s : RunScript) (w : World)
    (hw : w.db.Consistent d) :
    Survives d (s.run dateParse deps d w).1 (s.run dateParse deps d w).2 ↔
      ∀ row, w.db.delivery? d = some row → row.status.Live →
        ¬ FatalFault s deps.maxAttempts row := by
  by_cases hsettled : Settled (w.db.timeline? d)
  · have hnot (row : DeliveryRow) (hrow : w.db.delivery? d = some row) :
        ¬ row.status.Live := by
      simpa using hsettled _ (Database.timeline?_eq_some hrow)
    constructor
    · exact fun _ row hrow hlive => absurd hlive (hnot row hrow)
    · intro _ e row _ hrow hlive
      rw [(run_settled hsettled).1] at hrow
      exact absurd hlive (hnot row hrow)
  · simp only [Settled, not_forall, not_not] at hsettled
    obtain ⟨t, ht, hlive⟩ := hsettled
    have htimeline : w.HasTimeline d t := ⟨hw, ht⟩
    obtain ⟨row, hrow, hstatus, hcount⟩ := htimeline.exists_row
    obtain ⟨o, ho, hends⟩ := run_live htimeline hlive
    rw [survives_iff_of_endsWith hends RunScript.effect_settled,
      RunScript.effect_unhandled_iff hlive ho hstatus hcount]
    constructor
    · intro hnot row' hrow' _
      rw [hrow] at hrow'
      cases hrow'
      exact hnot
    · exact fun h => h row hrow (hstatus ▸ hlive)

/-- The Endpoint answers `200`, and then neither the outcome can be persisted
nor the claim released. -/
def unreleasedScript : RunScript where
  faults :=
    { complete := some (.rejected "terminating connection")
      reset := some (.rejected "terminating connection") }
  reply := .response 200 none

theorem survives_iff_no_fatalFault_unreleased :
    Survives 0
        (unreleasedScript.run (fun _ => none) { defaultTimeoutMs := 1000 } 0
          (World.ofTimeline 0 ⟨.pending, []⟩)).1
        (unreleasedScript.run (fun _ => none) { defaultTimeoutMs := 1000 } 0
          (World.ofTimeline 0 ⟨.pending, []⟩)).2 ↔
      ∀ row, (World.ofTimeline 0 ⟨.pending, []⟩).db.delivery? 0 = some row →
        row.status.Live → ¬ FatalFault unreleasedScript 8 row :=
  survives_iff_no_fatalFault _ { defaultTimeoutMs := 1000 } 0
    unreleasedScript _ (Database.consistent_ofTimeline 0 _)

/-- The row stays in progress, and the error is the one of the release. -/
theorem not_survives_unreleased :
    ¬ ∀ (dateParse : String → Option Instant) (deps : ProcessDeliveryDeps)
        (d : Uuid) (s : RunScript) (w : World), w.db.Consistent d →
      Survives d (s.run dateParse deps d w).1 (s.run dateParse deps d w).2 := by
  intro hall
  have hsurvives := hall (fun _ => none) { defaultTimeoutMs := 1000 } 0
    unreleasedScript (World.ofTimeline 0 ⟨.pending, []⟩)
    (Database.consistent_ofTimeline 0 _)
  have hstatus : (((unreleasedScript.run (fun _ => none)
      { defaultTimeoutMs := 1000 } 0 (World.ofTimeline 0 ⟨.pending, []⟩)).2.db
        ).delivery? 0).map DeliveryRow.status = some .inProgress := by decide
  obtain ⟨row, hrow, hlive⟩ := Option.map_eq_some_iff.mp hstatus
  have herror : (unreleasedScript.run (fun _ => none)
      { defaultTimeoutMs := 1000 } 0 (World.ofTimeline 0 ⟨.pending, []⟩)).1 =
        .error (.database (.unavailable "terminating connection")) := by rfl
  obtain ⟨_, _, hretry, _⟩ :=
    hsurvives _ row herror hrow (hlive ▸ DeliveryStatus.live_inProgress)
  cases hretry

end WebhookBroadcast
