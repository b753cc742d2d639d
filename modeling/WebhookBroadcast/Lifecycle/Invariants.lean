import WebhookBroadcast.Lifecycle.History

/-!
# Invariants of a Delivery

What holds of one Delivery in every history that starts with its fan-out: its
Attempt log is complete and its summary columns are right, its terminal states
are absorbing, and its Attempts stay within the budget.
-/

namespace WebhookBroadcast

open Interaction Timeline

/-! ## The Attempt log -/

/-- The Attempts of a Delivery are numbered from one to its Attempt count, and
the row shows the outcome of the last of them. -/
structure Database.LogIntegrity (db : Database) (d : Uuid) : Prop where
  absent : db.delivery? d = none → db.attemptLog d = []
  numbers : ∀ row, db.delivery? d = some row →
    (db.attemptLog d).map AttemptRow.n = List.range' 1 row.attemptCount
  last : ∀ row, db.delivery? d = some row → 0 < row.attemptCount →
    ∃ a ∈ db.attemptLog d, a.n = row.attemptCount ∧
      row.lastStatusCode = a.statusCode ∧
      row.lastDurationMs = some a.durationMs ∧ row.lastError = a.error
  unattempted : ∀ row, db.delivery? d = some row → row.attemptCount = 0 →
    row.lastStatusCode = none ∧ row.lastDurationMs = none ∧
      row.lastError = none

theorem attemptLog_integrity (dateParse : String → Option Instant) (d : Uuid)
    (w : World) (hw : w.db.Fresh d) (history : History) :
    (reached dateParse w history).LogIntegrity d := by
  have hcons := consistent_reached dateParse hw history
  constructor
  · exact Database.attemptLog_eq_nil
  · exact fun row hrow => (hcons row hrow).numbers
  · exact fun row hrow => (hcons row hrow).exists_last
  · exact fun row hrow => (hcons row hrow).last_eq_none

/-- Two runs of one Delivery that both get `200`, call by call in turn. -/
def overlappingRuns : History :=
  let task : Task := ⟨{ defaultTimeoutMs := 1000 }, 0⟩
  [.start task, .start task] ++
    (List.replicate 12 [.step 0 {}, .step 1 {}]).flatten

theorem attemptLog_integrity_overlapping :
    (reached (fun _ => none) (World.ofTimeline 0 ⟨.pending, []⟩)
      overlappingRuns).LogIntegrity 0 :=
  attemptLog_integrity _ 0 _ (fresh_ofTimeline 0) overlappingRuns

/-! ## Terminal states -/

/-- A succeeded or failed timeline outlives every later event but a sweep. -/
theorem timeline?_after_final {dateParse : String → Option Instant} {d : Uuid}
    {w : World} (hw : w.db.Fresh d) {history : History} {t : Timeline}
    (ht : (reached dateParse w history).timeline? d = some t)
    (hfinal : t.status = .succeeded ∨ t.status = .failed) (later : History) :
    (∃ cutoff, .background (.sweep cutoff) ∈ later) ∧
        (reached dateParse w (history ++ later)).timeline? d = none ∨
      (reached dateParse w (history ++ later)).timeline? d = some t := by
  have hlive : ¬ t.status.Live := by
    rcases hfinal with h | h <;> simp [h]
  have hsound := Regime.any.sound_after d dateParse hw
    (Regime.admissible_any d dateParse _ history)
  simp only [reached, after_append]
  let motive : History → Prop := fun later =>
    let db := ((workers dateParse).exec (after dateParse w history)
      later).state.db
    (∃ cutoff, .background (.sweep cutoff) ∈ later) ∧
      db.timeline? d = none ∨ db.timeline? d = some t
  refine ((Regime.any.workers_uphold d dateParse).exec_induction hsound
    (motive := motive) ?_ ?_ later
    (Regime.admissible_any d dateParse _ later)).2
  · exact Or.inr ht
  · intro events e _ _ htrans ih
    rcases Regime.timeline?_event_cases _ d htrans with
      ⟨_, u, v, hu, _, hreopens⟩ | ⟨_, ⟨⟨cutoff, rfl⟩, hnone⟩ | hchange⟩
    · exfalso
      rcases ih with ⟨_, hgone⟩ | hsame
      · rw [hgone] at hu
        cases hu
      · rw [hsame] at hu
        cases hu
        cases hreopens with
        | reopen hdead => rcases hfinal with h | h <;> simp [h] at hdead
    · exact Or.inl ⟨⟨cutoff, by simp⟩, hnone⟩
    · rcases ih with ⟨⟨cutoff, hmem⟩, hgone⟩ | hsame
      · rw [hgone] at hchange
        have hstill := Change.eq_none hchange
        exact Or.inl ⟨⟨cutoff, by simp [hmem]⟩, hstill⟩
      · rw [hsame] at hchange
        exact Or.inr (hchange.eq_of_not_live hlive)

/-- Later events leave what the Delivery shows as it is, unless a sweep among
them removes it. -/
def Undisturbed (dateParse : String → Option Instant) (d : Uuid) (w : World)
    (history later : History) : Prop :=
  (∃ cutoff, .background (.sweep cutoff) ∈ later) ∧
      (reached dateParse w (history ++ later)).delivery? d = none ∨
    ((reached dateParse w (history ++ later)).delivery? d).map
        DeliveryRow.progress =
      ((reached dateParse w history).delivery? d).map DeliveryRow.progress

theorem undisturbed_of_timeline? {dateParse : String → Option Instant}
    {d : Uuid} {w : World} (hw : w.db.Fresh d) {history later : History}
    {row : DeliveryRow}
    (hrow : (reached dateParse w history).delivery? d = some row)
    (h : (reached dateParse w (history ++ later)).timeline? d =
      (reached dateParse w history).timeline? d) :
    Undisturbed dateParse d w history later := by
  have hcons := consistent_reached dateParse hw
  obtain ⟨row', hrow', hprogress⟩ :=
    (hcons history).progress_congr (hcons (history ++ later)) hrow h
  right
  rw [hrow, hrow', Option.map_some, Option.map_some, hprogress]

/-- Terminal states are absorbing.  A succeeded or failed Delivery never
changes again, and of a dead-lettered one nothing changes but by a retry that
returns true. -/
theorem terminal_absorbing (dateParse : String → Option Instant) (d : Uuid)
    (w : World) (hw : w.db.Fresh d) (history : History) (row : DeliveryRow)
    (hrow : (reached dateParse w history).delivery? d = some row) :
    (row.status = .succeeded ∨ row.status = .failed →
      ∀ later, Undisturbed dateParse d w history later) ∧
    (row.status = .deadLettered → ∀ e,
      (∃ updatedAt, e = .background (.retry d updatedAt) ∧
        (retryDeadLetteredDelivery (reached dateParse w history) d
          updatedAt).1 = true) ∨
      Undisturbed dateParse d w history [e]) := by
  have ht := Database.timeline?_eq_some hrow
  constructor
  · intro hfinal later
    rcases timeline?_after_final hw ht hfinal later with ⟨hsweep, hnone⟩ | hsame
    · exact Or.inl ⟨hsweep, Database.timeline?_eq_none_iff.mp hnone⟩
    · exact undisturbed_of_timeline? hw hrow (hsame.trans ht.symm)
  · intro hdead e
    have htrans := ((Regime.any.workers_uphold d dateParse).apply
      (Regime.any.sound_after d dateParse hw
        (Regime.admissible_any d dateParse _ history))
      (Regime.admissible_any d dateParse _ [e] [] e [] rfl)).2
    rw [← after_concat] at htrans
    rcases Regime.timeline?_event_cases _ d htrans with
      ⟨haccepts, _⟩ | ⟨_, ⟨⟨cutoff, hsweep⟩, hnone⟩ | hchange⟩
    · exact Or.inl (acceptsRetry_eq_true_iff.mp haccepts)
    · right
      left
      exact ⟨⟨cutoff, by simp [hsweep]⟩,
        Database.timeline?_eq_none_iff.mp hnone⟩
    · right
      apply undisturbed_of_timeline? hw hrow
      have hlive : ¬ (row.timeline ((reached dateParse w history).attemptLog
          d)).status.Live := by
        simp [hdead]
      rw [ht]
      apply Change.eq_of_not_live hlive
      rw [← ht]
      exact hchange

/-- Two more runs change nothing. -/
theorem terminal_absorbing_overlapping :
    Undisturbed (fun _ => none) 0 (World.ofTimeline 0 ⟨.pending, []⟩)
      overlappingRuns overlappingRuns := by
  have hrow : (reached (fun _ => none) (World.ofTimeline 0 ⟨.pending, []⟩)
      overlappingRuns).delivery? 0 = some (DeliveryRow.ofTimeline 0
        ⟨.succeeded, [⟨some 200, 0, none, 0⟩]⟩) := by
    decide
  exact (terminal_absorbing _ 0 _ (fresh_ofTimeline 0) overlappingRuns _
    hrow).1 (Or.inl rfl) overlappingRuns

/-! ## The Attempt budget -/

/-- How many operator retries of the Delivery return true in a history. -/
def acceptedRetries (dateParse : String → Option Instant) (d : Uuid)
    (P : Pool Effects Thrown Unit Task World) : History → ℕ
  | [] => 0
  | e :: rest =>
      (if acceptsRetry d P.state.db e then 1 else 0) +
        acceptedRetries dateParse d ((workers dateParse).apply P e) rest

theorem acceptedRetries_append (dateParse : String → Option Instant)
    (d : Uuid) (P : Pool Effects Thrown Unit Task World)
    (first second : History) :
    acceptedRetries dateParse d P (first ++ second) =
      acceptedRetries dateParse d P first +
        acceptedRetries dateParse d ((workers dateParse).exec P first)
          second := by
  induction first generalizing P with
  | nil => simp [acceptedRetries]
  | cons e rest ih =>
      rw [List.cons_append, acceptedRetries, acceptedRetries, ih,
        System.exec_cons, Nat.add_assoc]

/-- A history in which every run of the Delivery is allowed `M` Attempts. -/
def Budgeted (d : Uuid) (M : ℕ) (history : History) : Prop :=
  ∀ deps, .start ⟨deps, d⟩ ∈ history → deps.maxAttempts = M

namespace Regime

/-- The regime of a fixed Attempt budget. -/
def fixed (M : ℕ) : Regime := ⟨{M}, True, True⟩

theorem admissible_fixed {d : Uuid} {M : ℕ} {history : History}
    (hbudget : Budgeted d M history)
    (dateParse : String → Option Instant)
    (P : Pool Effects Thrown Unit Task World) :
    (workers dateParse).AdmissibleRun ((fixed M).discipline d)
      ((fixed M).Startable d) ((fixed M).Occurs d) P history := by
  apply System.AdmissibleRun.of_forall_mem
  intro e he Q
  cases e with
  | start task =>
      intro hid
      subst hid
      exact hbudget task.deps he
  | step i x => exact fun _ _ _ _ _ => Or.inl trivial
  | background b => exact Or.inl trivial

end Regime

/-- The budget invariant holds along every history. -/
theorem withinBudget_reached {dateParse : String → Option Instant} {d : Uuid}
    {w : World} (hw : w.db.Fresh d) {M : ℕ} (hM : 1 ≤ M) {history : History}
    (hbudget : Budgeted d M history) {t : Timeline}
    (ht : (reached dateParse w history).timeline? d = some t) :
    WithinBudget M (acceptedRetries dateParse d (Pool.idle w) history) t := by
  let motive : History → Prop := fun events =>
    ∀ t, (reached dateParse w events).timeline? d = some t →
      WithinBudget M (acceptedRetries dateParse d (Pool.idle w) events) t
  refine (((Regime.fixed M).workers_uphold d dateParse).exec_induction
    (.idle hw.consistent) (motive := motive) ?_ ?_ history
    (Regime.admissible_fixed hbudget dateParse _)).2 t ht
  · intro u hu
    have hfresh : w.db.timeline? d = some u := hu
    rw [hw.timeline?_eq] at hfresh
    cases hfresh
    simpa [WithinBudget, acceptedRetries] using Nat.lt_of_lt_of_le one_pos hM
  · intro events e _ _ htrans ih u hu
    have hcount : acceptedRetries dateParse d (Pool.idle w) (events ++ [e]) =
        acceptedRetries dateParse d (Pool.idle w) events +
          if acceptsRetry d (reached dateParse w events) e then 1 else 0 := by
      rw [acceptedRetries_append]
      rfl
    rw [hcount]
    rcases Regime.timeline?_event_cases _ d htrans with
      ⟨haccepts, v, v', hv, hv', hreopens⟩ |
        ⟨hrefused, ⟨_, hnone⟩ | hchange⟩
    · have heq : u = v' := Option.some.inj (hu.symm.trans hv')
      rw [show acceptsRetry d (reached dateParse w events) e = true
        from haccepts, heq]
      exact (ih v hv).reopens hreopens
    · have hgone : (none : Option Timeline) = some u := hnone.symm.trans hu
      cases hgone
    · rw [show acceptsRetry d (reached dateParse w events) e = false
        from hrefused]
      have hwork : Change {M} ((reached dateParse w events).timeline? d)
          (some u) := by
        rw [← hu]
        exact hchange
      generalize hold : (reached dateParse w events).timeline? d = old
        at hwork
      cases hwork with
      | stay => exact ih u hold
      | work h => exact (ih _ hold).workerStep h

/-- After an accepted retry, and until the next one, a live Delivery has the
Attempts it had then and a terminal one has one more. -/
theorem attempts_since_retry {dateParse : String → Option Instant} {d : Uuid}
    {w : World} (hw : w.db.Fresh d) {M : ℕ} (hM : 1 ≤ M)
    {before between : History} {e : Event Task Choice Background}
    (hbudget : Budgeted d M (before ++ e :: between))
    (haccepts : acceptsRetry d (reached dateParse w before) e = true)
    (hnone : acceptedRetries dateParse d (after dateParse w (before ++ [e]))
      between = 0) {row row' : DeliveryRow}
    (hrow : (reached dateParse w before).delivery? d = some row)
    (hrow' : (reached dateParse w (before ++ e :: between)).delivery? d =
      some row') :
    (row'.status.Live → row'.attemptCount = row.attemptCount) ∧
      (row'.status.Terminal → row'.attemptCount = row.attemptCount + 1) := by
  have hbefore : Budgeted d M before :=
    fun deps h => hbudget deps (List.mem_append_left _ h)
  set retries := acceptedRetries dateParse d (Pool.idle w) before with hretries
  have hcount : acceptedRetries dateParse d (Pool.idle w)
      (before ++ e :: between) = retries + 1 := by
    rw [acceptedRetries_append, ← hretries, acceptedRetries,
      show acceptsRetry d (((workers dateParse).exec (Pool.idle w)
        before).state.db) e = true from haccepts, ← System.exec_concat]
    rw [after] at hnone
    rw [hnone, if_pos rfl]
  have hlength := (consistent_reached dateParse hw before row hrow).length_eq
  have hlength' := (consistent_reached dateParse hw _ row' hrow').length_eq
  have hdead : row.status = .deadLettered := by
    obtain ⟨updatedAt, _, htrue⟩ := acceptsRetry_eq_true_iff.mp haccepts
    obtain ⟨row₀, hrow₀, hstatus⟩ := moveStatus_result_iff.mp htrue
    rwa [show row = row₀ from Option.some.inj (hrow.symm.trans hrow₀)]
  have hbudget₀ := withinBudget_reached hw hM hbefore
    (Database.timeline?_eq_some hrow)
  have hbudget₁ := withinBudget_reached hw hM hbudget
    (Database.timeline?_eq_some hrow')
  rw [hcount] at hbudget₁
  have hstart : row.attemptCount = M + retries := by
    simpa [WithinBudget, hdead, hlength] using hbudget₀
  constructor
  · intro hlive
    have hcount' := hbudget₁.of_live hlive
    rw [if_neg (by omega), DeliveryRow.timeline_outcomes, List.length_map,
      hlength'] at hcount'
    omega
  · intro hterminal
    have hcount' := hbudget₁.of_terminal
      (DeliveryStatus.terminal_iff_not_live.mp hterminal) (by omega)
    rw [DeliveryRow.timeline_outcomes, List.length_map, hlength'] at hcount'
    omega

/-- A history keeps to a budget of `M` Attempts: at most `M` plus one for each
accepted retry, fewer than `M` while the Delivery is live and was never
retried, and exactly one for an accepted retry, recorded before the Delivery is
terminal again and before the next retry is accepted. -/
structure KeepsBudget (dateParse : String → Option Instant) (d : Uuid)
    (w : World) (M : ℕ) (history : History) : Prop where
  bound : ∀ row, (reached dateParse w history).delivery? d = some row →
    row.attemptCount ≤ M + acceptedRetries dateParse d (Pool.idle w) history
  live_lt : ∀ row, (reached dateParse w history).delivery? d = some row →
    row.status.Live →
      acceptedRetries dateParse d (Pool.idle w) history = 0 →
        row.attemptCount < M
  one_each : ∀ before e between rest,
    history = before ++ e :: between ++ rest →
    acceptsRetry d (reached dateParse w before) e = true →
    acceptedRetries dateParse d (after dateParse w (before ++ [e]))
      between = 0 →
    ∀ row row', (reached dateParse w before).delivery? d = some row →
      (reached dateParse w (before ++ e :: between)).delivery? d =
        some row' →
      (row'.status.Live → row'.attemptCount = row.attemptCount) ∧
      (row'.status.Terminal → row'.attemptCount = row.attemptCount + 1) ∧
      ∀ e' rest', rest = e' :: rest' →
        acceptsRetry d (reached dateParse w (before ++ e :: between)) e' =
          true → row'.attemptCount = row.attemptCount + 1

theorem attempt_budget (dateParse : String → Option Instant) (d : Uuid)
    (w : World) (hw : w.db.Fresh d) (M : ℕ) (hM : 1 ≤ M) (history : History)
    (hbudget : Budgeted d M history) :
    KeepsBudget dateParse d w M history := by
  have hcons := consistent_reached dateParse hw history
  constructor
  · intro row hrow
    have hwithin := withinBudget_reached hw hM hbudget
      (Database.timeline?_eq_some hrow)
    simpa [(hcons row hrow).length_eq] using hwithin.length_le
  · intro row hrow hlive hretries
    have hwithin := withinBudget_reached hw hM hbudget
      (Database.timeline?_eq_some hrow)
    simpa [(hcons row hrow).length_eq, hretries] using hwithin.of_live hlive
  · rintro before e between rest rfl haccepts hnone row row' hrow hrow'
    have hbudget' : Budgeted d M (before ++ e :: between) :=
      fun deps h => hbudget deps (List.mem_append_left _ h)
    obtain ⟨hlive, hterminal⟩ :=
      attempts_since_retry hw hM hbudget' haccepts hnone hrow hrow'
    refine ⟨hlive, hterminal, ?_⟩
    intro e' rest' _ haccepts'
    apply hterminal
    obtain ⟨updatedAt, _, htrue⟩ := acceptsRetry_eq_true_iff.mp haccepts'
    obtain ⟨row₀, hrow₀, hstatus⟩ := moveStatus_result_iff.mp htrue
    rw [show row' = row₀ from Option.some.inj (hrow'.symm.trans hrow₀)]
    exact Or.inr (Or.inr hstatus)

/-- A run that exhausts a budget of one, an operator retry, and the run that it
buys; the Endpoint answers `500` throughout. -/
def retriedRuns : History :=
  let task : Task :=
    ⟨{ defaultTimeoutMs := 1000, maxAttempts? := some 1 }, 0⟩
  let refused : Choice := { reply := .response 500 none }
  .start task :: List.replicate 12 (.step 0 refused) ++
    .background (.retry 0 0) :: .start task ::
      List.replicate 12 (.step 1 refused)

theorem attempt_budget_retried :
    KeepsBudget (fun _ => none) 0 (World.ofTimeline 0 ⟨.pending, []⟩) 1
      retriedRuns := by
  apply attempt_budget _ 0 _ (fresh_ofTimeline 0) 1 (le_refl 1)
  intro deps hdeps
  have htask : deps = { defaultTimeoutMs := 1000, maxAttempts? := some 1 } := by
    simpa [retriedRuns] using hdeps
  rw [htask]
  rfl

example : ((reached (fun _ => none) (World.ofTimeline 0 ⟨.pending, []⟩)
    retriedRuns).delivery? 0).map DeliveryRow.progress =
      some ⟨.deadLettered, 2, some 500, some 0, none⟩ := by decide

end WebhookBroadcast
