import Mathlib.Data.Set.Insert
import WebhookBroadcast.Db.Schema

/-!
# The lifecycle of a Delivery, abstractly

A timeline is what a Delivery is for the people who look at it: a status and
the outcomes of its Attempts, oldest first.  Attempt numbers, the Attempt count
and the last outcome are not stored here, they are read off the list, so that a
gap in the numbering cannot be expressed.

The worker claims, releases and records; the operator reopens a dead-lettered
timeline; retention may remove it altogether.  A recorded outcome has to come
from a live timeline, and whether it may leave the timeline pending or
dead-lettered is decided by an Attempt budget.
-/

namespace WebhookBroadcast

/-- The outcome of one Attempt. -/
structure Outcome where
  statusCode : Option ℕ
  durationMs : ℤ
  error : Option String
  at_ : Instant
deriving DecidableEq

/-- The abstract state of a Delivery. -/
structure Timeline where
  status : DeliveryStatus
  outcomes : List Outcome
deriving DecidableEq

/-- What a Delivery shows of its timeline without listing the Attempts. -/
structure Progress where
  status : DeliveryStatus
  attemptCount : ℕ
  lastStatusCode : Option ℕ
  lastDurationMs : Option ℤ
  lastError : Option String
deriving DecidableEq

namespace Timeline

def progress (t : Timeline) : Progress where
  status := t.status
  attemptCount := t.outcomes.length
  lastStatusCode := t.outcomes.getLast?.bind Outcome.statusCode
  lastDurationMs := t.outcomes.getLast?.map Outcome.durationMs
  lastError := t.outcomes.getLast?.bind Outcome.error

/-! ## Steps -/

/-- A budget of `M` Attempts leaves the `n`-th one in status `s`: a retryable
outcome stays pending below the budget and is dead-lettered from it on. -/
def BudgetAllows (M n : ℕ) : DeliveryStatus → Prop
  | .succeeded => True
  | .failed => True
  | .deadLettered => M ≤ n
  | .pending => n < M
  | .inProgress => False

/-- One step of a worker whose budget is in `B`. -/
inductive WorkerStep (B : Set ℕ) : Timeline → Timeline → Prop
  | claim {t : Timeline} (h : t.status = .pending) :
      WorkerStep B t ⟨.inProgress, t.outcomes⟩
  | release {t : Timeline} (h : t.status = .inProgress) :
      WorkerStep B t ⟨.pending, t.outcomes⟩
  | record {t : Timeline} {M : ℕ} (o : Outcome) (s : DeliveryStatus)
      (hlive : t.status.Live) (hM : M ∈ B)
      (hs : BudgetAllows M (t.outcomes.length + 1) s) :
      WorkerStep B t ⟨s, t.outcomes ++ [o]⟩

/-- An accepted operator retry. -/
inductive Reopens : Timeline → Timeline → Prop
  | reopen {t : Timeline} (h : t.status = .deadLettered) :
      Reopens t ⟨.pending, t.outcomes⟩

/-- What a worker does to a Delivery that may not exist. -/
inductive Change (B : Set ℕ) : Option Timeline → Option Timeline → Prop
  | stay (t : Option Timeline) : Change B t t
  | work {t u : Timeline} (h : WorkerStep B t u) : Change B (some t) (some u)

/-- What everybody may do to it: other workers, retention, and the operator
where `reopens` says so. -/
inductive Evolves (B : Set ℕ) (reopens : Prop) :
    Option Timeline → Option Timeline → Prop
  | change {t u : Option Timeline} (h : Change B t u) : Evolves B reopens t u
  | vanish (t : Option Timeline) : Evolves B reopens t none
  | reopen {t u : Timeline} (hreopens : reopens) (h : Reopens t u) :
      Evolves B reopens (some t) (some u)

/-- No worker step leaves a terminal timeline. -/
theorem WorkerStep.live {B : Set ℕ} {t u : Timeline}
    (h : WorkerStep B t u) : t.status.Live := by
  cases h with
  | claim h => exact Or.inl h
  | release h => exact Or.inr h
  | record o s hlive hM hs => exact hlive

/-- A terminal timeline is out of reach for workers. -/
theorem Change.eq_of_not_live {B : Set ℕ} {t : Timeline}
    {u : Option Timeline} (ht : ¬ t.status.Live) (h : Change B (some t) u) :
    u = some t := by
  cases h with
  | stay t => rfl
  | work h => exact absurd h.live ht

/-- Workers create no Delivery. -/
theorem Change.eq_none {B : Set ℕ} {u : Option Timeline}
    (h : Change B none u) : u = none := by
  cases h with
  | stay t => rfl

/-! ## Settled timelines -/

/-- The Delivery is gone, or its lifecycle is over. -/
def Settled (t : Option Timeline) : Prop :=
  ∀ u, t = some u → ¬ u.status.Live

theorem settled_none : Settled none := fun _ h => by cases h

theorem settled_some {t : Timeline} :
    Settled (some t) ↔ ¬ t.status.Live := by
  simp [Settled]

/-- Unless the operator intervenes, a settled timeline stays settled. -/
theorem Settled.evolves {B : Set ℕ} {reopens : Prop} {t u : Option Timeline}
    (hreopens : ¬ reopens) (ht : Settled t) (h : Evolves B reopens t u) :
    Settled u := by
  cases h with
  | change h =>
      cases h with
      | stay t => exact ht
      | work h => exact absurd h.live (settled_some.mp ht)
  | vanish t => exact settled_none
  | reopen h _ => exact absurd h hreopens

/-! ## Stale readers -/

/-- What a reader that saw `count` outcomes on a live timeline knows later:
more outcomes have been recorded, or the timeline is still live. -/
def Behind (count : ℕ) (t : Option Timeline) : Prop :=
  ∀ u, t = some u → count < u.outcomes.length ∨
    (count = u.outcomes.length ∧ u.status.Live)

theorem Behind.workerStep {B : Set ℕ} {count : ℕ} {t u : Timeline}
    (ht : Behind count (some t)) (h : WorkerStep B t u) :
    Behind count (some u) := by
  have hcount := ht t rfl
  intro v hv
  cases hv
  cases h with
  | claim h => simpa [h] using hcount
  | release h => simpa [h] using hcount
  | record o s hlive hM hs =>
      left
      change count < (t.outcomes ++ [o]).length
      rw [List.length_append, List.length_singleton]
      omega

theorem Behind.reopens {count : ℕ} {t u : Timeline}
    (ht : Behind count (some t)) (h : Reopens t u) :
    Behind count (some u) := by
  intro v hv
  cases hv
  cases h with
  | reopen h =>
      left
      rcases ht _ rfl with hlt | ⟨_, hlive⟩
      · exact hlt
      · rw [h] at hlive
        exact absurd hlive DeliveryStatus.not_live_deadLettered

theorem Behind.evolves {B : Set ℕ} {reopens : Prop} {count : ℕ}
    {t u : Option Timeline} (ht : Behind count t)
    (h : Evolves B reopens t u) : Behind count u := by
  cases h with
  | change h =>
      cases h with
      | stay t => exact ht
      | work h => exact ht.workerStep h
  | vanish t => exact fun _ h => by cases h
  | reopen _ h => exact ht.reopens h

/-! ## The Attempt budget -/

/-- How status and number of outcomes relate under a fixed budget `M` after
`retries` accepted operator retries. -/
def WithinBudget (M retries : ℕ) (t : Timeline) : Prop :=
  match t.status with
  | .pending | .inProgress =>
      if retries = 0 then t.outcomes.length < M
      else t.outcomes.length + 1 = M + retries
  | .deadLettered => t.outcomes.length = M + retries
  | .succeeded | .failed =>
      if retries = 0 then t.outcomes.length ≤ M
      else t.outcomes.length = M + retries

theorem WithinBudget.of_live {M retries : ℕ} {t : Timeline}
    (ht : WithinBudget M retries t) (hlive : t.status.Live) :
    if retries = 0 then t.outcomes.length < M
    else t.outcomes.length + 1 = M + retries := by
  rcases hlive with h | h <;> simpa [WithinBudget, h] using ht

theorem WithinBudget.of_terminal {M retries : ℕ} {t : Timeline}
    (ht : WithinBudget M retries t) (hterm : ¬ t.status.Live)
    (hretries : retries ≠ 0) : t.outcomes.length = M + retries := by
  rcases DeliveryStatus.terminal_iff_not_live.mpr hterm with h | h | h <;>
    simpa [WithinBudget, h, hretries] using ht

theorem WithinBudget.length_le {M retries : ℕ} {t : Timeline}
    (ht : WithinBudget M retries t) :
    t.outcomes.length ≤ M + retries := by
  unfold WithinBudget at ht
  split at ht
  · split at ht <;> omega
  · split at ht <;> omega
  · omega
  · split at ht <;> omega
  · split at ht <;> omega

theorem WithinBudget.workerStep {M retries : ℕ} {t u : Timeline}
    (ht : WithinBudget M retries t) (h : WorkerStep {M} t u) :
    WithinBudget M retries u := by
  have hcount := ht.of_live h.live
  cases h with
  | claim h => simpa [WithinBudget] using hcount
  | release h => simpa [WithinBudget] using hcount
  | record o s hlive hM hs =>
      rw [Set.mem_singleton_iff] at hM
      subst hM
      cases s with
      | pending =>
          simp only [BudgetAllows] at hs
          simp only [WithinBudget, List.length_append, List.length_singleton]
          split at hcount
          next h0 => simpa [h0] using hs
          next h0 => omega
      | inProgress => exact absurd hs (by simp [BudgetAllows])
      | succeeded =>
          simp only [WithinBudget, List.length_append, List.length_singleton]
          split at hcount
          next h0 => simpa [h0] using Nat.succ_le_of_lt hcount
          next h0 => simpa [h0] using hcount
      | failed =>
          simp only [WithinBudget, List.length_append, List.length_singleton]
          split at hcount
          next h0 => simpa [h0] using Nat.succ_le_of_lt hcount
          next h0 => simpa [h0] using hcount
      | deadLettered =>
          simp only [BudgetAllows] at hs
          simp only [WithinBudget, List.length_append, List.length_singleton]
          split at hcount
          next h0 => omega
          next h0 => omega

/-- An accepted retry uses up one unit of the extended budget. -/
theorem WithinBudget.reopens {M retries : ℕ} {t u : Timeline}
    (ht : WithinBudget M retries t) (h : Reopens t u) :
    WithinBudget M (retries + 1) u := by
  cases h with
  | reopen h =>
      simp only [WithinBudget, h] at ht
      simp [WithinBudget, ht]
      omega

end Timeline

end WebhookBroadcast
