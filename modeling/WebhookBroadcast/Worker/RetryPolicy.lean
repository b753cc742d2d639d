import Mathlib.Tactic.Linarith
import Mathlib.Tactic.Positivity
import WebhookBroadcast.Action
import WebhookBroadcast.Js.Number

/-!
# Retry policy

What counts as retryable, how long to wait before the next Attempt, and how to
read a server's `Retry-After`.

`Date.parse` accepts what the JavaScript engine accepts; it is a parameter.
-/

namespace WebhookBroadcast

/-- Retry network, TLS and timeout failures (no status code), `408`, `429` and
`5xx`.  Every other status fails the Delivery immediately. -/
def isRetryableOutcome (statusCode : Option ℕ) : Bool :=
  match statusCode with
  | none => true
  | some code =>
      if code = 408 ∨ code = 429 then true
      else 500 ≤ code && code < 600

/-- Milliseconds from `now` denoted by a `Retry-After` value, or nothing when
the header is missing or unparsable. -/
def parseRetryAfterMs (dateParse : String → Option Instant)
    (headerValue : Option String) (now : Instant) : Option ℚ :=
  match headerValue with
  | none => none
  | some value =>
      if value = "" then none
      else
        match Js.Number.ofString value with
        | .finite seconds => some (max 0 (seconds * 1000))
        | _ => (dateParse value).map fun date => max 0 ((date - now : ℤ) : ℚ)

/-- The arguments of `computeBackoffDelayMs`. -/
structure BackoffInput where
  /-- The attempt number that just failed, 1-indexed. -/
  attemptNumber : ℕ
  baseMs : ℕ
  capMs : ℕ
  retryAfterMs : Option ℚ := none

/-- The exponential delay, capped. -/
def cappedDelayMs (input : BackoffInput) : ℚ :=
  let exponential : ℚ := input.baseMs * 2 ^ (input.attemptNumber - 1)
  min exponential input.capMs

/-- Exponential backoff with full jitter for a given draw. -/
def jitteredDelayMs (input : BackoffInput) (draw : Draw) : ℚ :=
  Js.round (draw.val * cappedDelayMs input)

/-- A `Retry-After` overrides the exponential computation but is capped as
well; only the exponential computation draws a random number. -/
def computeBackoffDelayMs (input : BackoffInput) : Action ℚ :=
  match input.retryAfterMs with
  | some retryAfterMs => pure (min retryAfterMs input.capMs)
  | none => do
      let draw ← random
      pure (jitteredDelayMs input draw)

/-! ## Bounds -/

theorem parseRetryAfterMs_nonneg {dateParse : String → Option Instant}
    {headerValue : Option String} {now : Instant} {retryAfterMs : ℚ}
    (h : parseRetryAfterMs dateParse headerValue now = some retryAfterMs) :
    0 ≤ retryAfterMs := by
  unfold parseRetryAfterMs at h
  split at h
  · cases h
  · split at h
    · cases h
    · split at h
      · cases h
        exact le_max_left _ _
      · rw [Option.map_eq_some_iff] at h
        obtain ⟨date, _, rfl⟩ := h
        exact le_max_left _ _

theorem cappedDelayMs_nonneg (input : BackoffInput) :
    0 ≤ cappedDelayMs input := by
  apply le_min
  · positivity
  · positivity

theorem cappedDelayMs_le_cap (input : BackoffInput) :
    cappedDelayMs input ≤ input.capMs :=
  min_le_right _ _

theorem jitteredDelayMs_nonneg (input : BackoffInput) (draw : Draw) :
    0 ≤ jitteredDelayMs input draw := by
  rw [jitteredDelayMs]
  exact_mod_cast Js.round_nonneg
    (mul_nonneg draw.2.1 (cappedDelayMs_nonneg input))

theorem jitteredDelayMs_le_cap (input : BackoffInput) (draw : Draw) :
    jitteredDelayMs input draw ≤ input.capMs := by
  have hproduct : draw.val * cappedDelayMs input ≤
      ((input.capMs : ℤ) : ℚ) := by
    calc
      draw.val * cappedDelayMs input ≤ 1 * cappedDelayMs input :=
        mul_le_mul_of_nonneg_right draw.2.2 (cappedDelayMs_nonneg input)
      _ = cappedDelayMs input := one_mul _
      _ ≤ ((input.capMs : ℤ) : ℚ) := by
        exact_mod_cast cappedDelayMs_le_cap input
  rw [jitteredDelayMs]
  exact_mod_cast Js.round_le hproduct

end WebhookBroadcast
