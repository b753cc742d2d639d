import WebhookBroadcast.Worker.ProcessDelivery

/-!
# Retry-After and its grammar

`Retry-After` is a number of seconds in decimal digits or a date.  The code asks
JavaScript's `Number` instead, which reads more than digits and gives up on very
many of them; the header is read by its grammar exactly as long as neither
happens.
-/

namespace WebhookBroadcast

open Interaction

/-! ## The grammar -/

/-- `delay-seconds`: decimal digits, white space around them aside. -/
def delaySeconds? (value : String) : Option ℕ :=
  let digits := Js.trimChars value.toList
  if digits ≠ [] ∧ digits.all Char.isDigit then
    some (Js.digitsValue 10 digits)
  else none

/-- What the header asks for, in milliseconds from `now`. -/
def grammarMs? (dateParse : String → Option Instant) (value : String)
    (now : Instant) : Option ℚ :=
  match delaySeconds? value with
  | some seconds => some (1000 * seconds)
  | none => (dateParse value).map fun date => max 0 ((date - now : ℤ) : ℚ)

/-- The delay that the header leads to. -/
def grammarDelay (dateParse : String → Option Instant) (value : String)
    (now : Instant) (input : BackoffInput) (draw : Draw) : ℚ :=
  match grammarMs? dateParse value now with
  | some ms => min ms input.capMs
  | none => jitteredDelayMs input draw

/-! ## The code -/

/-- How `processDelivery` gets from the header of a retryable response to the
delay before the next Attempt. -/
def retryDelay (dateParse : String → Option Instant) (status : ℕ)
    (retryAfter : Option String) (attemptNumber baseMs capMs : ℕ) :
    Action ℚ := do
  let retryAfterMs ← readRetryAfterMs dateParse status retryAfter
  computeBackoffDelayMs { attemptNumber, baseMs, capMs, retryAfterMs }

/-- The delay after this header, on whatever the clock says and whatever is
drawn, is that of the grammar, and lies within the cap. -/
structure ReadByGrammar (dateParse : String → Option Instant)
    (value : String) : Prop where
  delay : ∀ status, status = 429 ∨ status = 503 →
    ∀ attemptNumber baseMs capMs x w,
      (retryDelay dateParse status (some value) attemptNumber baseMs
          capMs).eval perform (fun _ => x) 0 w =
        (.ok (grammarDelay dateParse value x.time
          { attemptNumber, baseMs, capMs } x.draw), w)
  bounded : ∀ status attemptNumber baseMs capMs x w delay,
    ((retryDelay dateParse status (some value) attemptNumber baseMs
        capMs).eval perform (fun _ => x) 0 w).1 = .ok delay →
      0 ≤ delay ∧ delay ≤ capMs

/-- Digits that denote too much for a double, or no digits and yet a number; or
the empty value, should it be a date. -/
def Misread (dateParse : String → Option Instant) (value : String) : Prop :=
  match delaySeconds? value with
  | some seconds => Js.overflowBound ≤ seconds
  | none =>
      if value = "" then ∃ date, dateParse value = some date
      else ∃ q, Js.Number.ofString value = .finite q

namespace RetryAfter

/-! ## What the code makes of a value -/

variable {dateParse : String → Option Instant} {value : String}

theorem delaySeconds?_eq_some {seconds : ℕ}
    (h : delaySeconds? value = some seconds) :
    Js.Number.ofString value = .ofRat seconds ∧ value ≠ "" := by
  unfold delaySeconds? at h
  dsimp only at h
  split at h
  next hdigits =>
    cases h
    refine ⟨?_, ?_⟩
    · rw [Js.Number.ofString]
      exact Js.literalNumber_of_digits hdigits.1
        (List.all_eq_true.mp hdigits.2)
    · rintro rfl
      exact hdigits.1 rfl
  next => cases h

theorem parseRetryAfterMs_of_finite (hempty : value ≠ "") {q : ℚ}
    (hq : Js.Number.ofString value = .finite q) (now : Instant) :
    parseRetryAfterMs dateParse (some value) now = some (max 0 (q * 1000)) := by
  simp [parseRetryAfterMs, hempty, hq]

/-- Digits within the range of a double are read as such. -/
theorem parseRetryAfterMs_of_seconds {seconds : ℕ}
    (h : delaySeconds? value = some seconds)
    (hrange : (seconds : ℚ) < Js.overflowBound) (now : Instant) :
    parseRetryAfterMs dateParse (some value) now =
      some (1000 * (seconds : ℚ)) := by
  obtain ⟨hnumber, hempty⟩ := delaySeconds?_eq_some h
  have hbound : (0 : ℚ) < Js.overflowBound :=
    sub_pos.mpr (pow_lt_pow_right₀ one_lt_two (by norm_num))
  have hseconds : (0 : ℚ) ≤ seconds := Nat.cast_nonneg seconds
  have hfinite : Js.Number.ofString value = .finite seconds := by
    rw [hnumber, Js.Number.ofRat, if_neg (not_le.mpr hrange),
      if_neg (not_le.mpr (by linarith))]
  rw [parseRetryAfterMs_of_finite hempty hfinite,
    max_eq_right (by positivity), mul_comm]

/-- What `Number` does not read, the code takes for a date. -/
theorem parseRetryAfterMs_of_not_finite (hempty : value ≠ "")
    (hfinite : ∀ q, Js.Number.ofString value ≠ .finite q) (now : Instant) :
    parseRetryAfterMs dateParse (some value) now =
      (dateParse value).map fun date => max 0 ((date - now : ℤ) : ℚ) := by
  cases h : Js.Number.ofString value with
  | finite q => exact absurd h (hfinite q)
  | infinite negative => simp [parseRetryAfterMs, hempty, h]
  | nan => simp [parseRetryAfterMs, hempty, h]

/-- Past the range of a double the digits are not a finite number. -/
theorem not_finite_of_overflow {seconds : ℕ}
    (h : delaySeconds? value = some seconds)
    (hrange : Js.overflowBound ≤ seconds) (q : ℚ) :
    Js.Number.ofString value ≠ .finite q := by
  rw [(delaySeconds?_eq_some h).1, Js.Number.ofRat, if_pos hrange]
  simp

/-! ## The delay -/

/-- The delay for a given reading of the header. -/
def delayOf (retryAfterMs : Option ℚ) (input : BackoffInput) (draw : Draw) :
    ℚ :=
  match retryAfterMs with
  | some ms => min ms input.capMs
  | none => jitteredDelayMs input draw

theorem eval_retryDelay {status : ℕ} (hstatus : status = 429 ∨ status = 503)
    (retryAfter : Option String) (attemptNumber baseMs capMs : ℕ) (x : Choice)
    (w : World) :
    (retryDelay dateParse status retryAfter attemptNumber baseMs capMs).eval
        perform (fun _ => x) 0 w =
      (.ok (delayOf (parseRetryAfterMs dateParse retryAfter x.time)
        { attemptNumber, baseMs, capMs } x.draw), w) := by
  unfold retryDelay readRetryAfterMs
  rw [if_pos hstatus]
  change (computeBackoffDelayMs { attemptNumber, baseMs, capMs
                                  retryAfterMs := parseRetryAfterMs dateParse
                                    retryAfter x.time }).eval perform _ 1 w = _
  cases parseRetryAfterMs dateParse retryAfter x.time with
  | none => rfl
  | some ms => rfl

theorem eval_retryDelay_other {status : ℕ}
    (hstatus : ¬(status = 429 ∨ status = 503)) (retryAfter : Option String)
    (attemptNumber baseMs capMs : ℕ) (x : Choice) (w : World) :
    (retryDelay dateParse status retryAfter attemptNumber baseMs capMs).eval
        perform (fun _ => x) 0 w =
      (.ok (delayOf none { attemptNumber, baseMs, capMs } x.draw), w) := by
  unfold retryDelay readRetryAfterMs
  rw [if_neg hstatus]
  rfl

theorem delayOf_bounds {retryAfterMs : Option ℚ}
    (h : ∀ ms, retryAfterMs = some ms → 0 ≤ ms) (input : BackoffInput)
    (draw : Draw) :
    0 ≤ delayOf retryAfterMs input draw ∧
      delayOf retryAfterMs input draw ≤ input.capMs := by
  cases retryAfterMs with
  | none => exact ⟨jitteredDelayMs_nonneg input draw,
      jitteredDelayMs_le_cap input draw⟩
  | some ms => exact ⟨le_min (h ms rfl) (Nat.cast_nonneg _), min_le_right _ _⟩

/-- Whatever the header says, the delay lies within the cap. -/
theorem retryDelay_bounds (status : ℕ) (retryAfter : Option String)
    (attemptNumber baseMs capMs : ℕ) (x : Choice) (w : World) {delay : ℚ}
    (h : ((retryDelay dateParse status retryAfter attemptNumber baseMs
      capMs).eval perform (fun _ => x) 0 w).1 = .ok delay) :
    0 ≤ delay ∧ delay ≤ capMs := by
  by_cases hstatus : status = 429 ∨ status = 503
  · rw [eval_retryDelay hstatus] at h
    cases h
    exact delayOf_bounds (fun ms hms => parseRetryAfterMs_nonneg hms) _ _
  · rw [eval_retryDelay_other hstatus] at h
    cases h
    exact delayOf_bounds (fun ms hms => by cases hms) _ _

/-! ## When the two agree -/

theorem parseRetryAfterMs_eq_grammarMs? (h : ¬ Misread dateParse value)
    (now : Instant) :
    parseRetryAfterMs dateParse (some value) now =
      grammarMs? dateParse value now := by
  unfold Misread at h
  unfold grammarMs?
  cases hseconds : delaySeconds? value with
  | some seconds =>
      rw [hseconds] at h
      exact parseRetryAfterMs_of_seconds hseconds (not_le.mp h) now
  | none =>
      rw [hseconds] at h
      by_cases hempty : value = ""
      · dsimp only at h
        rw [if_pos hempty] at h
        have hdate : dateParse value = none :=
          Option.eq_none_iff_forall_not_mem.mpr fun date hdate =>
            h ⟨date, hdate⟩
        simp [parseRetryAfterMs, hempty, hempty ▸ hdate]
      · dsimp only at h
        rw [if_neg hempty] at h
        exact parseRetryAfterMs_of_not_finite hempty
          (fun q hq => h ⟨q, hq⟩) now

/-! ## When they do not

A first Attempt with a base delay and a cap of one millisecond is enough to
tell them apart. -/

/-- The first Attempt, one millisecond at most. -/
def oneMs : BackoffInput where
  attemptNumber := 1
  baseMs := 1
  capMs := 1

def Draw.one : Draw := ⟨1, zero_le_one, le_refl 1⟩

theorem delayOf_none_zero : delayOf none oneMs Draw.zero = 0 := by
  decide +kernel

theorem delayOf_none_one : delayOf none oneMs Draw.one = 1 := by
  decide +kernel

/-- A date is past, and what is no date may draw nothing. -/
theorem exists_date_delay_zero (o : Option Instant) :
    ∃ (now : Instant) (draw : Draw),
      delayOf (o.map fun date => max 0 ((date - now : ℤ) : ℚ)) oneMs draw =
        0 := by
  cases o with
  | none => exact ⟨0, Draw.zero, delayOf_none_zero⟩
  | some date => exact ⟨date, Draw.zero, by simp [delayOf]⟩

/-- A date is yet to come, and what is no date may draw everything. -/
theorem exists_date_delay_one (o : Option Instant) :
    ∃ (now : Instant) (draw : Draw),
      delayOf (o.map fun date => max 0 ((date - now : ℤ) : ℚ)) oneMs draw =
        1 := by
  cases o with
  | none => exact ⟨0, Draw.one, delayOf_none_one⟩
  | some date => exact ⟨date - 1, Draw.zero, by simp [delayOf, oneMs]⟩

theorem exists_delay_ne (h : Misread dateParse value) :
    ∃ (now : Instant) (draw : Draw),
      delayOf (parseRetryAfterMs dateParse (some value) now) oneMs draw ≠
        grammarDelay dateParse value now oneMs draw := by
  unfold Misread at h
  unfold grammarDelay grammarMs?
  cases hseconds : delaySeconds? value with
  | some seconds =>
      rw [hseconds] at h
      -- the code takes the digits for a date
      obtain ⟨now, draw, hzero⟩ := exists_date_delay_zero (dateParse value)
      refine ⟨now, draw, ?_⟩
      rw [parseRetryAfterMs_of_not_finite (delaySeconds?_eq_some hseconds).2
        (not_finite_of_overflow hseconds h), hzero]
      have hlarge : (1 : ℚ) ≤ 1000 * seconds := by
        have : (1 : ℚ) ≤ Js.overflowBound := by decide +kernel
        dsimp only at h
        linarith
      simp [oneMs, min_eq_right hlarge]
  | none =>
      rw [hseconds] at h
      dsimp only at h ⊢
      split at h
      next hempty =>
        -- the code does not ask whether the empty value is a date
        obtain ⟨date, hdate⟩ := h
        refine ⟨date - 1, Draw.zero, ?_⟩
        have hnone : parseRetryAfterMs dateParse (some value) (date - 1) =
            none := by
          simp [parseRetryAfterMs, hempty]
        rw [hnone, hdate, delayOf_none_zero]
        simp [oneMs]
      next hempty =>
        obtain ⟨q, hq⟩ := h
        by_cases hsign : q ≤ 0
        · -- the code does not wait at all
          obtain ⟨now, draw, hone⟩ := exists_date_delay_one (dateParse value)
          refine ⟨now, draw, ?_⟩
          have hcode : delayOf (some (max 0 (q * 1000))) oneMs draw = 0 := by
            rw [max_eq_left (by linarith)]
            simp [delayOf]
          rw [parseRetryAfterMs_of_finite hempty hq, hcode]
          change 0 ≠ delayOf _ oneMs draw
          rw [hone]
          exact zero_ne_one
        · -- the code does wait
          obtain ⟨now, draw, hzero⟩ := exists_date_delay_zero (dateParse value)
          refine ⟨now, draw, ?_⟩
          have hcode : 0 < delayOf (some (max 0 (q * 1000))) oneMs draw := by
            have hpos : 0 < q := not_le.mp hsign
            have hmax : 0 < max 0 (q * 1000) :=
              lt_max_of_lt_right (by positivity)
            exact lt_min hmax (by simp [oneMs])
          rw [parseRetryAfterMs_of_finite hempty hq]
          change _ ≠ delayOf _ oneMs draw
          rw [hzero]
          exact ne_of_gt hcode

end RetryAfter

open RetryAfter

/-- The header is read by its grammar unless it is a number that is not digits,
or more digits than a double can hold. -/
theorem readByGrammar_iff (dateParse : String → Option Instant)
    (value : String) :
    ReadByGrammar dateParse value ↔ ¬ Misread dateParse value := by
  constructor
  · intro hread hmisread
    obtain ⟨now, draw, hne⟩ := exists_delay_ne hmisread
    have hdelay := hread.delay 429 (Or.inl rfl) 1 1 1
      { time := now, draw := draw } ⟨.empty, fun _ => none⟩
    rw [eval_retryDelay (Or.inl rfl)] at hdelay
    exact hne (Except.ok.inj (Prod.mk.inj hdelay).1)
  · intro h
    refine ⟨?_, ?_⟩
    · intro status hstatus attemptNumber baseMs capMs x w
      rw [eval_retryDelay hstatus, parseRetryAfterMs_eq_grammarMs? h]
      rfl
    · intro status attemptNumber baseMs capMs x w delay hdelay
      exact retryDelay_bounds status _ attemptNumber baseMs capMs x w hdelay

/-- A hexadecimal number is taken for seconds. -/
theorem not_readByGrammar_hexadecimal :
    ¬ ReadByGrammar (fun _ => none) "0x10" := by
  intro hread
  have hdelay := hread.delay 429 (Or.inl rfl) 1 1000 300000 {}
    ⟨.empty, fun _ => none⟩
  rw [eval_retryDelay (Or.inl rfl)] at hdelay
  revert hdelay
  simp only [Prod.mk.injEq, Except.ok.injEq, and_true, imp_false]
  decide +kernel

end WebhookBroadcast
