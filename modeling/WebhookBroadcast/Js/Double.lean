import Mathlib.Algebra.Order.Field.Power
import Mathlib.Algebra.Order.Field.Rat
import Mathlib.Algebra.Order.Floor.Ring
import Mathlib.Data.Int.Log
import Mathlib.Data.Rat.Floor
import Mathlib.Tactic.Linarith
import Mathlib.Tactic.Positivity

/-!
# Doubles

The finite doubles as rational numbers, and the rounding of the operations on
them: to the nearest double, and half-way between two to the one whose last bit
is zero.  Rounding keeps the order of numbers and leaves doubles alone.
-/

namespace Js

/-- A finite double: at most 53 bits times a power of two. -/
def IsDouble (q : ℚ) : Prop :=
  ∃ m e : ℤ, |m| < 2 ^ 53 ∧ -1074 ≤ e ∧ e ≤ 971 ∧ q = m * 2 ^ e

/-! ## To the nearest whole number -/

/-- The nearest whole number, of two the even one. -/
def roundEven (x : ℚ) : ℤ :=
  if x - ⌊x⌋ < 1 / 2 then ⌊x⌋
  else if 1 / 2 < x - ⌊x⌋ then ⌊x⌋ + 1
  else if Even ⌊x⌋ then ⌊x⌋ else ⌊x⌋ + 1

theorem floor_le_roundEven (x : ℚ) : ⌊x⌋ ≤ roundEven x := by
  unfold roundEven
  split_ifs <;> omega

theorem roundEven_le_floor_add_one (x : ℚ) : roundEven x ≤ ⌊x⌋ + 1 := by
  unfold roundEven
  split_ifs <;> omega

theorem roundEven_intCast (n : ℤ) : roundEven n = n := by
  rw [roundEven, Int.floor_intCast, sub_self, if_pos (by norm_num)]

theorem roundEven_mono {x y : ℚ} (h : x ≤ y) : roundEven x ≤ roundEven y := by
  rcases (Int.floor_le_floor h).lt_or_eq with hlt | heq
  · exact (roundEven_le_floor_add_one x).trans
      (le_trans hlt (floor_le_roundEven y))
  · unfold roundEven
    rw [← heq]
    split_ifs <;> first | omega | (exfalso; linarith)

theorem abs_roundEven_sub_le (x : ℚ) : |(roundEven x : ℚ) - x| ≤ 1 / 2 := by
  have hlow := Int.floor_le x
  have hhigh := Int.lt_floor_add_one x
  unfold roundEven
  split_ifs <;> rw [abs_le] <;> push_cast <;> constructor <;> linarith

/-! ## To the nearest double -/

/-- The exponent of the last place of a number of 53 bits. -/
def lastPlace (q : ℚ) : ℤ := max (Int.log 2 |q| - 52) (-1074)

/-- What an operation with this exact result returns, if that does not
overflow. -/
def toDouble (q : ℚ) : ℚ :=
  roundEven (q / 2 ^ lastPlace q) * 2 ^ lastPlace q

theorem toDouble_zero : toDouble 0 = 0 := by
  have hzero : roundEven 0 = 0 := roundEven_intCast 0
  rw [toDouble, zero_div, hzero, Int.cast_zero, zero_mul]

theorem toDouble_of_isDouble {q : ℚ} (h : IsDouble q) : toDouble q = q := by
  obtain ⟨m, e, hm, he, -, rfl⟩ := h
  rcases eq_or_ne m 0 with rfl | hm0
  · rw [Int.cast_zero, zero_mul, toDouble_zero]
  have hpos : (0 : ℚ) < |(m : ℚ) * 2 ^ e| := by positivity
  have hlog : Int.log 2 |(m : ℚ) * 2 ^ e| < 53 + e := by
    refine (Int.lt_zpow_iff_log_lt one_lt_two hpos).mp ?_
    have hbits : |(m : ℚ)| < 2 ^ 53 := by exact_mod_cast hm
    rw [abs_mul, abs_of_pos (show (0 : ℚ) < 2 ^ e by positivity),
      Nat.cast_ofNat, zpow_add₀ two_ne_zero]
    exact mul_lt_mul_of_pos_right (by exact_mod_cast hbits) (by positivity)
  have hplace : lastPlace (m * 2 ^ e) ≤ e := max_le (by omega) he
  obtain ⟨k, hk⟩ := Int.le.dest hplace
  have hwhole : (m : ℚ) * 2 ^ e / 2 ^ lastPlace (m * 2 ^ e) =
      (m * 2 ^ k : ℤ) := by
    have hexponent : e - lastPlace (m * 2 ^ e) = k := by omega
    rw [mul_div_assoc, ← zpow_sub₀ two_ne_zero, hexponent, zpow_natCast]
    push_cast
    rfl
  rw [toDouble, hwhole, roundEven_intCast, ← hwhole,
    div_mul_cancel₀ _ (zpow_ne_zero _ two_ne_zero)]

theorem isDouble_natCast {n : ℕ} (h : n < 2 ^ 53) : IsDouble n := by
  refine ⟨n, 0, ?_, by norm_num, by norm_num, by simp⟩
  rw [abs_of_nonneg (Int.natCast_nonneg n)]
  exact_mod_cast h

theorem toDouble_one : toDouble 1 = 1 := by
  have hone : IsDouble (1 : ℕ) := isDouble_natCast (by norm_num)
  simpa using toDouble_of_isDouble hone

/-- Rounding is off by at most half of the last place: of a number that is not
too small, one part in `2 ^ 53`. -/
theorem abs_toDouble_sub_le {q : ℚ} (h : 2 ^ (-1022 : ℤ) ≤ q) :
    |toDouble q - q| ≤ q / 2 ^ 53 := by
  have hpos : 0 < q := lt_of_lt_of_le (by positivity) h
  have hnormal : -1022 ≤ Int.log 2 q :=
    (Int.zpow_le_iff_le_log one_lt_two hpos).mp (by exact_mod_cast h)
  have hplace : lastPlace q = Int.log 2 q - 52 := by
    rw [lastPlace, abs_of_pos hpos]
    omega
  have hunit : (2 : ℚ) ^ lastPlace q ≤ q / 2 ^ 52 := by
    rw [hplace, zpow_sub₀ two_ne_zero]
    exact div_le_div_of_nonneg_right
      (by exact_mod_cast Int.zpow_log_le_self one_lt_two hpos) (by positivity)
  have hscale : (0 : ℚ) < 2 ^ lastPlace q := by positivity
  calc |toDouble q - q|
      = |(roundEven (q / 2 ^ lastPlace q) : ℚ) - q / 2 ^ lastPlace q| *
          2 ^ lastPlace q := by
        rw [← abs_of_pos hscale, ← abs_mul, abs_of_pos hscale, sub_mul,
          div_mul_cancel₀ q hscale.ne', toDouble]
    _ ≤ 1 / 2 * (q / 2 ^ 52) :=
        mul_le_mul (abs_roundEven_sub_le _) hunit hscale.le (by norm_num)
    _ = q / 2 ^ 53 := by ring

theorem toDouble_nonneg {q : ℚ} (h : 0 ≤ q) : 0 ≤ toDouble q := by
  have hround : roundEven 0 ≤ roundEven (q / 2 ^ lastPlace q) :=
    roundEven_mono (by positivity)
  have hzero : roundEven 0 = 0 := roundEven_intCast 0
  rw [hzero] at hround
  exact mul_nonneg (by exact_mod_cast hround) (by positivity)

/-- Rounding keeps the order: in one binade the multiples of the last place are
in order, and the power of two between two binades is a double. -/
theorem toDouble_mono {a b : ℚ} (ha : 0 ≤ a) (h : a ≤ b) :
    toDouble a ≤ toDouble b := by
  rcases ha.eq_or_lt with rfl | ha
  · rw [toDouble_zero]
    exact toDouble_nonneg h
  have hb := ha.trans_le h
  have hlog : Int.log 2 |a| ≤ Int.log 2 |b| := by
    rw [abs_of_pos ha, abs_of_pos hb]
    exact Int.log_mono_right ha h
  have hplaces : lastPlace a ≤ lastPlace b :=
    max_le_max (by omega) (le_refl _)
  rcases hplaces.eq_or_lt with heq | hlt
  · unfold toDouble
    rw [heq]
    refine mul_le_mul_of_nonneg_right ?_ (by positivity)
    exact_mod_cast roundEven_mono
      (div_le_div_of_nonneg_right h (by positivity))
  · have hlow : toDouble a ≤ 2 ^ (lastPlace a + 53) := by
      have hbits : a / 2 ^ lastPlace a ≤ ((2 ^ 53 : ℤ) : ℚ) := by
        rw [div_le_iff₀ (by positivity)]
        have hlt := Int.lt_zpow_succ_log_self one_lt_two a
        have hle : Int.log 2 a + 1 ≤ 53 + lastPlace a := by
          have hmax := le_max_left (Int.log 2 |a| - 52) (-1074)
          rw [abs_of_pos ha] at hmax
          unfold lastPlace
          rw [abs_of_pos ha]
          omega
        refine hlt.le.trans ((zpow_le_zpow_right₀ (by norm_num) hle).trans ?_)
        rw [Nat.cast_ofNat, zpow_add₀ two_ne_zero]
        norm_num
      have hround := roundEven_mono hbits
      rw [roundEven_intCast] at hround
      rw [toDouble, add_comm, zpow_add₀ two_ne_zero]
      refine mul_le_mul_of_nonneg_right ?_ (by positivity)
      exact_mod_cast hround
    have hhigh : 2 ^ (lastPlace b + 52) ≤ toDouble b := by
      have hplace : lastPlace b = Int.log 2 b - 52 := by
        have hge := le_max_right (Int.log 2 |a| - 52) (-1074)
        unfold lastPlace at hlt ⊢
        rw [abs_of_pos hb] at hlt ⊢
        omega
      have hbits : ((2 ^ 52 : ℤ) : ℚ) ≤ b / 2 ^ lastPlace b := by
        rw [le_div_iff₀ (by positivity)]
        have hle := Int.zpow_log_le_self one_lt_two hb
        refine le_trans (le_of_eq ?_) hle
        rw [hplace, Nat.cast_ofNat, zpow_sub₀ two_ne_zero]
        push_cast
        exact mul_div_cancel₀ _ (by positivity)
      have hround := roundEven_mono hbits
      rw [roundEven_intCast] at hround
      rw [toDouble, add_comm, zpow_add₀ two_ne_zero]
      refine mul_le_mul_of_nonneg_right ?_ (by positivity)
      exact_mod_cast hround
    exact hlow.trans ((zpow_le_zpow_right₀ (by norm_num) (by omega)).trans hhigh)

example : toDouble (toDouble (29 / 100) * 100) < 29 := by decide +kernel

end Js
