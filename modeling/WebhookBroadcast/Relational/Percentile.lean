import Mathlib.Algebra.Order.Field.Rat
import Mathlib.Data.List.Sort
import Mathlib.Data.Rat.Floor
import Mathlib.Tactic.Linarith

/-!
# Continuous percentiles

`percentile_cont` of SQL: a place in the sorted values, and between two places
the point in between.  Whatever the values are, the percentile leaves few of
them above and few below it.

The values are exact; the rounding of a double is not modelled.
-/

namespace Relational

/-- Where a fraction of the way through `count` values ends, counted from
zero. -/
def percentilePlace (fraction : ℚ) (count : ℕ) : ℚ := fraction * (count - 1 : ℕ)

/-- `percentile_cont(fraction) WITHIN GROUP (ORDER BY …)`; no value over no
rows. -/
def percentileCont (fraction : ℚ) (values : List ℚ) : Option ℚ :=
  let sorted := values.insertionSort (· ≤ ·)
  let place := percentilePlace fraction values.length
  match sorted[⌊place⌋₊]?, sorted[⌈place⌉₊]? with
  | some below, some above => some (below + (place - ⌊place⌋₊) * (above - below))
  | _, _ => none

/-! ## Ranks in sorted lists -/

section Ranks

variable {sorted : List ℚ} {i : ℕ} {x : ℚ}

/-- Few values exceed what is at least the one at place `i`. -/
theorem countP_gt_le (hsorted : sorted.SortedLE) (hi : i < sorted.length)
    (hx : sorted[i] ≤ x) :
    sorted.countP (x < ·) ≤ sorted.length - 1 - i := by
  have hfirst : (sorted.take (i + 1)).countP (x < ·) = 0 := by
    rw [List.countP_eq_zero]
    intro y hy
    obtain ⟨j, hj, rfl⟩ := List.mem_iff_getElem.mp hy
    rw [List.length_take] at hj
    have hle : sorted[j] ≤ sorted[i] :=
      hsorted.getElem_le_getElem_of_le (by omega)
    rw [List.getElem_take, decide_eq_true_eq]
    exact not_lt.mpr (hle.trans hx)
  calc sorted.countP (x < ·)
      = (sorted.take (i + 1)).countP (x < ·) +
          (sorted.drop (i + 1)).countP (x < ·) := by
        rw [← List.countP_append, List.take_append_drop]
    _ ≤ 0 + (sorted.drop (i + 1)).length :=
        Nat.add_le_add hfirst.le List.countP_le_length
    _ = sorted.length - 1 - i := by
        rw [List.length_drop]
        omega

/-- Few values are less than what is at most the one at place `i`. -/
theorem countP_lt_le (hsorted : sorted.SortedLE) (hi : i < sorted.length)
    (hx : x ≤ sorted[i]) : sorted.countP (· < x) ≤ i := by
  have hlast : (sorted.drop i).countP (· < x) = 0 := by
    rw [List.countP_eq_zero]
    intro y hy
    obtain ⟨j, hj, rfl⟩ := List.mem_iff_getElem.mp hy
    rw [List.length_drop] at hj
    have hle : sorted[i] ≤ sorted[i + j] :=
      hsorted.getElem_le_getElem_of_le (by omega)
    rw [List.getElem_drop, decide_eq_true_eq]
    exact not_lt.mpr (hx.trans hle)
  calc sorted.countP (· < x)
      = (sorted.take i).countP (· < x) + (sorted.drop i).countP (· < x) := by
        rw [← List.countP_append, List.take_append_drop]
    _ ≤ (sorted.take i).length + 0 :=
        Nat.add_le_add List.countP_le_length hlast.le
    _ ≤ i := List.length_take_le _ _

end Ranks

/-! ## Percentiles -/

section Percentiles

variable {fraction : ℚ} {values : List ℚ}

theorem percentilePlace_nonneg (h0 : 0 ≤ fraction) (count : ℕ) :
    0 ≤ percentilePlace fraction count := by
  rw [percentilePlace]
  positivity

theorem ceil_percentilePlace_le (h1 : fraction ≤ 1) (count : ℕ) :
    ⌈percentilePlace fraction count⌉₊ ≤ count - 1 := by
  rw [Nat.ceil_le, percentilePlace]
  exact mul_le_of_le_one_left (Nat.cast_nonneg _) h1

/-- A percentile stands between two neighbours of the sorted values. -/
theorem percentileCont_between (h0 : 0 ≤ fraction) (h1 : fraction ≤ 1)
    (hvalues : values ≠ []) :
    let sorted := values.insertionSort (· ≤ ·)
    let place := percentilePlace fraction values.length
    ∃ (hbelow : ⌊place⌋₊ < sorted.length) (habove : ⌈place⌉₊ < sorted.length)
      (x : ℚ), percentileCont fraction values = some x ∧
        sorted[⌊place⌋₊] ≤ x ∧ x ≤ sorted[⌈place⌉₊] := by
  intro sorted place
  have hlength : sorted.length = values.length :=
    List.length_insertionSort _ _
  have hpos : 0 < values.length := List.length_pos_iff.mpr hvalues
  have hceil : ⌈place⌉₊ ≤ values.length - 1 := ceil_percentilePlace_le h1 _
  have hfloor : ⌊place⌋₊ ≤ ⌈place⌉₊ := Nat.floor_le_ceil _
  have hbelow : ⌊place⌋₊ < sorted.length := by omega
  have habove : ⌈place⌉₊ < sorted.length := by omega
  have hle : sorted[⌊place⌋₊] ≤ sorted[⌈place⌉₊] :=
    List.sortedLE_insertionSort.getElem_le_getElem_of_le hfloor
  -- the part of the way between the neighbours
  have hpart0 : 0 ≤ place - ⌊place⌋₊ :=
    sub_nonneg.mpr (Nat.floor_le (percentilePlace_nonneg h0 _))
  have hpart1 : place - ⌊place⌋₊ ≤ 1 := by
    have hlt := Nat.lt_floor_add_one place
    linarith
  refine ⟨hbelow, habove,
    sorted[⌊place⌋₊] + (place - ⌊place⌋₊) * (sorted[⌈place⌉₊] - sorted[⌊place⌋₊]),
    ?_, ?_, ?_⟩
  · simp only [percentileCont]
    rw [List.getElem?_eq_getElem hbelow, List.getElem?_eq_getElem habove]
  · have hstep := mul_nonneg hpart0 (sub_nonneg.mpr hle)
    linarith
  · have hstep := mul_le_of_le_one_left (sub_nonneg.mpr hle) hpart1
    linarith

theorem percentileCont_isSome_iff (h0 : 0 ≤ fraction) (h1 : fraction ≤ 1) :
    (percentileCont fraction values).isSome ↔ values ≠ [] := by
  constructor
  · rintro hsome rfl
    cases hsome
  · intro hvalues
    obtain ⟨-, -, x, hx, -⟩ := percentileCont_between h0 h1 hvalues
    rw [hx]
    rfl

/-- What is above and what is below a percentile. -/
structure IsPercentile (fraction : ℚ) (values : List ℚ) (x : ℚ) : Prop where
  above : values.countP (x < ·) ≤
    values.length - 1 - ⌊percentilePlace fraction values.length⌋₊
  below : values.countP (· < x) ≤ ⌈percentilePlace fraction values.length⌉₊
  least : ∃ y ∈ values, y ≤ x
  greatest : ∃ y ∈ values, x ≤ y

theorem isPercentile_percentileCont (h0 : 0 ≤ fraction) (h1 : fraction ≤ 1)
    {x : ℚ} (hx : percentileCont fraction values = some x) :
    IsPercentile fraction values x := by
  have hvalues : values ≠ [] := by
    rw [← percentileCont_isSome_iff h0 h1, hx]
    rfl
  obtain ⟨hbelow, habove, x', hx', hlow, hhigh⟩ :=
    percentileCont_between h0 h1 hvalues
  obtain rfl : x = x' := Option.some.inj (hx.symm.trans hx')
  have hperm := List.perm_insertionSort (· ≤ ·) values
  refine ⟨?_, ?_, ?_, ?_⟩
  · have hcount := countP_gt_le List.sortedLE_insertionSort hbelow hlow
    rwa [hperm.countP_eq, List.length_insertionSort] at hcount
  · have hcount := countP_lt_le List.sortedLE_insertionSort habove hhigh
    rwa [hperm.countP_eq] at hcount
  · exact ⟨_, hperm.mem_iff.mp (List.getElem_mem hbelow), hlow⟩
  · exact ⟨_, hperm.mem_iff.mp (List.getElem_mem habove), hhigh⟩

end Percentiles

end Relational
