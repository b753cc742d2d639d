import Mathlib.Algebra.GroupWithZero.Nat
import Mathlib.Data.List.Dedup

/-!
# Grouping

`GROUP BY` over a list of rows: for each key that occurs, the rows with that
key.  A count over all rows is the sum of the counts over the groups.
-/

namespace Relational

variable {ρ κ : Type} [DecidableEq κ]

/-- The rows of each key that occurs. -/
def groupBy (key : ρ → κ) (rows : List ρ) : List (κ × List ρ) :=
  (rows.map key).dedup.map fun k => (k, rows.filter fun r => key r = k)

variable {key : ρ → κ} {rows : List ρ}

theorem map_fst_groupBy :
    (groupBy key rows).map Prod.fst = (rows.map key).dedup := by
  rw [groupBy, List.map_map]
  exact List.map_id _

/-- Each key has one group. -/
theorem nodup_groupBy : ((groupBy key rows).map Prod.fst).Nodup := by
  rw [map_fst_groupBy]
  exact List.nodup_dedup _

theorem mem_groupBy {g : κ × List ρ} :
    g ∈ groupBy key rows ↔
      (∃ r ∈ rows, key r = g.1) ∧ g.2 = rows.filter fun r => key r = g.1 := by
  rw [groupBy, List.mem_map]
  constructor
  · rintro ⟨k, hk, rfl⟩
    exact ⟨List.mem_map.mp (List.mem_dedup.mp hk), rfl⟩
  · rintro ⟨hk, hrows⟩
    refine ⟨g.1, List.mem_dedup.mpr (List.mem_map.mpr hk), ?_⟩
    rw [← hrows]

/-- No group is empty. -/
theorem exists_of_mem_groupBy {g : κ × List ρ} (hg : g ∈ groupBy key rows) :
    ∃ r ∈ g.2, r ∈ rows ∧ key r = g.1 := by
  obtain ⟨⟨r, hr, hkey⟩, hrows⟩ := mem_groupBy.mp hg
  refine ⟨r, ?_, hr, hkey⟩
  rw [hrows]
  simpa using ⟨hr, hkey⟩

/-- The group of a key, none if no row has it. -/
theorem lookup_groupBy (k : κ) :
    (groupBy key rows).lookup k =
      if k ∈ rows.map key then some (rows.filter fun r => key r = k)
      else none := by
  rw [groupBy]
  have hlookup (ks : List κ) :
      (ks.map fun k => (k, rows.filter fun r => key r = k)).lookup k =
        if k ∈ ks then some (rows.filter fun r => key r = k) else none := by
    induction ks with
    | nil => rfl
    | cons k' ks ih =>
        rw [List.map_cons, List.lookup_cons, ih]
        by_cases hk : k = k'
        · subst hk
          simp
        · rw [beq_eq_false_iff_ne.mpr hk]
          simp [hk]
  rw [hlookup]
  simp only [List.mem_dedup]

theorem lookup_map {α β : Type} (f : κ → α → β) (entries : List (κ × α))
    (k : κ) :
    (entries.map fun g => (g.1, f g.1 g.2)).lookup k =
      (entries.lookup k).map (f k) := by
  induction entries with
  | nil => rfl
  | cons g entries ih =>
      rw [List.map_cons, List.lookup_cons, List.lookup_cons, ih]
      cases hk : k == g.1 with
      | false => rfl
      | true => rw [Option.map_some, eq_of_beq hk]

/-- The aggregate of a key that is asked for, none if it has no rows. -/
theorem lookup_map_groupBy {β : Type} (f : List ρ → β) (p : ρ → Bool)
    (rows : List ρ) {k : κ} {ks : List κ} (hk : k ∈ ks) :
    ((groupBy key (rows.filter fun r => key r ∈ ks && p r)).map
        fun g => (g.1, f g.2)).lookup k =
      if (rows.filter fun r => key r = k && p r) = [] then none
      else some (f (rows.filter fun r => key r = k && p r)) := by
  have hrows : (rows.filter fun r => key r ∈ ks && p r).filter
      (fun r => key r = k) = rows.filter fun r => key r = k && p r := by
    rw [List.filter_filter]
    apply List.filter_congr
    intro r _
    by_cases hr : key r = k
    · simp [hr, hk]
    · simp [hr]
  have hlookup (entries : List (κ × List ρ)) :
      (entries.map fun g => (g.1, f g.2)).lookup k =
        (entries.lookup k).map f := by
    induction entries with
    | nil => rfl
    | cons g entries ih =>
        rw [List.map_cons, List.lookup_cons, List.lookup_cons, ih]
        cases k == g.1 <;> rfl
  rw [hlookup, lookup_groupBy, hrows]
  split
  next hkey =>
    obtain ⟨r, hr, hkey⟩ := List.mem_map.mp hkey
    rw [if_neg, Option.map_some]
    refine List.ne_nil_of_mem (a := r) ?_
    rw [← hrows, List.mem_filter]
    exact ⟨hr, decide_eq_true hkey⟩
  next hkey =>
    rw [if_pos, Option.map_none]
    rw [← hrows, List.filter_eq_nil_iff]
    intro r hr heq
    exact hkey (List.mem_map.mpr ⟨r, hr, of_decide_eq_true heq⟩)

theorem countP_filter_or (p : ρ → Bool) {q q' : ρ → Bool}
    (hdisjoint : ∀ r, q r = true → q' r = false) (rows : List ρ) :
    (rows.filter q).countP p + (rows.filter q').countP p =
      (rows.filter fun r => q r || q' r).countP p := by
  induction rows with
  | nil => rfl
  | cons r rows ih =>
      simp only [List.filter_cons]
      cases hq : q r with
      | true =>
          simp only [hdisjoint r hq, Bool.or_false, if_true,
            Bool.false_eq_true, if_false, List.countP_cons]
          omega
      | false =>
          cases hq' : q' r with
          | true =>
              simp only [Bool.or_true, if_true, Bool.false_eq_true, if_false,
                List.countP_cons]
              omega
          | false => simpa using ih

theorem sum_countP_filter (p : ρ → Bool) (rows : List ρ) {ks : List κ}
    (hks : ks.Nodup) :
    (ks.map fun k => (rows.filter fun r => key r = k).countP p).sum =
      (rows.filter fun r => key r ∈ ks).countP p := by
  induction ks with
  | nil => simp
  | cons k ks ih =>
      obtain ⟨hk, hks⟩ := List.nodup_cons.mp hks
      rw [List.map_cons, List.sum_cons, ih hks, countP_filter_or]
      · congr 2
        funext r
        simp
      · intro r hr
        have hkey : key r = k := by simpa using hr
        simpa [hkey] using hk

/-- A count is the sum of the counts over the groups. -/
theorem sum_countP_groupBy (p : ρ → Bool) (key : ρ → κ) (rows : List ρ) :
    ((groupBy key rows).map fun g => g.2.countP p).sum = rows.countP p := by
  have hall : (rows.filter fun r => decide (key r ∈ (rows.map key).dedup)) =
      rows := by
    rw [List.filter_eq_self]
    intro r hr
    simpa using ⟨r, hr, rfl⟩
  rw [groupBy, List.map_map]
  refine (sum_countP_filter p rows (List.nodup_dedup _)).trans ?_
  rw [hall]

end Relational
