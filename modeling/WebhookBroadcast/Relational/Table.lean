import Mathlib.Data.List.Nodup

/-!
# Tables with a unique key

A table is a list of rows in insertion order, with the proof that no two rows
share a key.  The operations are those of SQL: a select by key or predicate, an
insert that is refused on a key collision, an update and a delete of the rows
that satisfy a predicate.  An update carries the proof that it leaves keys
alone, so each operation returns a table again.
-/

namespace Relational

/-- Rows of type `ρ` whose keys are pairwise different. -/
@[ext] structure Table (ρ κ : Type) (key : ρ → κ) where
  rows : List ρ
  nodup : (rows.map key).Nodup

namespace Table

variable {ρ κ : Type} {key : ρ → κ}

instance : Membership ρ (Table ρ κ key) where
  mem t r := r ∈ t.rows

theorem mem_def {t : Table ρ κ key} {r : ρ} : r ∈ t ↔ r ∈ t.rows :=
  Iff.rfl

/-- Rows of one table with one key are the same row. -/
theorem eq_of_key_eq (t : Table ρ κ key) {r s : ρ}
    (hr : r ∈ t) (hs : s ∈ t) (h : key r = key s) : r = s :=
  List.inj_on_of_nodup_map t.nodup hr hs h

/-! ## Select -/

/-- The row with key `k`, if there is one. -/
def find? [DecidableEq κ] (t : Table ρ κ key) (k : κ) : Option ρ :=
  t.rows.find? fun r => decide (key r = k)

/-- The rows that satisfy `p`, in insertion order. -/
def select (t : Table ρ κ key) (p : ρ → Bool) : List ρ :=
  t.rows.filter p

theorem find?_eq_some_iff [DecidableEq κ] (t : Table ρ κ key)
    {k : κ} {r : ρ} : t.find? k = some r ↔ r ∈ t ∧ key r = k := by
  constructor
  · intro h
    exact ⟨List.mem_of_find?_eq_some h, by simpa using List.find?_some h⟩
  · rintro ⟨hr, hk⟩
    cases hfind : t.find? k with
    | none =>
        rw [find?, List.find?_eq_none] at hfind
        exact absurd (by simpa using hk) (hfind r hr)
    | some s =>
        have hs : s ∈ t := List.mem_of_find?_eq_some hfind
        have hsk : key s = k := by simpa using List.find?_some hfind
        rw [t.eq_of_key_eq hr hs (hk.trans hsk.symm)]

theorem find?_eq_none_iff [DecidableEq κ] (t : Table ρ κ key) {k : κ} :
    t.find? k = none ↔ ∀ r ∈ t, key r ≠ k := by
  rw [find?, List.find?_eq_none]
  simp [mem_def]

theorem key_of_find? [DecidableEq κ] {t : Table ρ κ key} {k : κ} {r : ρ}
    (h : t.find? k = some r) : key r = k :=
  (t.find?_eq_some_iff.mp h).2

theorem mem_of_find? [DecidableEq κ] {t : Table ρ κ key} {k : κ} {r : ρ}
    (h : t.find? k = some r) : r ∈ t :=
  (t.find?_eq_some_iff.mp h).1

theorem mem_select {t : Table ρ κ key} {p : ρ → Bool} {r : ρ} :
    r ∈ t.select p ↔ r ∈ t ∧ p r = true :=
  List.mem_filter

/-! ## Insert -/

/-- Insert a row, refused when its key is taken. -/
def insert? [DecidableEq κ] (t : Table ρ κ key) (r : ρ) :
    Option (Table ρ κ key) :=
  if h : key r ∈ t.rows.map key then none
  else some ⟨t.rows ++ [r], by
    rw [List.map_append, List.map_singleton]
    exact t.nodup.append (List.nodup_singleton _)
      (List.disjoint_singleton.mpr h)⟩

theorem insert?_eq_none_iff [DecidableEq κ] {t : Table ρ κ key} {r : ρ} :
    t.insert? r = none ↔ ∃ s ∈ t, key s = key r := by
  simp [insert?, mem_def]

theorem rows_of_insert? [DecidableEq κ] {t u : Table ρ κ key} {r : ρ}
    (h : t.insert? r = some u) : u.rows = t.rows ++ [r] := by
  unfold insert? at h
  split at h
  · cases h
  · cases h
    rfl

theorem mem_of_insert? [DecidableEq κ] {t u : Table ρ κ key} {r s : ρ}
    (h : t.insert? r = some u) : s ∈ u ↔ s ∈ t ∨ s = r := by
  rw [mem_def, rows_of_insert? h, List.mem_append, List.mem_singleton]
  rfl

/-! ## Update -/

/-- Replace every row that satisfies `p` by its image under `f`. -/
def update (t : Table ρ κ key) (p : ρ → Bool) (f : ρ → ρ)
    (hf : ∀ r, key (f r) = key r) : Table ρ κ key where
  rows := t.rows.map fun r => if p r then f r else r
  nodup := by
    have hkey : (key ∘ fun r => if p r then f r else r) = key := by
      funext r
      simp only [Function.comp_apply]
      split
      · exact hf r
      · rfl
    rw [List.map_map, hkey]
    exact t.nodup

@[simp] theorem rows_update (t : Table ρ κ key) (p : ρ → Bool) (f : ρ → ρ)
    (hf : ∀ r, key (f r) = key r) :
    (t.update p f hf).rows = t.rows.map fun r => if p r then f r else r := rfl

theorem mem_update {t : Table ρ κ key} {p : ρ → Bool} {f : ρ → ρ}
    {hf : ∀ r, key (f r) = key r} {r : ρ} :
    r ∈ t.update p f hf ↔ ∃ s ∈ t, (if p s then f s else s) = r :=
  List.mem_map

theorem find?_update [DecidableEq κ] (t : Table ρ κ key) (p : ρ → Bool)
    (f : ρ → ρ) (hf : ∀ r, key (f r) = key r) (k : κ) :
    (t.update p f hf).find? k =
      (t.find? k).map fun r => if p r then f r else r := by
  rw [find?, find?, rows_update, List.find?_map]
  congr 2
  funext r
  simp only [Function.comp_apply]
  split
  · rw [hf]
  · rfl

/-- Any column that the update leaves alone has the same values after it. -/
theorem map_update {δ : Type} (t : Table ρ κ key) (p : ρ → Bool) (f : ρ → ρ)
    (hf : ∀ r, key (f r) = key r) {g : ρ → δ} (hg : ∀ r, g (f r) = g r) :
    (t.update p f hf).rows.map g = t.rows.map g := by
  rw [rows_update, List.map_map]
  apply List.map_congr_left
  intro r _
  simp only [Function.comp_apply]
  split
  · exact hg r
  · rfl

/-! ## Delete -/

/-- Remove every row that satisfies `p`. -/
def delete (t : Table ρ κ key) (p : ρ → Bool) : Table ρ κ key where
  rows := t.rows.filter fun r => !p r
  nodup := t.nodup.sublist (List.filter_sublist.map key)

@[simp] theorem rows_delete (t : Table ρ κ key) (p : ρ → Bool) :
    (t.delete p).rows = t.rows.filter fun r => !p r := rfl

theorem mem_delete {t : Table ρ κ key} {p : ρ → Bool} {r : ρ} :
    r ∈ t.delete p ↔ r ∈ t ∧ p r = false := by
  simp [mem_def]

theorem find?_delete [DecidableEq κ] (t : Table ρ κ key) (p : ρ → Bool)
    (k : κ) : (t.delete p).find? k = (t.find? k).filter fun r => !p r := by
  cases hfind : t.find? k with
  | none =>
      rw [Option.filter_none, find?_eq_none_iff]
      intro r hr
      exact (t.find?_eq_none_iff.mp hfind) r (mem_delete.mp hr).1
  | some s =>
      cases hp : p s with
      | false =>
          simp only [Option.filter_some, hp, Bool.not_false, if_true]
          rw [find?_eq_some_iff]
          exact ⟨mem_delete.mpr ⟨mem_of_find? hfind, hp⟩,
            key_of_find? hfind⟩
      | true =>
          simp only [Option.filter_some, hp, Bool.not_true,
            Bool.false_eq_true, if_false]
          rw [find?_eq_none_iff]
          intro r hr hk
          obtain ⟨hr, hpr⟩ := mem_delete.mp hr
          have hrs : r = s :=
            t.eq_of_key_eq hr (mem_of_find? hfind)
              (hk.trans (key_of_find? hfind).symm)
          rw [hrs, hp] at hpr
          cases hpr

end Table

end Relational
