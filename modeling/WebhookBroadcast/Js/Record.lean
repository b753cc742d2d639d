import Mathlib.Data.List.Induction
import Mathlib.Data.List.Nodup

/-!
# Records of JavaScript

An object used as a string-keyed record: its own entries in enumeration order,
with pairwise different names.  Assigning to a name that is present replaces
the value in place; assigning to a new name appends an entry.
-/

namespace Js

/-- The entries of a record, in enumeration order. -/
structure Record (α : Type) where
  entries : List (String × α)
  nodup : (entries.map Prod.fst).Nodup
deriving DecidableEq

namespace Record

variable {α β : Type}

/-- `{}`. -/
def empty : Record α := ⟨[], by simp⟩

/-- Replace the value under `name`, or append a new entry. -/
def setEntry (name : String) (value : α) :
    List (String × α) → List (String × α)
  | [] => [(name, value)]
  | entry :: rest =>
      if entry.1 = name then (name, value) :: rest
      else entry :: setEntry name value rest

theorem map_fst_setEntry_of_mem {name : String} {value : α} :
    ∀ {entries : List (String × α)}, name ∈ entries.map Prod.fst →
      (setEntry name value entries).map Prod.fst = entries.map Prod.fst
  | entry :: rest, h => by
      by_cases hname : entry.1 = name
      · simp [setEntry, hname]
      · have hrest : name ∈ rest.map Prod.fst := by
          rcases List.mem_cons.mp h with h | h
          · exact absurd h.symm hname
          · exact h
        simp [setEntry, hname, map_fst_setEntry_of_mem hrest]

theorem setEntry_of_not_mem {name : String} {value : α} :
    ∀ {entries : List (String × α)}, name ∉ entries.map Prod.fst →
      setEntry name value entries = entries ++ [(name, value)]
  | [], _ => rfl
  | entry :: rest, h => by
      rw [List.map_cons, List.mem_cons, not_or] at h
      have hne : entry.1 ≠ name := fun heq => h.1 heq.symm
      simp [setEntry, hne, setEntry_of_not_mem h.2]

/-- `r[name] = value`. -/
def set (r : Record α) (name : String) (value : α) : Record α where
  entries := setEntry name value r.entries
  nodup := by
    by_cases h : name ∈ r.entries.map Prod.fst
    · rw [map_fst_setEntry_of_mem h]
      exact r.nodup
    · rw [setEntry_of_not_mem h, List.map_append, List.map_singleton]
      exact r.nodup.append (List.nodup_singleton _)
        (List.disjoint_singleton.mpr h)

/-- `r[name]`, `none` where it is absent. -/
def get? (r : Record α) (name : String) : Option α :=
  (r.entries.find? fun entry => entry.1 = name).map Prod.snd

/-- `{ ...r, ...other }`: assign every entry of `other`, in order. -/
def spread (r other : Record α) : Record α :=
  other.entries.foldl (fun acc entry => acc.set entry.1 entry.2) r

/-! ## Reading what was assigned -/

/-- The value of the last of some entries that `key` names so. -/
def last? {ε : Type} (key : ε → String) (value : ε → α) (entries : List ε)
    (name : String) : Option α :=
  (entries.reverse.find? fun entry => key entry = name).map value

theorem find?_setEntry (name : String) (value : α) (other : String) :
    ∀ entries : List (String × α),
      (setEntry name value entries).find? (fun entry => entry.1 = other) =
        if name = other then some (name, value)
        else entries.find? fun entry => entry.1 = other
  | [] => by
      by_cases h : name = other
      · simp [setEntry, h]
      · simp [setEntry, h]
  | entry :: rest => by
      by_cases hname : entry.1 = name
      · by_cases h : name = other
        · simp [setEntry, hname, h]
        · simp [setEntry, hname, h]
      · rw [setEntry, if_neg hname, List.find?_cons,
          find?_setEntry name value other rest, List.find?_cons]
        by_cases h : entry.1 = other
        · have hne : name ≠ other := fun heq => hname (h.trans heq.symm)
          simp [h, hne]
        · simp [h]

theorem get?_set (r : Record α) (name : String) (value : α) (other : String) :
    (r.set name value).get? other =
      if name = other then some value else r.get? other := by
  rw [get?, set, find?_setEntry]
  split
  · rfl
  · rfl

/-- Of assignments to one name the last counts. -/
theorem get?_foldl_set {ε : Type} (key : ε → String) (value : ε → α)
    (r : Record α) (name : String) (entries : List ε) :
    (entries.foldl (fun acc entry => acc.set (key entry) (value entry)) r).get?
        name =
      (last? key value entries name).or (r.get? name) := by
  induction entries using List.reverseRecOn with
  | nil => rfl
  | append_singleton entries entry ih =>
      rw [List.foldl_append, List.foldl_cons, List.foldl_nil, get?_set, ih,
        last?, last?, List.reverse_append, List.reverse_singleton,
        List.singleton_append, List.find?_cons]
      by_cases h : key entry = name
      · simp [h]
      · simp [h]

/-- Assignments to different names append as many entries. -/
theorem entries_foldl_set {ε : Type} (key : ε → String) (value : ε → α)
    (entries : List ε) (hentries : (entries.map key).Nodup) :
    (entries.foldl (fun acc entry => acc.set (key entry) (value entry))
        (empty : Record α)).entries =
      entries.map fun entry => (key entry, value entry) := by
  induction entries using List.reverseRecOn with
  | nil => rfl
  | append_singleton entries entry ih =>
      rw [List.map_append, List.map_singleton, List.nodup_append] at hentries
      obtain ⟨hnodup, -, hdisjoint⟩ := hentries
      have hnew : key entry ∉ (entries.map fun entry =>
          (key entry, value entry)).map Prod.fst := by
        intro h
        rw [List.map_map] at h
        exact hdisjoint _ h _ (List.mem_singleton_self _) rfl
      rw [List.foldl_append, List.foldl_cons, List.foldl_nil, set]
      dsimp only
      rw [ih hnodup, setEntry_of_not_mem hnew, List.map_append,
        List.map_singleton]

/-- Under its own names a record has one entry, first and last. -/
theorem last?_entries (r : Record α) (name : String) :
    last? Prod.fst Prod.snd r.entries name = r.get? name := by
  have hfold : (r.entries.foldl (fun acc entry => acc.set entry.1 entry.2)
      (empty : Record α)).entries = r.entries := by
    rw [entries_foldl_set _ _ _ r.nodup]
    exact List.map_id _
  have hget := get?_foldl_set Prod.fst Prod.snd empty name r.entries
  rw [get?, hfold] at hget
  rw [get?, hget]
  exact (Option.or_none).symm

theorem get?_spread (r other : Record α) (name : String) :
    (r.spread other).get? name = (other.get? name).or (r.get? name) := by
  rw [spread, get?_foldl_set, last?_entries]

theorem mem_map_fst_iff (r : Record α) (name : String) :
    name ∈ r.entries.map Prod.fst ↔ r.get? name ≠ none := by
  simp [get?]

end Record

end Js
