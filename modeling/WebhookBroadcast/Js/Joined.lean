import Mathlib.Data.List.Dedup
import Mathlib.Data.List.DropRight
import Mathlib.Data.List.Nodup
import WebhookBroadcast.Js.Number

/-!
# Lists written as one text

`join` and `split` at a character with `trim` of the parts, and the order of a
`Set` that is made of a list.
-/

namespace Js

/-! ## Trimmed texts -/

theorem trimChars_eq (cs : List Char) :
    trimChars cs = (cs.dropWhile isWhiteSpace).rdropWhile isWhiteSpace := rfl

theorem dropWhile_of_head? {p : Char → Bool} {cs : List Char}
    (h : ∀ c ∈ cs.head?, p c = false) : cs.dropWhile p = cs := by
  cases cs with
  | nil => rfl
  | cons c cs => exact List.dropWhile_cons_of_neg (by simp [h c rfl])

theorem trimChars_idem (cs : List Char) :
    trimChars (trimChars cs) = trimChars cs := by
  rw [trimChars_eq cs, trimChars_eq, dropWhile_of_head?,
    List.rdropWhile_idempotent]
  -- a first character was the first one before the end was dropped
  intro c hc
  obtain ⟨rest, hrest⟩ :=
    List.rdropWhile_prefix isWhiteSpace (cs.dropWhile isWhiteSpace)
  have hhead := List.head?_dropWhile_not isWhiteSpace cs
  rw [← hrest, List.head?_append, Option.mem_def.mp hc] at hhead
  exact hhead

theorem trim_idem (text : String) : trim (trim text) = trim text := by
  rw [trim, trim, String.toList_ofList, trimChars_idem]

/-- What `trim` leaves was there before. -/
theorem mem_of_mem_trimChars {c : Char} {cs : List Char}
    (h : c ∈ trimChars cs) : c ∈ cs := by
  rw [trimChars_eq] at h
  exact (List.dropWhile_suffix isWhiteSpace).mem
    ((List.rdropWhile_prefix isWhiteSpace _).mem h)

/-- A text without white space is trimmed. -/
theorem trim_of_not_isWhiteSpace {text : String}
    (h : ∀ c ∈ text.toList, isWhiteSpace c = false) : trim text = text := by
  have hlast : text.toList.rdropWhile isWhiteSpace = text.toList := by
    rw [List.rdropWhile_eq_self_iff]
    intro hne hspace
    rw [h _ (List.getLast_mem hne)] at hspace
    cases hspace
  rw [trim, trimChars_eq, dropWhile_of_head?, hlast, String.ofList_toList]
  exact fun c hc => h c (List.mem_of_mem_head? hc)

/-! ## Parts -/

/-- A text that is a part of a joined one: not empty, trimmed, and without the
separator. -/
structure IsPart (separator : Char) (part : String) : Prop where
  nonempty : part ≠ ""
  trimmed : trim part = part
  free : separator ∉ part.toList

/-- `text.split(separator).map(trim).filter(part => part.length > 0)`. -/
def parts (text : String) (separator : Char) : List String :=
  ((split text separator).map trim).filter (· ≠ "")

theorem not_mem_of_mem_splitOn {sep : Char} {cs piece : List Char}
    (h : piece ∈ cs.splitOn sep) : sep ∉ piece := by
  induction cs generalizing piece with
  | nil =>
      rw [List.splitOn_nil, List.mem_singleton] at h
      rw [h]
      exact List.not_mem_nil
  | cons c cs ih =>
      rw [List.splitOn_cons_eq_if_modifyHead] at h
      split at h
      next hsep =>
        rcases List.mem_cons.mp h with rfl | h
        · exact List.not_mem_nil
        · exact ih h
      next hsep =>
        cases hpieces : cs.splitOn sep with
        | nil => exact absurd hpieces (List.splitOn_ne_nil sep cs)
        | cons first pieces =>
            rw [hpieces, List.modifyHead_cons] at h
            rcases List.mem_cons.mp h with rfl | h
            · intro hmem
              rcases List.mem_cons.mp hmem with rfl | hmem
              · exact hsep (beq_self_eq_true sep)
              · refine ih ?_ hmem
                rw [hpieces]
                exact List.mem_cons_self
            · refine ih ?_
              rw [hpieces]
              exact List.mem_cons_of_mem _ h

theorem isPart_of_mem_parts {text : String} {separator : Char} {part : String}
    (h : part ∈ parts text separator) : IsPart separator part := by
  obtain ⟨hpart, hne⟩ := List.mem_filter.mp h
  obtain ⟨piece, hpiece, rfl⟩ := List.mem_map.mp hpart
  obtain ⟨cs, hcs, rfl⟩ := List.mem_map.mp hpiece
  refine ⟨of_decide_eq_true hne, trim_idem _, fun hmem => ?_⟩
  rw [trim, String.toList_ofList, String.toList_ofList] at hmem
  exact not_mem_of_mem_splitOn hcs (mem_of_mem_trimChars hmem)

/-- Parts that are joined are split again. -/
theorem parts_join {separator : Char} {texts : List String}
    (h : ∀ part ∈ texts, IsPart separator part) :
    parts ((String.singleton separator).intercalate texts) separator = texts := by
  by_cases hnil : texts = []
  · subst hnil
    rw [parts, split, String.intercalate_nil]
    rfl
  · have hfree : ∀ piece ∈ texts.map String.toList, separator ∉ piece := by
      intro piece hpiece
      obtain ⟨part, hpart, rfl⟩ := List.mem_map.mp hpiece
      exact (h part hpart).free
    have hsplit : split ((String.singleton separator).intercalate texts)
        separator = texts := by
      rw [split, String.toList_intercalate, String.toList_singleton,
        List.splitOn_intercalate _ hfree (by simpa using hnil), List.map_map]
      exact (List.map_congr_left fun part _ => String.ofList_toList).trans
        (List.map_id _)
    have htrim : texts.map trim = texts :=
      (List.map_congr_left fun part hpart => (h part hpart).trimmed).trans
        (List.map_id _)
    rw [parts, hsplit, htrim, List.filter_eq_self]
    exact fun part hpart => decide_eq_true (h part hpart).nonempty

/-! ## Sets -/

/-- `[...new Set(values)]`. -/
def distinct {α : Type} [DecidableEq α] (values : List α) : List α :=
  values.reverse.dedup.reverse

variable {α : Type} [DecidableEq α] {values : List α} {value : α}

theorem mem_distinct : value ∈ distinct values ↔ value ∈ values := by
  rw [distinct, List.mem_reverse, List.mem_dedup, List.mem_reverse]

theorem nodup_distinct (values : List α) : (distinct values).Nodup := by
  rw [distinct, List.nodup_reverse]
  exact List.nodup_dedup _

theorem distinct_of_nodup (h : values.Nodup) : distinct values = values := by
  rw [distinct, (List.nodup_reverse.mpr h).dedup, List.reverse_reverse]

end Js
