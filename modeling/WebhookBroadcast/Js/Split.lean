import Mathlib.Data.String.Basic

/-!
# Splitting a text at a character

`String.splitOn` with a separator of one character, as a split of the list of
characters.
-/

namespace Js

open String

theorem atEnd_ofList (cs : List Char) (n : ℕ) :
    Pos.Raw.atEnd (ofList cs) ⟨n⟩ = true ↔ utf8Len cs ≤ n := by
  rw [atEnd_iff, rawEndPos_ofList, Pos.Raw.mk_le_mk]

/-- The loop, after the fields `acc` and the part `field` of the next one. -/
theorem splitOnAux_ofList (sep : Char) (before field rest : List Char)
    (acc : List String) :
    splitOnAux (ofList (before ++ field ++ rest)) (ofList [sep])
        ⟨utf8Len before⟩ ⟨utf8Len before + utf8Len field⟩ 0 acc =
      acc.reverse ++
        (List.splitOnPPrepend (· == sep) rest field.reverse).map ofList := by
  induction rest generalizing before field acc with
  | nil =>
      have hend : Pos.Raw.atEnd (ofList (before ++ field ++ []))
          ⟨utf8Len before + utf8Len field⟩ = true := by
        rw [atEnd_ofList, List.append_nil, utf8Len_append]
      unfold splitOnAux
      rw [if_pos hend, extract_of_valid before field []]
      simp
  | cons c rest ih =>
      have hend : ¬ Pos.Raw.atEnd (ofList (before ++ field ++ c :: rest))
          ⟨utf8Len before + utf8Len field⟩ = true := by
        have hsize := Char.utf8Size_pos c
        rw [atEnd_ofList, utf8Len_append, utf8Len_append, utf8Len_cons]
        omega
      have hget : Pos.Raw.get (ofList (before ++ field ++ c :: rest))
          ⟨utf8Len before + utf8Len field⟩ = c := by
        simpa [-ofList_append] using get_of_valid (before ++ field) (c :: rest)
      have hnext : Pos.Raw.next (ofList (before ++ field ++ c :: rest))
          ⟨utf8Len before + utf8Len field⟩ =
            ⟨utf8Len before + utf8Len field + c.utf8Size⟩ := by
        simpa [-ofList_append] using next_of_valid (before ++ field) c rest
      have hsep : Pos.Raw.get (ofList [sep]) 0 = sep := get_of_valid [] [sep]
      have hsepNext : Pos.Raw.next (ofList [sep]) 0 = ⟨sep.utf8Size⟩ := by
        simpa [-ofList_append] using next_of_valid [] sep []
      have hsepEnd : Pos.Raw.atEnd (ofList [sep]) ⟨sep.utf8Size⟩ = true := by
        rw [atEnd_ofList]
        simp
      unfold splitOnAux
      rw [if_neg hend, hget, hsep, List.splitOnPPrepend_cons_eq_if]
      by_cases hc : (c == sep) = true
      · have hback : Pos.Raw.unoffsetBy
            ⟨utf8Len before + utf8Len field + c.utf8Size⟩ ⟨sep.utf8Size⟩ =
              ⟨utf8Len before + utf8Len field⟩ := by
          rw [show c = sep by simpa using hc, Pos.Raw.unoffsetBy]
          simp
        have hfield : Pos.Raw.extract (ofList (before ++ field ++ c :: rest))
            ⟨utf8Len before⟩ ⟨utf8Len before + utf8Len field⟩ = ofList field :=
          extract_of_valid before field (c :: rest)
        simp only [hc, if_true, hnext, hsepNext, hsepEnd, hback, hfield]
        simpa [-ofList_append, Nat.add_assoc] using
          ih (before ++ field ++ [c]) [] (ofList field :: acc)
      · have hback : Pos.Raw.unoffsetBy ⟨utf8Len before + utf8Len field⟩ 0 =
            ⟨utf8Len before + utf8Len field⟩ := by
          simp [Pos.Raw.unoffsetBy]
        simp only [hc, hback, hnext]
        simpa [-ofList_append, Nat.add_assoc] using ih before (field ++ [c]) acc

theorem splitOn_singleton (text : String) (sep : Char) :
    text.splitOn (ofList [sep]) = (text.toList.splitOn sep).map ofList := by
  have hne : (ofList [sep] == "") = false := by simp
  have hloop := splitOnAux_ofList sep [] [] text.toList []
  rw [List.nil_append, List.nil_append, String.ofList_toList] at hloop
  rw [String.splitOn, hne, List.splitOn_eq_splitOnP]
  exact hloop

theorem splitOn_space (text : String) :
    text.splitOn " " = (text.toList.splitOn ' ').map ofList :=
  splitOn_singleton text ' '

end Js
