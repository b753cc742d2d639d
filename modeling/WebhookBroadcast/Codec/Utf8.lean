import Mathlib.Data.List.Basic

/-!
# UTF-8 with replacement

Bytes as text, for readers that refuse nothing: each maximal part of the bytes
that is no character is read as one `U+FFFD`.
-/

namespace Codec.Utf8

def encode (text : List Char) : List UInt8 :=
  text.flatMap String.utf8EncodeChar

/-- The bytes that may follow a first byte. -/
def canFollow (first second : UInt8) : Bool :=
  (if first = 0xE0 then 0xA0 else if first = 0xF0 then 0x90 else 0x80) ≤ second &&
    second ≤ (if first = 0xED then 0x9F else if first = 0xF4 then 0x8F else 0xBF)

/-- How many of the bytes after the first belong to it, if it begins no whole
character. -/
def partLength (first : UInt8) : List UInt8 → ℕ
  | [] => 0
  | second :: rest =>
      if 0xE0 ≤ first ∧ first ≤ 0xF4 ∧ canFollow first second then
        match rest with
        | third :: _ =>
            if 0xF0 ≤ first ∧ 0x80 ≤ third ∧ third ≤ 0xBF then 2 else 1
        | [] => 1
      else 0

def decode : List UInt8 → List Char
  | [] => []
  | first :: rest =>
      match (first :: rest).toByteArray.utf8DecodeChar? 0 with
      | some c => c :: decode (rest.drop (c.utf8Size - 1))
      | none => Char.ofNat 0xFFFD :: decode (rest.drop (partLength first rest))
termination_by bytes => bytes.length
decreasing_by
  all_goals
    simp only [List.length_drop, List.length_cons]
    omega

theorem decode_encodeChar_append (c : Char) (rest : List UInt8) :
    decode (String.utf8EncodeChar c ++ rest) = c :: decode rest := by
  have hread := ByteArray.utf8DecodeChar?_utf8EncodeChar_append
    (b := rest.toByteArray) (c := c)
  rw [← List.toByteArray_append] at hread
  have hlength := String.length_utf8EncodeChar c
  cases hbytes : String.utf8EncodeChar c with
  | nil => exact absurd hbytes String.utf8EncodeChar_ne_nil
  | cons first tail =>
      rw [hbytes] at hread hlength
      rw [List.cons_append] at hread ⊢
      rw [decode, hread]
      have hdrop : (tail ++ rest).drop (c.utf8Size - 1) = rest := by
        rw [← hlength, List.length_cons, Nat.add_sub_cancel, List.drop_left]
      dsimp only
      rw [hdrop]

/-- Every text is read back from its bytes. -/
theorem decode_encode (text : List Char) : decode (encode text) = text := by
  induction text with
  | nil => rw [encode, List.flatMap_nil, decode]
  | cons c text ih =>
      rw [encode, List.flatMap_cons, decode_encodeChar_append]
      exact congrArg _ ih

end Codec.Utf8
