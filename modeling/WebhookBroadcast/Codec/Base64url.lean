import Mathlib.Data.List.Basic
import Mathlib.Tactic

/-!
# Base64 for URLs

Bytes as text over 64 characters that need no escaping in a URL or a header:
three bytes are four characters, and a rest of one or two bytes is two or three
characters, without padding.  A text that is no encoding decodes to nothing.
-/

namespace Codec.Base64url

/-! ## Characters -/

/-- The characters in the order of their values. -/
def alphabet : List Char :=
  "ABCDEFGHIJKLMNOPQRSTUVWXYZabcdefghijklmnopqrstuvwxyz0123456789-_".toList

/-- The character of a value of six bits. -/
def digit (n : ℕ) : Char := alphabet.getD n 'A'

/-- The value of a character. -/
def value? (c : Char) : Option ℕ :=
  if c ∈ alphabet then some (alphabet.idxOf c) else none

theorem value?_digit {n : ℕ} (h : n < 64) : value? (digit n) = some n := by
  have hall : ∀ m : Fin 64, value? (digit m) = some m.val := by
    decide +kernel
  exact hall ⟨n, h⟩

theorem digit_mem (n : ℕ) : digit n ∈ alphabet := by
  rw [digit, List.getD_eq_getElem?_getD]
  cases h : alphabet[n]? with
  | none => decide
  | some c => exact List.mem_of_getElem? h

/-! ## Texts -/

def encode : List UInt8 → List Char
  | [] => []
  | [a] => [digit (a.toNat / 4), digit (a.toNat % 4 * 16)]
  | [a, b] =>
      [digit (a.toNat / 4), digit (a.toNat % 4 * 16 + b.toNat / 16),
        digit (b.toNat % 16 * 4)]
  | a :: b :: c :: rest =>
      digit (a.toNat / 4) :: digit (a.toNat % 4 * 16 + b.toNat / 16) ::
        digit (b.toNat % 16 * 4 + c.toNat / 64) :: digit (c.toNat % 64) ::
          encode rest

def decode : List Char → Option (List UInt8)
  | [] => some []
  | [_] => none
  | [c₁, c₂] => do
      let v₁ ← value? c₁
      let v₂ ← value? c₂
      if v₂ % 16 = 0 then some [.ofNat (v₁ * 4 + v₂ / 16)] else none
  | [c₁, c₂, c₃] => do
      let v₁ ← value? c₁
      let v₂ ← value? c₂
      let v₃ ← value? c₃
      if v₃ % 4 = 0 then
        some [.ofNat (v₁ * 4 + v₂ / 16), .ofNat (v₂ % 16 * 16 + v₃ / 4)]
      else none
  | c₁ :: c₂ :: c₃ :: c₄ :: rest => do
      let v₁ ← value? c₁
      let v₂ ← value? c₂
      let v₃ ← value? c₃
      let v₄ ← value? c₄
      let bytes ← decode rest
      some (.ofNat (v₁ * 4 + v₂ / 16) :: .ofNat (v₂ % 16 * 16 + v₃ / 4) ::
        .ofNat (v₃ % 4 * 64 + v₄) :: bytes)

theorem ofNat_eq {n : ℕ} {a : UInt8} (h : n = a.toNat) :
    UInt8.ofNat n = a := by
  rw [h, UInt8.ofNat_toNat]

/-- Every list of bytes is read back from its text. -/
theorem decode_encode (bytes : List UInt8) :
    decode (encode bytes) = some bytes := by
  induction bytes using encode.induct with
  | case1 => rfl
  | case2 a =>
      have ha := a.toNat_lt
      rw [encode, decode, value?_digit (by omega), value?_digit (by omega)]
      have hrest : a.toNat % 4 * 16 % 16 = 0 := by omega
      simp only [Option.bind_eq_bind, Option.bind_some, hrest, if_true]
      rw [ofNat_eq (a := a) (by omega)]
  | case3 a b =>
      have ha := a.toNat_lt
      have hb := b.toNat_lt
      rw [encode, decode, value?_digit (by omega), value?_digit (by omega),
        value?_digit (by omega)]
      have hrest : b.toNat % 16 * 4 % 4 = 0 := by omega
      simp only [Option.bind_eq_bind, Option.bind_some, hrest, if_true]
      rw [ofNat_eq (a := a) (by omega), ofNat_eq (a := b) (by omega)]
  | case4 a b c rest ih =>
      have ha := a.toNat_lt
      have hb := b.toNat_lt
      have hc := c.toNat_lt
      rw [encode, decode, value?_digit (by omega), value?_digit (by omega),
        value?_digit (by omega), value?_digit (by omega), ih]
      simp only [Option.bind_eq_bind, Option.bind_some]
      rw [ofNat_eq (a := a) (by omega), ofNat_eq (a := b) (by omega),
        ofNat_eq (a := c) (by omega)]

theorem encode_injective : Function.Injective encode := by
  intro bytes bytes' h
  have hread := congrArg decode h
  rw [decode_encode, decode_encode] at hread
  exact Option.some.inj hread

theorem mem_alphabet_of_mem_encode {c : Char} {bytes : List UInt8}
    (h : c ∈ encode bytes) : c ∈ alphabet := by
  induction bytes using encode.induct with
  | case1 => cases h
  | case2 a =>
      simp only [encode, List.mem_cons, List.not_mem_nil, or_false] at h
      rcases h with rfl | rfl <;> exact digit_mem _
  | case3 a b =>
      simp only [encode, List.mem_cons, List.not_mem_nil, or_false] at h
      rcases h with rfl | rfl | rfl <;> exact digit_mem _
  | case4 a b c rest ih =>
      simp only [encode, List.mem_cons] at h
      rcases h with rfl | rfl | rfl | rfl | h
      · exact digit_mem _
      · exact digit_mem _
      · exact digit_mem _
      · exact digit_mem _
      · exact ih h

/-- The characters of the first bytes, in groups of three, are the first
characters. -/
theorem take_encode (k : ℕ) : ∀ bytes : List UInt8,
    (encode bytes).take (4 * k) = encode (bytes.take (3 * k)) := by
  induction k with
  | zero => exact fun bytes => by simp [encode]
  | succ k ih =>
      have hfour : 4 * (k + 1) = 4 * k + 1 + 1 + 1 + 1 := by ring
      have hthree : 3 * (k + 1) = 3 * k + 1 + 1 + 1 := by ring
      rw [hfour, hthree]
      rintro (_ | ⟨a, _ | ⟨b, _ | ⟨c, rest⟩⟩⟩)
      · rfl
      · simp [encode]
      · simp [encode]
      · simp only [encode, List.take_succ_cons, ih rest]

end Codec.Base64url
