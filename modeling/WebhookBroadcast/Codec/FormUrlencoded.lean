import Mathlib.Data.Fintype.Basic
import Mathlib.Data.List.Basic
import WebhookBroadcast.Codec.Utf8

/-!
# Pairs in a query string

The format `application/x-www-form-urlencoded`: pairs of texts joined by `&`,
with `=` between name and value, `+` for a space, and `%` with two hexadecimal
digits for each byte that does not stand for itself.
-/

namespace Codec.FormUrlencoded

/-! ## Bytes -/

def hexDigits : List Char := "0123456789ABCDEF".toList

def hexDigit (n : ℕ) : Char := hexDigits.getD n '0'

/-- The value of a hexadecimal digit of either case. -/
def hexValue? (c : Char) : Option ℕ :=
  if c.toUpper ∈ hexDigits then some (hexDigits.idxOf c.toUpper) else none

/-- The characters that stand for themselves. -/
def standsForItself (c : Char) : Bool :=
  c.isAlphanum || c ∈ ['*', '-', '.', '_']

def escape (b : UInt8) : List Char :=
  if b = 0x20 then ['+']
  else if standsForItself (Char.ofNat b.toNat) then [Char.ofNat b.toNat]
  else ['%', hexDigit (b.toNat / 16), hexDigit (b.toNat % 16)]

/-- The bytes that a text denotes. -/
def unescape : List Char → List UInt8
  | [] => []
  | '+' :: rest => 0x20 :: unescape rest
  | '%' :: high :: low :: rest =>
      match hexValue? high, hexValue? low with
      | some h, some l => .ofNat (h * 16 + l) :: unescape rest
      | _, _ => 0x25 :: unescape (high :: low :: rest)
  | c :: rest => String.utf8EncodeChar c ++ unescape rest

theorem unescape_cons {c : Char} (hspace : c ≠ '+') (hescape : c ≠ '%')
    (rest : List Char) :
    unescape (c :: rest) = String.utf8EncodeChar c ++ unescape rest := by
  rw [unescape]
  · exact hspace
  · rintro _ _ _ rfl
    exact absurd rfl hescape

theorem hexValue?_hexDigit {n : ℕ} (h : n < 16) :
    hexValue? (hexDigit n) = some n := by
  have hall : ∀ m : Fin 16, hexValue? (hexDigit m) = some m.val := by
    decide +kernel
  exact hall ⟨n, h⟩

/-- A byte that stands for itself is that of an ASCII character. -/
theorem encodeChar_of_standsForItself {b : UInt8}
    (h : standsForItself (Char.ofNat b.toNat) = true) :
    Char.ofNat b.toNat ≠ '+' ∧ Char.ofNat b.toNat ≠ '%' ∧
      String.utf8EncodeChar (Char.ofNat b.toNat) = [b] := by
  have hall : ∀ n : Fin 256, standsForItself (Char.ofNat n) = true →
      Char.ofNat n ≠ '+' ∧ Char.ofNat n ≠ '%' ∧
        String.utf8EncodeChar (Char.ofNat n) = [UInt8.ofNat n] := by
    decide +kernel
  have hb := hall ⟨b.toNat, b.toNat_lt⟩ h
  simpa only [UInt8.ofNat_toNat] using hb

theorem unescape_escape_append (b : UInt8) (rest : List Char) :
    unescape (escape b ++ rest) = b :: unescape rest := by
  unfold escape
  split
  next hspace => rw [hspace]; rfl
  split
  next hself =>
    obtain ⟨hplus, hpercent, hencode⟩ := encodeChar_of_standsForItself hself
    rw [List.singleton_append, unescape_cons hplus hpercent, hencode]
    rfl
  next =>
    have hb := b.toNat_lt
    change unescape ('%' :: hexDigit (b.toNat / 16) ::
      hexDigit (b.toNat % 16) :: rest) = _
    rw [unescape, hexValue?_hexDigit (by omega), hexValue?_hexDigit (by omega)]
    have hvalue : b.toNat / 16 * 16 + b.toNat % 16 = b.toNat := by omega
    simp only [hvalue, UInt8.ofNat_toNat]

/-! ## Fields -/

def escapeText (text : String) : List Char :=
  (Utf8.encode text.toList).flatMap escape

def readText (field : List Char) : String :=
  String.ofList (Utf8.decode (unescape field))

theorem unescape_flatMap_escape (bytes : List UInt8) :
    unescape (bytes.flatMap escape) = bytes := by
  induction bytes with
  | nil => rfl
  | cons b bytes ih =>
      rw [List.flatMap_cons, unescape_escape_append, ih]

theorem readText_escapeText (text : String) :
    readText (escapeText text) = text := by
  rw [readText, escapeText, unescape_flatMap_escape, Utf8.decode_encode,
    String.ofList_toList]

/-- No field has a separator in it. -/
theorem not_separator_of_mem_escapeText {c : Char} {text : String}
    (h : c ∈ escapeText text) : c ≠ '&' ∧ c ≠ '=' := by
  obtain ⟨b, -, hc⟩ := List.mem_flatMap.mp h
  have hall : ∀ n : Fin 256,
      (escape (UInt8.ofNat n)).all (fun c => c ≠ '&' ∧ c ≠ '=') = true := by
    decide +kernel
  have hb := hall ⟨b.toNat, b.toNat_lt⟩
  rw [UInt8.ofNat_toNat] at hb
  exact of_decide_eq_true (List.all_eq_true.mp hb c hc)

/-! ## Pairs -/

def escapePair (pair : String × String) : List Char :=
  escapeText pair.1 ++ '=' :: escapeText pair.2

def readPair (piece : List Char) : String × String :=
  (readText (piece.takeWhile (· ≠ '=')),
    readText ((piece.dropWhile (· ≠ '=')).drop 1))

def serialize (pairs : List (String × String)) : List Char :=
  ['&'].intercalate (pairs.map escapePair)

/-- Empty pieces are no pairs. -/
def parse (text : List Char) : List (String × String) :=
  ((text.splitOn '&').filter (· ≠ [])).map readPair

theorem readPair_escapePair (pair : String × String) :
    readPair (escapePair pair) = pair := by
  have hname : ∀ c ∈ escapeText pair.1, decide (c ≠ '=') = true :=
    fun c hc => decide_eq_true (not_separator_of_mem_escapeText hc).2
  rw [readPair, escapePair, List.takeWhile_append_of_pos hname,
    List.dropWhile_append_of_pos hname]
  simp [readText_escapeText]

theorem not_mem_escapePair (pair : String × String) :
    '&' ∉ escapePair pair := by
  intro h
  rcases List.mem_append.mp h with h | h
  · exact (not_separator_of_mem_escapeText h).1 rfl
  · rcases List.mem_cons.mp h with h | h
    · exact absurd h (by decide)
    · exact (not_separator_of_mem_escapeText h).1 rfl

/-- Every list of pairs is read back from its text. -/
theorem parse_serialize (pairs : List (String × String)) :
    parse (serialize pairs) = pairs := by
  by_cases hnil : pairs = []
  · rw [hnil]
    rfl
  · have hpieces : pairs.map escapePair ≠ [] := by simpa using hnil
    have hfree : ∀ piece ∈ pairs.map escapePair, '&' ∉ piece := by
      intro piece hpiece
      obtain ⟨pair, -, rfl⟩ := List.mem_map.mp hpiece
      exact not_mem_escapePair pair
    have hkept : (pairs.map escapePair).filter (· ≠ []) =
        pairs.map escapePair := by
      rw [List.filter_eq_self]
      intro piece hpiece
      obtain ⟨pair, -, rfl⟩ := List.mem_map.mp hpiece
      simp [escapePair]
    rw [parse, serialize, List.splitOn_intercalate _ hfree hpieces, hkept,
      List.map_map]
    exact (List.map_congr_left fun pair _ => readPair_escapePair pair).trans
      (List.map_id _)

end Codec.FormUrlencoded
