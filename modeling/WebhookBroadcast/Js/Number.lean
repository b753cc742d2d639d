import Mathlib.Algebra.Order.Field.Rat
import Mathlib.Algebra.Order.Floor.Defs
import Mathlib.Data.List.TakeWhile
import Mathlib.Data.Rat.Floor

/-!
# Strings and numbers of JavaScript

The conversions of ECMAScript that the repository leans on: `String.trim`,
`toLowerCase`, `Number(text)` and `Math.round`.

What `toLowerCase` makes of a letter outside of ASCII is up to the edition of
Unicode that the engine implements; `LowerCasing` says what all of them agree
on.

Finite numbers are exact rationals.  The rounding of a double is left to
`Js.toDouble`, its range is not: a literal whose magnitude rounds to `Infinity`
is infinite here.
-/

namespace Js

/-! ## Text -/

/-- The code units that `trim` and `Number` strip: the `WhiteSpace` and
`LineTerminator` productions. -/
def isWhiteSpace (c : Char) : Bool :=
  c ∈ ['\t', '\n', Char.ofNat 0x0B, Char.ofNat 0x0C, '\r', ' ',
    Char.ofNat 0xA0, Char.ofNat 0x1680, Char.ofNat 0x2028, Char.ofNat 0x2029,
    Char.ofNat 0x202F, Char.ofNat 0x205F, Char.ofNat 0x3000,
    Char.ofNat 0xFEFF] ||
  (0x2000 ≤ c.toNat && c.toNat ≤ 0x200A)

/-- Drop white space at both ends. -/
def trimChars (cs : List Char) : List Char :=
  ((cs.dropWhile isWhiteSpace).reverse.dropWhile isWhiteSpace).reverse

/-- `text.trim()`. -/
def trim (text : String) : String :=
  String.ofList (trimChars text.toList)

/-- A conversion to lower case: done twice it changes no more, it makes no text
empty, and in a text over ASCII it changes the capitals and nothing else. -/
class LowerCasing where
  convert : String → String
  convert_convert : ∀ text, convert (convert text) = convert text
  convert_eq_empty : ∀ text, convert text = "" ↔ text = ""
  convert_ascii : ∀ text, (∀ c ∈ text.toList, c.toNat < 128) →
    convert text = String.ofList (text.toList.map Char.toLower)

/-- `text.toLowerCase()`. -/
def toLowerCase [LowerCasing] (text : String) : String :=
  LowerCasing.convert text

/-- `text.length`: the number of UTF-16 code units. -/
def length (text : String) : ℕ :=
  (text.toList.map fun c => if c.toNat ≤ 0xFFFF then 1 else 2).sum

/-- `text.split(separator)`. -/
def split (text : String) (separator : Char) : List String :=
  (text.toList.splitOn separator).map String.ofList

/-- `text.startsWith(start)`. -/
def startsWith (text start : String) : Bool :=
  start.toList.isPrefixOf text.toList

/-- `text.endsWith(ending)`. -/
def endsWith (text ending : String) : Bool :=
  ending.toList.isSuffixOf text.toList

/-- `text.slice(start)`. -/
def slice (text : String) (start : ℕ) : String :=
  String.ofList (text.toList.drop start)

section LowerCasing

variable [LowerCasing]

theorem toLowerCase_idem (text : String) :
    toLowerCase (toLowerCase text) = toLowerCase text :=
  LowerCasing.convert_convert text

theorem toLowerCase_eq_empty {text : String} :
    toLowerCase text = "" ↔ text = "" :=
  LowerCasing.convert_eq_empty text

/-- A text over ASCII without capitals is in lower case. -/
theorem toLowerCase_of_ascii {text : String}
    (h : (text.toList.all fun c => c.toNat < 128 && c.toLower = c) = true) :
    toLowerCase text = text := by
  simp only [List.all_eq_true, Bool.and_eq_true, decide_eq_true_eq] at h
  rw [toLowerCase, LowerCasing.convert_ascii text fun c hc => (h c hc).1,
    List.map_congr_left fun c hc => (h c hc).2, List.map_id',
    String.ofList_toList]

end LowerCasing

theorem toLower_toLower (c : Char) : c.toLower.toLower = c.toLower := by
  delta Char.toLower
  grind

/-- The conversion of ASCII: the names of headers on the wire and the hosts of
parsed URLs have no other letters. -/
instance (priority := low) asciiLowerCasing : LowerCasing where
  convert text := String.ofList (text.toList.map Char.toLower)
  convert_convert text := by
    have htwice : Char.toLower ∘ Char.toLower = Char.toLower :=
      funext toLower_toLower
    simp [htwice]
  convert_eq_empty text := by simp
  convert_ascii _ _ := rfl

theorem toList_toLowerCase (text : String) :
    (toLowerCase text).toList = text.toList.map Char.toLower :=
  String.toList_ofList

theorem startsWith_iff {text start : String} :
    startsWith text start = true ↔ start.toList <+: text.toList :=
  List.isPrefixOf_iff_prefix

theorem endsWith_iff {text ending : String} :
    endsWith text ending = true ↔ ending.toList <:+ text.toList :=
  List.isSuffixOf_iff_suffix

/-! ## Numbers -/

/-- A number: finite, infinite with a sign, or `NaN`. -/
inductive Number where
  | finite (value : ℚ)
  | infinite (negative : Bool)
  | nan
deriving DecidableEq

/-- `~~n` of a whole number: its value as a signed 32-bit integer. -/
def toInt32 (n : ℤ) : ℤ := n.bmod (2 ^ 32)

theorem toInt32_le (n : ℕ) : toInt32 n ≤ n := by
  rw [toInt32, Int.bmod_def]
  omega

/-- From this magnitude on a literal rounds to `Infinity`: the largest double
plus half a unit in the last place. -/
def overflowBound : ℚ := 2 ^ 1024 - 2 ^ 970

/-- The number that a literal of exact value `q` denotes. -/
def Number.ofRat (q : ℚ) : Number :=
  if overflowBound ≤ q then .infinite false
  else if q ≤ -overflowBound then .infinite true
  else .finite q

/-- The value of a digit in a base up to 16. -/
def digitValue (c : Char) : ℕ :=
  if c.isDigit then c.toNat - '0'.toNat
  else c.toLower.toNat - 'a'.toNat + 10

/-- The value of a digit string in base `base`. -/
def digitsValue (base : ℕ) (ds : List Char) : ℕ :=
  ds.foldl (fun value d => base * value + digitValue d) 0

/-- A hexadecimal digit in either case. -/
def isHexDigit (c : Char) : Bool :=
  c.isDigit || ('a' ≤ c && c ≤ 'f') || ('A' ≤ c && c ≤ 'F')

/-- The digit that is written for a number below 16. -/
def hexDigit (n : ℕ) : Char := "0123456789abcdef".toList.getD n '0'

/-- A non-empty string of digits of one base, and nothing else. -/
def baseLiteral? (base : ℕ) (ds : List Char) : Option ℚ :=
  if ds ≠ [] ∧ ds.all (fun d => d.isAlphanum && digitValue d < base) then
    some (digitsValue base ds)
  else none

/-- What follows the `e` of a decimal literal: an optional sign and digits. -/
def exponent? : List Char → Option ℤ
  | '+' :: ds => (baseLiteral? 10 ds).map fun _ => digitsValue 10 ds
  | '-' :: ds => (baseLiteral? 10 ds).map fun _ => -digitsValue 10 ds
  | ds => (baseLiteral? 10 ds).map fun _ => digitsValue 10 ds

/-- `StrUnsignedDecimalLiteral` other than `Infinity`. -/
def decimalLiteral? (cs : List Char) : Option ℚ :=
  let whole := cs.takeWhile Char.isDigit
  let afterWhole := cs.dropWhile Char.isDigit
  let fraction :=
    match afterWhole with
    | '.' :: rest => rest.takeWhile Char.isDigit
    | _ => []
  let suffix :=
    match afterWhole with
    | '.' :: rest => rest.dropWhile Char.isDigit
    | rest => rest
  let mantissa : ℚ :=
    (digitsValue 10 (whole ++ fraction) : ℚ) / 10 ^ fraction.length
  if whole = [] ∧ fraction = [] then none
  else
    match suffix with
    | [] => some mantissa
    | e :: rest =>
        if e = 'e' ∨ e = 'E' then
          (exponent? rest).map fun x => mantissa * (10 : ℚ) ^ x
        else none

/-- `StrDecimalLiteral`: an optional sign, then `Infinity` or digits. -/
def signedLiteral (cs : List Char) : Number :=
  let negative := cs.head? = some '-'
  let unsigned :=
    match cs with
    | '+' :: rest => rest
    | '-' :: rest => rest
    | rest => rest
  if unsigned = "Infinity".toList then .infinite negative
  else
    match decimalLiteral? unsigned with
    | some q => .ofRat (if negative then -q else q)
    | none => .nan

/-- The number denoted by a string without white space at its ends. -/
def literalNumber (cs : List Char) : Number :=
  match cs with
  | [] => .finite 0
  | '0' :: x :: ds =>
      let base : Option ℕ :=
        if x = 'x' ∨ x = 'X' then some 16
        else if x = 'o' ∨ x = 'O' then some 8
        else if x = 'b' ∨ x = 'B' then some 2
        else none
      match base with
      | some b => ((baseLiteral? b ds).map Number.ofRat).getD .nan
      | none => signedLiteral cs
  | _ => signedLiteral cs

/-- `Number(text)`. -/
def Number.ofString (text : String) : Number :=
  literalNumber (trimChars text.toList)

/-! ## Hexadecimal digits -/

theorem hexDigit_spec {n : ℕ} (h : n < 16) :
    digitValue (hexDigit n) = n ∧ isHexDigit (hexDigit n) = true := by
  have hall : ∀ m : Fin 16, digitValue (hexDigit m) = m.val ∧
      isHexDigit (hexDigit m) = true := by
    decide +kernel
  exact hall ⟨n, h⟩

/-! ## Decimal digits -/

theorem ne_of_isDigit {c x : Char} (hc : c.isDigit = true)
    (hx : x.isDigit = false) : c ≠ x := by
  rintro rfl
  rw [hc] at hx
  cases hx

theorem decimalLiteral?_of_digits {ds : List Char} (hds : ds ≠ [])
    (hall : ∀ d ∈ ds, d.isDigit = true) :
    decimalLiteral? ds = some (digitsValue 10 ds : ℚ) := by
  have htake : ds.takeWhile Char.isDigit = ds :=
    List.takeWhile_eq_self_iff.mpr hall
  have hdrop : ds.dropWhile Char.isDigit = [] :=
    List.dropWhile_eq_nil_iff.mpr hall
  simp [decimalLiteral?, htake, hdrop, hds]

/-- Digits have no sign and are not a word. -/
theorem signedLiteral_of_digits {ds : List Char} (hds : ds ≠ [])
    (hall : ∀ d ∈ ds, d.isDigit = true) :
    signedLiteral ds = .ofRat (digitsValue 10 ds) := by
  have hliteral := decimalLiteral?_of_digits hds hall
  obtain ⟨d, rest, rfl⟩ := List.exists_cons_of_ne_nil hds
  have hd : d.isDigit = true := hall d List.mem_cons_self
  have hplus : d ≠ '+' := ne_of_isDigit hd rfl
  have hminus : d ≠ '-' := ne_of_isDigit hd rfl
  have hword : d :: rest ≠ "Infinity".toList := by
    intro h
    exact ne_of_isDigit (x := 'I') hd rfl (List.cons.inj h).1
  unfold signedLiteral
  split
  next rest' h => exact absurd (List.cons.inj h).1 hplus
  next rest' h => exact absurd (List.cons.inj h).1 hminus
  next =>
    have hsign : ¬(d :: rest).head? = some '-' := by simpa using hminus
    simp only [if_neg hword, hliteral, if_neg hsign]

/-- Digits are a decimal number, also behind a leading zero. -/
theorem literalNumber_of_digits {ds : List Char} (hds : ds ≠ [])
    (hall : ∀ d ∈ ds, d.isDigit = true) :
    literalNumber ds = .ofRat (digitsValue 10 ds) := by
  rw [← signedLiteral_of_digits hds hall]
  unfold literalNumber
  split
  next => exact absurd rfl hds
  next x rest =>
    have hx : x.isDigit = true := hall x (by simp)
    have hne {c : Char} (hc : c.isDigit = false) : x ≠ c := ne_of_isDigit hx hc
    have hbase : (if x = 'x' ∨ x = 'X' then some 16
        else if x = 'o' ∨ x = 'O' then some 8
        else if x = 'b' ∨ x = 'B' then some 2
        else (none : Option ℕ)) = none := by
      simp [hne (c := 'x') rfl, hne (c := 'X') rfl, hne (c := 'o') rfl,
        hne (c := 'O') rfl, hne (c := 'b') rfl, hne (c := 'B') rfl]
    simp only [hbase]
  next => rfl

theorem not_isWhiteSpace_of_isDigit {c : Char} (h : c.isDigit = true) :
    isWhiteSpace c = false := by
  have hrange : 48 ≤ c.toNat ∧ c.toNat ≤ 57 := by
    simpa [Char.isDigit, UInt32.le_iff_toNat_le] using h
  have hall : ∀ n < 10, isWhiteSpace (Char.ofNat (48 + n)) = false := by decide
  have hc := hall (c.toNat - 48) (by omega)
  rwa [Nat.add_sub_cancel' hrange.1, Char.ofNat_toNat] at hc

theorem trimChars_of_digits {ds : List Char}
    (hall : ∀ d ∈ ds, d.isDigit = true) : trimChars ds = ds := by
  have hdrop : ∀ ds : List Char, (∀ d ∈ ds, d.isDigit = true) →
      ds.dropWhile isWhiteSpace = ds := by
    intro ds hall
    cases ds with
    | nil => rfl
    | cons d rest =>
        rw [List.dropWhile_cons_of_neg]
        simp [not_isWhiteSpace_of_isDigit (hall d List.mem_cons_self)]
  rw [trimChars, hdrop ds hall, hdrop ds.reverse (by simpa using hall),
    List.reverse_reverse]

/-- `Number(text)` of digits. -/
theorem ofString_of_digits {ds : List Char} (hds : ds ≠ [])
    (hall : ∀ d ∈ ds, d.isDigit = true) :
    Number.ofString (String.ofList ds) = .ofRat (digitsValue 10 ds) := by
  rw [Number.ofString, String.toList_ofList, trimChars_of_digits hall,
    literalNumber_of_digits hds hall]

/-- Small numbers are as they are. -/
theorem ofRat_natCast {n : ℕ} (h : n < 2 ^ 52) :
    Number.ofRat n = .finite n := by
  have hbound : (2 : ℚ) ^ 52 ≤ overflowBound := by
    rw [overflowBound, le_sub_iff_add_le]
    calc (2 : ℚ) ^ 52 + 2 ^ 970
        ≤ 2 ^ 970 + 2 ^ 970 :=
          add_le_add_left (pow_le_pow_right₀ one_le_two (by decide)) _
      _ = 2 ^ 971 := by rw [← mul_two, ← pow_succ]
      _ ≤ 2 ^ 1024 := pow_le_pow_right₀ one_le_two (by decide)
  have hn : (n : ℚ) < 2 ^ 52 := by exact_mod_cast h
  have hpos : (0 : ℚ) ≤ n := Nat.cast_nonneg n
  rw [Number.ofRat, if_neg (by linarith), if_neg (by linarith)]

/-! ## Rounding -/

/-- `Math.round(q)`: the nearest integer, halves towards positive infinity. -/
def round (q : ℚ) : ℤ := ⌊q + 1 / 2⌋

theorem round_nonneg {q : ℚ} (hq : 0 ≤ q) : 0 ≤ round q := by
  rw [round, Int.floor_nonneg]
  positivity

/-- Rounding does not exceed an integer bound. -/
theorem round_le {q : ℚ} {n : ℤ} (hq : q ≤ n) : round q ≤ n := by
  rw [round, ← Int.lt_add_one_iff, Int.floor_lt]
  push_cast
  linarith

end Js
