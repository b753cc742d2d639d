import Mathlib.Data.List.TakeWhile
import WebhookBroadcast.Js.Number

/-!
# IP addresses and their spellings

What Node's `isIP` accepts, and the address that it denotes.  IPv4 has four
decimal numbers without leading zeros.  IPv6 has eight groups of at most four
hexadecimal digits, where `::` stands for at least one group of zeros, the last
two groups may be written as an IPv4 address, and a zone may follow.
-/

namespace Net

open Js

/-! ## Numbers from groups -/

/-- The number with these digits. -/
def ofGroups (base : ℕ) (groups : List ℕ) : ℕ :=
  groups.foldl (fun value group => base * value + group) 0

theorem foldl_groups (base : ℕ) (groups : List ℕ) (value : ℕ) :
    groups.foldl (fun value group => base * value + group) value =
      base ^ groups.length * value + ofGroups base groups := by
  induction groups generalizing value with
  | nil => simp [ofGroups]
  | cons group rest ih =>
      simp only [ofGroups, List.foldl_cons, List.length_cons, pow_succ]
      rw [ih, ih (base * 0 + group)]
      ring

theorem ofGroups_cons (base group : ℕ) (rest : List ℕ) :
    ofGroups base (group :: rest) =
      base ^ rest.length * group + ofGroups base rest := by
  rw [ofGroups, List.foldl_cons, foldl_groups]
  simp

theorem ofGroups_lt {base : ℕ} {groups : List ℕ}
    (h : ∀ group ∈ groups, group < base) :
    ofGroups base groups < base ^ groups.length := by
  induction groups with
  | nil => simp [ofGroups]
  | cons group rest ih =>
      rw [List.forall_mem_cons] at h
      have hrest := ih h.2
      have hgroup : base ^ rest.length * (group + 1) ≤
          base ^ rest.length * base := Nat.mul_le_mul_left _ h.1
      rw [ofGroups_cons, List.length_cons, pow_succ]
      rw [mul_add, mul_one] at hgroup
      omega

/-! ## IPv4 -/

/-- A decimal number up to 255, without leading zeros. -/
def octet? (field : List Char) : Option ℕ :=
  if field ≠ [] ∧ field.all Char.isDigit ∧
      (field.length = 1 ∨ field.head? ≠ some '0') ∧
      digitsValue 10 field ≤ 255 then
    some (digitsValue 10 field)
  else none

/-- Four of them with dots between them. -/
def quad? (cs : List Char) : Option (List ℕ) :=
  ((cs.splitOn '.').mapM octet?).filter (·.length = 4)

/-! ## IPv6 -/

def isHexDigit (c : Char) : Bool :=
  c.isDigit || c ∈ ['a', 'b', 'c', 'd', 'e', 'f']

/-- One to four hexadecimal digits. -/
def group? (field : List Char) : Option ℕ :=
  if field ≠ [] ∧ field.length ≤ 4 ∧ field.all isHexDigit then
    some (digitsValue 16 field)
  else none

/-- Two groups written as an IPv4 address. -/
def dotted? (field : List Char) : Option (List ℕ) :=
  match quad? field with
  | some [a, b, c, d] => some [256 * a + b, 256 * c + d]
  | _ => none

/-- Groups, of which the last two may be written as an IPv4 address. -/
def groups? : List (List Char) → Option (List ℕ)
  | [] => none
  | [field] => ((group? field).map fun group => [group]) <|> dotted? field
  | field :: rest => do
      let group ← group? field
      let groups ← groups? rest
      return group :: groups

/-- What stands before and after the first `::`. -/
def compressed? : List Char → Option (List Char × List Char)
  | ':' :: ':' :: rest => some ([], rest)
  | c :: rest =>
      (compressed? rest).map fun sides => (c :: sides.1, sides.2)
  | [] => none

/-- The groups on one side of `::`, maybe none. -/
def side? (groups : List (List Char) → Option (List ℕ)) (cs : List Char) :
    Option (List ℕ) :=
  if cs = [] then some [] else groups (cs.splitOn ':')

def eightGroups? (cs : List Char) : Option (List ℕ) :=
  match compressed? cs with
  | none => (groups? (cs.splitOn ':')).filter (·.length = 8)
  | some (before, after) => do
      let front ← side? (List.mapM group?) before
      let back ← side? groups? after
      if front.length + back.length ≤ 7 then
        some (front ++ List.replicate (8 - (front.length + back.length)) 0 ++
          back)
      else none

/-- The characters of a zone. -/
def isZoneChar (c : Char) : Bool :=
  c.isAlphanum || c ∈ ['-', '.', ':']

/-- Eight groups, and a zone after `%` if there is one. -/
def ipv6? (cs : List Char) : Option (List ℕ) :=
  match cs.dropWhile (· ≠ '%') with
  | [] => eightGroups? cs
  | _ :: zone =>
      if zone ≠ [] ∧ zone.all isZoneChar then
        eightGroups? (cs.takeWhile (· ≠ '%'))
      else none

/-! ## Addresses -/

inductive Address where
  | v4 (value : ℕ)
  | v6 (value : ℕ)
deriving DecidableEq

/-- The address that a text in lower case denotes. -/
def addressOf? (cs : List Char) : Option Address :=
  match quad? cs with
  | some octets => some (.v4 (ofGroups 256 octets))
  | none => (ipv6? cs).map fun groups => .v6 (ofGroups 65536 groups)

/-- The address that a text denotes. -/
def address? (text : String) : Option Address :=
  addressOf? (text.toList.map Char.toLower)

/-- `isIP(text)`. -/
def isIP (text : String) : ℕ :=
  match address? text with
  | none => 0
  | some (.v4 _) => 4
  | some (.v6 _) => 6

theorem isIP_cases (text : String) :
    isIP text = 0 ∨ isIP text = 4 ∨ isIP text = 6 := by
  unfold isIP
  split <;> simp

/-- The addresses that begin with the first bits of one. -/
structure Block (width : ℕ) where
  base : ℕ
  length : ℕ

def Block.Contains {width : ℕ} (block : Block width) (value : ℕ) : Prop :=
  value / 2 ^ (width - block.length) = block.base / 2 ^ (width - block.length)

instance {width : ℕ} (block : Block width) (value : ℕ) :
    Decidable (block.Contains value) :=
  inferInstanceAs (Decidable (_ = _))

end Net
