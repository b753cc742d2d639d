import WebhookBroadcast.Db.Schema
import WebhookBroadcast.Js.Number

/-!
# The text of a UUID

Ids leave the database as texts: 32 hexadecimal digits in lower case, in groups
of 8, 4, 4, 4 and 12.  `UUID_PATTERN` of `apps/web/src/lib/channelRef.ts`
recognises such a text in either case.
-/

namespace WebhookBroadcast

open Js

namespace Uuid

/-- The last `count` hexadecimal digits of a number. -/
def nibbles : ℕ → ℕ → List ℕ
  | 0, _ => []
  | count + 1, n => nibbles count (n / 16) ++ [n % 16]

def digits (id : Uuid) : List Char := (nibbles 32 id.toNat).map hexDigit

/-- The groups of a UUID, joined by dashes. -/
def dashed (digits : List Char) : List Char :=
  ['-'].intercalate [digits.take 8, (digits.drop 8).take 4,
    (digits.drop 12).take 4, (digits.drop 16).take 4, digits.drop 20]

/-- An id as Postgres writes it. -/
def text (id : Uuid) : String := String.ofList (dashed id.digits)

/-- `UUID_PATTERN.test(text)`. -/
def matchesPattern (text : String) : Bool :=
  (text.toList.splitOn '-').map List.length = [8, 4, 4, 4, 12] &&
    (text.toList.splitOn '-').all fun group => group.all isHexDigit

/-- The id that a text in this form denotes. -/
def ofText? (text : String) : Option Uuid :=
  if matchesPattern text then
    some (.ofNat 128 (digitsValue 16 (text.toList.filter (· ≠ '-'))))
  else none

/-! ## Texts of ids -/

theorem length_nibbles (count n : ℕ) : (nibbles count n).length = count := by
  induction count generalizing n with
  | zero => rfl
  | succ count ih => rw [nibbles, List.length_append, ih, List.length_singleton]

theorem lt_of_mem_nibbles {count n d : ℕ} (h : d ∈ nibbles count n) : d < 16 := by
  induction count generalizing n with
  | zero => exact absurd h List.not_mem_nil
  | succ count ih =>
      rcases List.mem_append.mp h with h | h
      · exact ih h
      · rw [List.mem_singleton.mp h]
        exact Nat.mod_lt n (by decide)

theorem hexDigit_ne_dash {n : ℕ} (h : n < 16) : hexDigit n ≠ '-' := by
  intro hdash
  have hhex := (hexDigit_spec h).2
  rw [hdash] at hhex
  exact absurd hhex (by decide)

theorem digitsValue_nibbles (count n : ℕ) :
    digitsValue 16 ((nibbles count n).map hexDigit) = n % 16 ^ count := by
  induction count generalizing n with
  | zero => rw [pow_zero, Nat.mod_one]; rfl
  | succ count ih =>
      have hlast := (hexDigit_spec (Nat.mod_lt n (by decide : 0 < 16))).1
      have hrest := ih (n / 16)
      rw [digitsValue] at hrest ⊢
      rw [nibbles, List.map_append, List.foldl_append, hrest]
      change 16 * (n / 16 % 16 ^ count) + digitValue (hexDigit (n % 16)) = _
      rw [hlast, pow_succ', Nat.mod_mul, Nat.add_comm]

theorem mem_digits {id : Uuid} {c : Char} (h : c ∈ id.digits) :
    isHexDigit c = true ∧ c ≠ '-' := by
  obtain ⟨n, hn, rfl⟩ := List.mem_map.mp h
  exact ⟨(hexDigit_spec (lt_of_mem_nibbles hn)).2,
    hexDigit_ne_dash (lt_of_mem_nibbles hn)⟩

theorem length_digits (id : Uuid) : id.digits.length = 32 := by
  rw [digits, List.length_map, length_nibbles]

theorem groups_dashed {ds : List Char} (h : '-' ∉ ds) :
    ∀ group ∈ [ds.take 8, (ds.drop 8).take 4, (ds.drop 12).take 4,
      (ds.drop 16).take 4, ds.drop 20], '-' ∉ group := by
  intro group hgroup hdash
  simp only [List.mem_cons, List.not_mem_nil, or_false] at hgroup
  rcases hgroup with rfl | rfl | rfl | rfl | rfl
  · exact h (List.mem_of_mem_take hdash)
  · exact h (List.mem_of_mem_drop (List.mem_of_mem_take hdash))
  · exact h (List.mem_of_mem_drop (List.mem_of_mem_take hdash))
  · exact h (List.mem_of_mem_drop (List.mem_of_mem_take hdash))
  · exact h (List.mem_of_mem_drop hdash)

theorem splitOn_dashed {ds : List Char} (h : '-' ∉ ds) :
    (dashed ds).splitOn '-' = [ds.take 8, (ds.drop 8).take 4,
      (ds.drop 12).take 4, (ds.drop 16).take 4, ds.drop 20] :=
  List.splitOn_intercalate _ (groups_dashed h) (by simp)

theorem toList_text (id : Uuid) : id.text.toList = dashed id.digits :=
  String.toList_ofList

theorem not_dash_mem_digits (id : Uuid) : '-' ∉ id.digits :=
  fun h => (mem_digits h).2 rfl

/-- The text of an id has the form of one. -/
theorem matchesPattern_text (id : Uuid) : matchesPattern id.text = true := by
  have hlength := id.length_digits
  have hhex : ∀ c ∈ id.digits, isHexDigit c = true := fun c h => (mem_digits h).1
  rw [matchesPattern, toList_text, splitOn_dashed id.not_dash_mem_digits,
    Bool.and_eq_true, decide_eq_true_eq]
  refine ⟨by simp [hlength], ?_⟩
  simp only [List.all_cons, List.all_nil, Bool.and_true, Bool.and_eq_true,
    List.all_eq_true]
  refine ⟨?_, ?_, ?_, ?_, ?_⟩ <;> intro c hc
  · exact hhex c (List.mem_of_mem_take hc)
  · exact hhex c (List.mem_of_mem_drop (List.mem_of_mem_take hc))
  · exact hhex c (List.mem_of_mem_drop (List.mem_of_mem_take hc))
  · exact hhex c (List.mem_of_mem_drop (List.mem_of_mem_take hc))
  · exact hhex c (List.mem_of_mem_drop hc)

theorem filter_intercalate {groups : List (List Char)}
    (h : ∀ group ∈ groups, '-' ∉ group) :
    (['-'].intercalate groups).filter (· ≠ '-') = groups.flatten := by
  have hkept {group : List Char} (hgroup : '-' ∉ group) :
      group.filter (· ≠ '-') = group := by
    rw [List.filter_eq_self]
    exact fun c hc => decide_eq_true fun hdash => hgroup (hdash ▸ hc)
  induction groups with
  | nil => rfl
  | cons group groups ih =>
      have hgroup := hkept (h group List.mem_cons_self)
      have hgroups := ih fun group hmem => h group (List.mem_cons_of_mem _ hmem)
      cases groups with
      | nil => simpa [List.intercalate] using hgroup
      | cons next groups =>
          rw [List.intercalate_cons_cons, List.filter_append,
            List.filter_append, hgroup, hgroups]
          simp

theorem filter_dashed {ds : List Char} (h : '-' ∉ ds) :
    (dashed ds).filter (· ≠ '-') = ds := by
  have hpart (m n k : ℕ) (hk : k = m + n) :
      (ds.drop m).take n ++ ds.drop k = ds.drop m := by
    rw [hk, ← List.drop_drop, List.take_append_drop]
  rw [dashed, filter_intercalate]
  · simp only [List.flatten_cons, List.flatten_nil, List.append_nil]
    rw [hpart 16 4 20 rfl, hpart 12 4 16 rfl, hpart 8 4 12 rfl]
    exact List.take_append_drop 8 ds
  · exact groups_dashed h

/-- The characters of the text of an id. -/
theorem mem_text {id : Uuid} {c : Char} (h : c ∈ id.text.toList) :
    c = '-' ∨ ∃ n < 16, c = hexDigit n := by
  rw [toList_text] at h
  by_cases hdash : c = '-'
  · exact Or.inl hdash
  · right
    have hc : c ∈ id.digits := by
      rw [← filter_dashed id.not_dash_mem_digits, List.mem_filter]
      exact ⟨h, decide_eq_true hdash⟩
    obtain ⟨n, hn, rfl⟩ := List.mem_map.mp hc
    exact ⟨n, lt_of_mem_nibbles hn, rfl⟩

theorem text_ne_empty (id : Uuid) : id.text ≠ "" := by
  intro h
  have hpattern := matchesPattern_text id
  rw [h] at hpattern
  exact absurd hpattern (by decide)

/-- An id is read back from its text. -/
theorem ofText?_text (id : Uuid) : ofText? id.text = some id := by
  rw [ofText?, if_pos (matchesPattern_text id), toList_text,
    filter_dashed id.not_dash_mem_digits, digits, digitsValue_nibbles]
  congr 1
  apply BitVec.eq_of_toNat_eq
  have hlt := id.isLt
  rw [BitVec.toNat_ofNat]
  omega

theorem text_injective : Function.Injective text := by
  intro id id' h
  have hread := congrArg ofText? h
  rw [ofText?_text, ofText?_text] at hread
  exact Option.some.inj hread

end Uuid

end WebhookBroadcast
