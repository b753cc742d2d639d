import WebhookBroadcast.Js.Double
import WebhookBroadcast.Js.Number
import WebhookBroadcast.Js.Record

/-!
# JSON values

What `JSON.parse` returns.  The members of an object are kept as they stand in
the text; of members with one name the last one is the property.
-/

namespace Js

inductive Json where
  | null
  | bool (b : Bool)
  | number (n : Number)
  | string (s : String)
  | array (items : List Json)
  | object (members : List (String × Json))

/-- `value[name]` of an object; no property where there is no object. -/
def Json.get? (value : Json) (name : String) : Option Json :=
  match value with
  | object members => Record.last? Prod.fst Prod.snd members name
  | _ => none

/-- `typeof value === "string"`. -/
def Json.string? : Json → Option String
  | string s => some s
  | _ => none

/-- `typeof value === "number"`. -/
def Json.number? : Json → Option Number
  | number x => some x
  | _ => none

/-- A number that there is: the finite ones are doubles. -/
def Number.Exists : Number → Prop
  | .finite q => IsDouble q
  | _ => True

/-- What `JSON.stringify` writes for a number: no text denotes `NaN` or an
infinite one. -/
def Json.ofNumber : Number → Json
  | .finite q => number (.finite q)
  | _ => null

/-- A value without parts that a text denotes. -/
def Json.Scalar : Json → Prop
  | null => True
  | string _ => True
  | number (.finite q) => IsDouble q
  | _ => False

/-- An object of scalars.  Its members have different names, and none is an
index: those would come first, whatever their place. -/
def Json.Flat : Json → Prop
  | object members => (members.map Prod.fst).Nodup ∧
      ∀ m ∈ members, m.1.toList.head?.all Char.isAlpha ∧ m.2.Scalar
  | _ => False

theorem Json.Scalar.cases : ∀ {value : Json}, value.Scalar →
    value = null ∨ (∃ s, value = string s) ∨ ∃ q, value = number (.finite q)
  | .null, _ => .inl rfl
  | .string s, _ => .inr (.inl ⟨s, rfl⟩)
  | .number (.finite q), _ => .inr (.inr ⟨q, rfl⟩)

@[simp] theorem Json.scalar_string (s : String) : (string s).Scalar := trivial

theorem Json.scalar_ofNumber : ∀ {x : Number}, x.Exists → (ofNumber x).Scalar
  | .finite _, h => h
  | .infinite _, _ => trivial
  | .nan, _ => trivial

theorem Json.ofNumber_eq_number {x : Number} :
    ofNumber x = number x ↔ ∃ q, x = .finite q := by
  cases x <;> simp [ofNumber]

theorem Json.string?_eq_some {value : Json} {s : String} :
    value.string? = some s ↔ value = string s := by
  cases value <;> simp [string?]

theorem Json.number?_eq_some {value : Json} {x : Number} :
    value.number? = some x ↔ value = number x := by
  cases value <;> simp [number?]

end Js
