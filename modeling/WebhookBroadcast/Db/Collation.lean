import Mathlib.Data.Prod.Lex
import Mathlib.Data.String.Basic
import WebhookBroadcast.Db.Schema

/-!
# Column orders

The orders that `ORDER BY` and the comparisons of a keyset `WHERE` use: ids by
their bytes, texts by the collation of the database, which may be any total
order.
-/

namespace WebhookBroadcast

instance : LinearOrder Uuid where
  le_refl := BitVec.le_refl
  le_trans _ _ _ := BitVec.le_trans
  le_antisymm _ _ := BitVec.le_antisymm
  le_total := BitVec.le_total
  lt_iff_le_not_ge a b := by
    rw [BitVec.not_le]
    exact ⟨fun h => ⟨BitVec.le_of_lt h, h⟩, And.right⟩
  toDecidableLE := inferInstance

/-- The collation of the database. -/
class Collation where
  order : LinearOrder String

/-- A text that is compared under the collation. -/
structure Collated where
  text : String
deriving DecidableEq

theorem Collated.text_injective : Function.Injective Collated.text := by
  rintro ⟨a⟩ ⟨b⟩ h
  cases h
  rfl

instance [Collation] : LinearOrder Collated :=
  @LinearOrder.lift' _ _ Collation.order Collated.text Collated.text_injective

/-- The collation `C`: texts by their code points. -/
@[reducible] def Collation.c : Collation := ⟨inferInstance⟩

end WebhookBroadcast
