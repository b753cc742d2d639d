import WebhookBroadcast.Relational.Keyset

/-!
# Cursor parameters

How a list route reads its `cursor` parameter: `parseListCursor` of
`apps/api/src/admin/validation.ts`.
-/

namespace WebhookBroadcast

open Relational

/-- An error response: `errorBody(code, message)` and its status. -/
structure Refusal where
  status : ℕ
  code : String
  message : String
deriving DecidableEq

/-- The error handler of the application. -/
def internalError : Refusal := ⟨500, "internal_error", "internal server error"⟩

def invalidCursor : Refusal := ⟨400, "validation_failed", "invalid cursor"⟩

/-- No cursor when the parameter is absent or empty, `400` when it cannot be
decoded. -/
def parseListCursor {κ : Type} (cursorParam : Option String)
    (decode : String → Option κ) : Except Refusal (Option κ) :=
  match cursorParam with
  | none => .ok none
  | some text =>
      if text = "" then .ok none
      else
        match decode text with
        | none => .error invalidCursor
        | some cursor => .ok (some cursor)

/-- The text of a cursor is read as the cursor. -/
theorem parseListCursor_encode {κ : Type} (codec : Codec κ)
    (cursor : Option κ) :
    parseListCursor (cursor.map codec.encode) codec.decode = .ok cursor := by
  cases cursor with
  | none => rfl
  | some k =>
      simp [parseListCursor, codec.encode_ne_empty, codec.decode_encode]

end WebhookBroadcast
