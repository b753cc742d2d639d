import WebhookBroadcast.Db.Schema
import WebhookBroadcast.Js.Number

/-!
# Forwarded headers

Which stored inbound headers an Attempt relays, and under which names.
-/

namespace WebhookBroadcast

/-- Names that are never forwarded, whatever the allow-list says. -/
def NEVER_FORWARD : List String := ["authorization"]

/-- The header names that an allow-list asks for, once blanks are dropped and
`NEVER_FORWARD` is applied. -/
def normalizeForwardAllowlist [Js.LowerCasing] (allowlist : List String) : List String :=
  (allowlist.map fun name => Js.toLowerCase (Js.trim name)).filter
    fun name => name ≠ "" ∧ name ∉ NEVER_FORWARD

/-- The representation of a stored value that one outbound header carries. -/
def HeaderValue.joined : HeaderValue → String
  | single value => value
  | many values => ", ".intercalate values

/-- The stored inbound headers named on the allow-list, matched
case-insensitively. -/
def selectForwardableHeaders [Js.LowerCasing]
    (broadcastHeaders : Js.Record HeaderValue) (allowlist : List String) :
    Js.Record String :=
  let allowSet := normalizeForwardAllowlist allowlist
  if allowSet = [] then .empty
  else
    broadcastHeaders.entries.foldl
      (fun result entry =>
        let lowerKey := Js.toLowerCase entry.1
        if lowerKey ∉ allowSet ∨ lowerKey ∈ NEVER_FORWARD then result
        else result.set entry.1 entry.2.joined)
      .empty

/-- The record with every name lowercased; of names that collide, the last
value wins. -/
def byLowercaseName [Js.LowerCasing] (headers : Js.Record String) :
    Js.Record String :=
  headers.entries.foldl
    (fun result entry => result.set (Js.toLowerCase entry.1) entry.2) .empty

end WebhookBroadcast
