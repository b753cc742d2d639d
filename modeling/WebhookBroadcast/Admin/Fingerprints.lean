import WebhookBroadcast.Worker.ForwardHeaders

/-!
# Fingerprints of forwarded headers

How the admin API identifies the stored headers that a Channel forwards without
showing their values.
-/

namespace WebhookBroadcast

/-- `FORWARDED_HEADER_FINGERPRINT_LENGTH`. -/
def FORWARDED_HEADER_FINGERPRINT_LENGTH : ℕ := 12

structure ForwardedHeaderFingerprint where
  name : String
  fingerprint : String
deriving DecidableEq

/-- The first digits of the digest of every forwarded value, by name; nothing
at all when the Channel asks to forward nothing.  `sha256` is the digest in hex
and `localeCompare` the order of names. -/
def fingerprintForwardedHeaders [Js.LowerCasing] (sha256 : String → String)
    (localeCompare : String → String → Ordering)
    (broadcastHeaders : Js.Record HeaderValue) (forwardHeaders : List String) :
    Option (List ForwardedHeaderFingerprint) :=
  if normalizeForwardAllowlist forwardHeaders = [] then none
  else
    some (((selectForwardableHeaders broadcastHeaders
      forwardHeaders).entries.map fun entry =>
        { name := entry.1
          fingerprint := String.ofList ((sha256 entry.2).toList.take
            FORWARDED_HEADER_FINGERPRINT_LENGTH) }).mergeSort
      fun a b => localeCompare a.name b.name != .gt)

end WebhookBroadcast
