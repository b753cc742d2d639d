import WebhookBroadcast.Net.Ip

/-!
# Endpoint URLs

`packages/contract/src/endpointUrl.ts`: the hosts that are blocked, and the
checks that a URL passes before an Endpoint is written.
-/

namespace WebhookBroadcast

open Js Net

def blockedHostnames : List String :=
  ["localhost", "metadata", "metadata.google.internal", "metadata.google"]

/-- `Number.isInteger(octet) && octet >= 0 && octet <= 255`. -/
def integerOctet? : Number → Option ℕ
  | .finite q => if q.isInt ∧ 0 ≤ q ∧ q ≤ 255 then some q.num.toNat else none
  | _ => none

def parseIpv4Octets (host : String) : Option (List ℕ) :=
  let parts := split host '.'
  if parts.length ≠ 4 then none
  else (parts.map Number.ofString).mapM integerOctet?

def isBlockedIpv4 (host : String) : Bool :=
  match parseIpv4Octets host with
  | some (a :: b :: _) =>
      if a = 10 then true
      else if a = 172 ∧ 16 ≤ b ∧ b ≤ 31 then true
      else if a = 192 ∧ b = 168 then true
      else if a = 127 then true
      else if a = 169 ∧ b = 254 then true
      else if a = 0 then true
      else if a = 100 ∧ 64 ≤ b ∧ b ≤ 127 then true
      else false
  | _ => false

def isBlockedIpv6 (host : String) : Bool :=
  let normalized := toLowerCase host
  if normalized = "::1" ∨ normalized = "0:0:0:0:0:0:0:1" then true
  else if startsWith normalized "fe80:" then true
  else if startsWith normalized "fc" || startsWith normalized "fd" then true
  else if startsWith normalized "::ffff:" then
    let mapped := slice normalized "::ffff:".length
    if isIP mapped = 4 then isBlockedIpv4 mapped else false
  else false

/-- `host.replace(/\.$/, "")`. -/
def withoutFinalDot (host : String) : String :=
  if host.toList.getLast? = some '.' then String.ofList host.toList.dropLast
  else host

def isBlockedHost (host : String) : Bool :=
  let normalized := withoutFinalDot (toLowerCase host)
  if normalized ∈ blockedHostnames then true
  else if endsWith normalized ".localhost" || endsWith normalized ".local" then
    true
  else if isIP normalized = 4 then isBlockedIpv4 normalized
  else if isIP normalized = 6 then isBlockedIpv6 normalized
  else false

/-! ## Admission -/

/-- The parts of `new URL(text)` that are looked at. -/
structure Url where
  protocol : String
  username : String
  password : String
  hostname : String
deriving DecidableEq

/-- `new URL(text)`, nothing where it throws.  The empty text is no URL, and the
host of one has brackets around an IPv6 address. -/
structure UrlParser where
  parse : String → Option Url
  parse_empty : parse "" = none
  hostname : ∀ {text url}, parse text = some url → isIP url.hostname ≠ 6

/-- The answer to `lookup(hostname, { all: true, verbatim: true })`: addresses,
or what the promise is rejected with. -/
abbrev Lookup (ε : Type) := String → Except ε (List String)

/-- What `assertSafeEndpointUrl` rejects with: `UnsafeEndpointUrlError`, or what
something it awaits rejects with. -/
inductive UrlError (ε : Type) where
  | unsafeEndpointUrl (message : String)
  | other (error : ε)
deriving DecidableEq

section Admission

variable {ε : Type}

def assertAllowedProtocol (url : Url) : Except (UrlError ε) Unit :=
  if url.protocol ≠ "https:" then
    .error (.unsafeEndpointUrl "endpoint URL must use https")
  else if url.username ≠ "" ∨ url.password ≠ "" then
    .error (.unsafeEndpointUrl "endpoint URL must not embed credentials")
  else .ok ()

def assertAllowedHostname (hostname : String) : Except (UrlError ε) Unit :=
  if isBlockedHost hostname then
    .error (.unsafeEndpointUrl "endpoint URL targets a blocked host")
  else .ok ()

def assertSafeEndpointUrl (parser : UrlParser) (lookup : Lookup ε)
    (urlString : String) : Except (UrlError ε) Unit :=
  match parser.parse urlString with
  | none => .error (.unsafeEndpointUrl "endpoint URL is invalid")
  | some url => do
      assertAllowedProtocol url
      assertAllowedHostname url.hostname
      if isIP url.hostname ≠ 0 then return ()
      else
        match lookup url.hostname with
        | .error e => throw (.other e)
        | .ok records =>
            if records.length = 0 then
              throw (.unsafeEndpointUrl
                "endpoint URL hostname did not resolve")
            else if records.any isBlockedHost then
              throw (.unsafeEndpointUrl
                "endpoint URL resolves to a blocked address")
            else return ()

end Admission

end WebhookBroadcast
