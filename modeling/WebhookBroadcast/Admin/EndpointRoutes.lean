import WebhookBroadcast.Admin.Cursors
import WebhookBroadcast.Contract.EndpointUrl
import WebhookBroadcast.Db.Endpoints
import WebhookBroadcast.Net.Spelling

/-!
# Writing Endpoints

The create and PATCH routes of `apps/api/src/admin/endpoints.ts`, and what they
make of a URL whose host does not resolve.
-/

namespace WebhookBroadcast

open Js Net

/-- What a route that writes an Endpoint answers. -/
inductive EndpointResponse where
  | written (status : ℕ) (row : EndpointRow)
  | refused (refusal : Refusal)

def EndpointResponse.status : EndpointResponse → ℕ
  | written status _ => status
  | refused refusal => refusal.status

def invalidEndpointPayload : Refusal :=
  ⟨400, "validation_failed", "invalid endpoint payload"⟩

def endpointUrlConflict (url : String) : Refusal :=
  ⟨409, "conflict", "url \"" ++ url ++ "\" is already in use on this channel"⟩

def endpointNotFound : Refusal := ⟨404, "not_found", "endpoint not found"⟩

/-- `endpointUrlSchema`: the URL that `z.url()` makes of a text, nothing where
it refuses one.  It accepts only what `new URL` does. -/
structure UrlSchema extends UrlParser where
  safeParse : String → Option String
  parse_of_safeParse : ∀ {text url}, safeParse text = some url →
    (parse url).isSome

section Routes

variable {ε : Type} (schema : UrlSchema) (lookup : Lookup ε)

/-- The `catch` around `assertSafeEndpointUrl`: only its own error is answered
with `400`. -/
def urlRefusal (url : String) : Option Refusal :=
  match assertSafeEndpointUrl schema.toUrlParser lookup url with
  | .ok _ => none
  | .error (.unsafeEndpointUrl message) =>
      some ⟨400, "validation_failed", message⟩
  | .error (.other _) => some internalError

/-- `POST /channels/:channelId/endpoints` of a Channel that exists, with a body
whose other fields are valid. -/
def postEndpoint (channelId id : Uuid) (now : Instant) (body : EndpointCreate)
    (db : Database) : EndpointResponse × Database :=
  match schema.safeParse body.url with
  | none => (.refused invalidEndpointPayload, db)
  | some url =>
      match urlRefusal schema lookup url with
      | some refusal => (.refused refusal, db)
      | none =>
          match insertEndpoint db
              (EndpointCreate.toRow { body with url := url } id channelId
                now) with
          | (.ok row, db') => (.written 201 row, db')
          | (.error (.urlConflict url), db') =>
              (.refused (endpointUrlConflict url), db')
          | (.error (.database _), db') => (.refused internalError, db')

/-- The update of a PATCH. -/
def patchRow (channelId endpointId : Uuid) (now : Instant)
    (body : EndpointUpdate) (db : Database) : EndpointResponse × Database :=
  match updateEndpoint db channelId endpointId
      { toEndpointUpdate := body
        autoDisabledAt := if body.enabled = some true then some none else none
        updatedAt := now } with
  | (.ok none, db') => (.refused endpointNotFound, db')
  | (.ok (some row), db') => (.written 200 row, db')
  | (.error (.urlConflict url), db') =>
      (.refused (endpointUrlConflict url), db')
  | (.error (.database _), db') => (.refused internalError, db')

/-- `PATCH /channels/:channelId/endpoints/:endpointId` of a Channel that exists,
with a body whose other fields are valid. -/
def patchEndpoint (channelId endpointId : Uuid) (now : Instant)
    (body : EndpointUpdate) (db : Database) : EndpointResponse × Database :=
  match body.url with
  | none => patchRow channelId endpointId now body db
  | some text =>
      match schema.safeParse text with
      | none => (.refused invalidEndpointPayload, db)
      | some url =>
          let parsed : EndpointUpdate := { body with url := some url }
          if url = "" then patchRow channelId endpointId now parsed db
          else
            match urlRefusal schema lookup url with
            | some refusal => (.refused refusal, db)
            | none => patchRow channelId endpointId now parsed db

end Routes

/-! ## Safe URLs -/

/-- The URL passes the checks before the lookup. -/
structure Url.Allowed (url : Url) : Prop where
  protocol : url.protocol = "https:"
  username : url.username = ""
  password : url.password = ""
  hostname : isBlockedHost url.hostname = false

/-- The hostname is an IPv6 address in the brackets of a URL. -/
def Bracketed (hostname address : String) : Prop :=
  hostname = "[" ++ address ++ "]" ∧ isIP address = 6

/-- The host is blocked, as it stands or without the brackets. -/
def HostBlocked (hostname : String) : Prop :=
  isBlockedHost hostname = true ∨
    ∃ address, Bracketed hostname address ∧ isBlockedHost address = true

def IpLiteral (hostname : String) : Prop :=
  isIP hostname = 4 ∨ ∃ address, Bracketed hostname address

/-- The resolver knows addresses, and none of them is blocked. -/
def ResolvesUnblocked {ε : Type} (lookup : Lookup ε) (hostname : String) :
    Prop :=
  ∃ records, lookup hostname = .ok records ∧ records ≠ [] ∧
    ∀ address ∈ records, isBlockedHost address = false

structure Url.Safe {ε : Type} (lookup : Lookup ε) (url : Url) : Prop where
  protocol : url.protocol = "https:"
  username : url.username = ""
  password : url.password = ""
  host : ¬ HostBlocked url.hostname
  target : IpLiteral url.hostname ∨ ResolvesUnblocked lookup url.hostname

/-- Brackets hide an address from `isIP`. -/
theorem isIP_of_bracketed {hostname address : String}
    (h : Bracketed hostname address) : isIP hostname = 0 := by
  have hnone : address? hostname = none := by
    rw [address?, h.1, String.toList_append, String.toList_append,
      List.append_assoc, List.map_append]
    exact addressOf?_cons_eq_none (by decide) (by decide) (by decide)
  rw [isIP, hnone]

section Admission

variable {ε : Type} {parser : UrlParser} {lookup : Lookup ε}
  {urlString : String} {url : Url}

/-- What is not allowed is refused before the lookup. -/
theorem assertSafe_of_not_allowed (lookup : Lookup ε)
    (hparse : parser.parse urlString = some url) (hnot : ¬ url.Allowed) : ∃ message,
      assertSafeEndpointUrl parser lookup urlString =
        .error (.unsafeEndpointUrl message) := by
  simp only [assertSafeEndpointUrl, hparse, assertAllowedProtocol,
    assertAllowedHostname]
  by_cases hprotocol : url.protocol = "https:"
  · by_cases hcredentials : url.username = "" ∧ url.password = ""
    · have hblocked : isBlockedHost url.hostname = true := by
        by_contra hfree
        exact hnot ⟨hprotocol, hcredentials.1, hcredentials.2,
          by simpa using hfree⟩
      rw [if_neg (not_not_intro hprotocol), if_neg (by tauto),
        if_pos hblocked]
      exact ⟨_, rfl⟩
    · rw [if_neg (not_not_intro hprotocol), if_pos (by tauto)]
      exact ⟨_, rfl⟩
  · rw [if_pos hprotocol]
    exact ⟨_, rfl⟩

theorem assertSafe_of_allowed (hparse : parser.parse urlString = some url)
    (h : url.Allowed) : assertSafeEndpointUrl parser lookup urlString =
      if isIP url.hostname ≠ 0 then .ok ()
      else
        match lookup url.hostname with
        | .error e => .error (.other e)
        | .ok records =>
            if records.length = 0 then
              .error (.unsafeEndpointUrl
                "endpoint URL hostname did not resolve")
            else if records.any isBlockedHost then
              .error (.unsafeEndpointUrl
                "endpoint URL resolves to a blocked address")
            else .ok () := by
  simp only [assertSafeEndpointUrl, hparse, assertAllowedProtocol,
    assertAllowedHostname, h.protocol, h.username, h.password, h.hostname]
  rfl

theorem assertSafe_eq_ok_iff :
    assertSafeEndpointUrl parser lookup urlString = .ok () ↔
      ∃ url, parser.parse urlString = some url ∧ url.Allowed ∧
        (isIP url.hostname ≠ 0 ∨ ResolvesUnblocked lookup url.hostname) := by
  cases hparse : parser.parse urlString with
  | none => simp [assertSafeEndpointUrl, hparse]
  | some url =>
      simp only [Option.some.injEq, exists_eq_left']
      by_cases h : url.Allowed
      · rw [assertSafe_of_allowed hparse h, and_iff_right h]
        split
        next hip => simp [hip]
        next hip =>
          rw [or_iff_right hip, ResolvesUnblocked]
          cases hlookup : lookup url.hostname with
          | error e => simp
          | ok records =>
              cases records with
              | nil => simp
              | cons record rest => simp
      · obtain ⟨message, hrefused⟩ :=
          assertSafe_of_not_allowed lookup hparse h
        simp [hrefused, h]

theorem assertSafe_eq_other_iff {e : ε} :
    assertSafeEndpointUrl parser lookup urlString = .error (.other e) ↔
      ∃ url, parser.parse urlString = some url ∧ url.Allowed ∧
        isIP url.hostname = 0 ∧ lookup url.hostname = .error e := by
  cases hparse : parser.parse urlString with
  | none => simp [assertSafeEndpointUrl, hparse]
  | some url =>
      simp only [Option.some.injEq, exists_eq_left']
      by_cases h : url.Allowed
      · rw [assertSafe_of_allowed hparse h, and_iff_right h]
        split
        next hip => simp [hip]
        next hip =>
          rw [and_iff_right (not_not.mp hip)]
          cases hlookup : lookup url.hostname with
          | error e' => simp
          | ok records =>
              dsimp only
              split
              next => simp
              next =>
                split
                next => simp
                next => simp
      · obtain ⟨message, hrefused⟩ :=
          assertSafe_of_not_allowed lookup hparse h
        simp [hrefused, h]

end Admission

/-! ## Admission -/

section Schema

variable {ε : Type} (schema : UrlSchema) (lookup : Lookup ε)
  (urlString : String)

/-- What becomes of a text as URL: it is admitted or refused as unsafe, with
`400` by both routes, and admitted only if it is safe. -/
structure SoundlyAdmitted : Prop where
  total : ∀ e, assertSafeEndpointUrl schema.toUrlParser lookup urlString ≠
    .error (.other e)
  create : ∀ channelId id now body db,
    schema.safeParse body.url = some urlString →
    assertSafeEndpointUrl schema.toUrlParser lookup urlString ≠ .ok () →
      (postEndpoint schema lookup channelId id now body db).1.status = 400
  patch : ∀ channelId endpointId now body db, ∀ text ∈ body.url,
    schema.safeParse text = some urlString →
    assertSafeEndpointUrl schema.toUrlParser lookup urlString ≠ .ok () →
      (patchEndpoint schema lookup channelId endpointId now body db).1.status =
        400
  sound : assertSafeEndpointUrl schema.toUrlParser lookup urlString = .ok () →
    ∃ url, schema.parse urlString = some url ∧ url.Safe lookup

/-- An allowed URL with a host to look up, where the lookup is rejected, or
gives addresses for a blocked address in brackets. -/
def LookupFails : Prop :=
  ∃ url, schema.parse urlString = some url ∧ url.Allowed ∧
    isIP url.hostname = 0 ∧
      ((∃ e, lookup url.hostname = .error e) ∨
        (ResolvesUnblocked lookup url.hostname ∧
          ∃ address, Bracketed url.hostname address ∧
            isBlockedHost address = true))

variable {schema lookup urlString}

theorem postEndpoint_refused {channelId id : Uuid} {now : Instant}
    {body : EndpointCreate} {db : Database} {message : String}
    (hbody : schema.safeParse body.url = some urlString)
    (hassert : assertSafeEndpointUrl schema.toUrlParser lookup urlString =
      .error (.unsafeEndpointUrl message)) :
    postEndpoint schema lookup channelId id now body db =
      (.refused ⟨400, "validation_failed", message⟩, db) := by
  simp only [postEndpoint, hbody, urlRefusal, hassert]

theorem patchEndpoint_refused {channelId endpointId : Uuid} {now : Instant}
    {body : EndpointUpdate} {db : Database} {text message : String}
    (htext : body.url = some text)
    (hbody : schema.safeParse text = some urlString)
    (hassert : assertSafeEndpointUrl schema.toUrlParser lookup urlString =
      .error (.unsafeEndpointUrl message)) :
    patchEndpoint schema lookup channelId endpointId now body db =
      (.refused ⟨400, "validation_failed", message⟩, db) := by
  have hne : urlString ≠ "" := by
    rintro rfl
    have hparse := schema.parse_of_safeParse hbody
    rw [schema.parse_empty] at hparse
    cases hparse
  simp only [patchEndpoint, htext, hbody, if_neg hne, urlRefusal, hassert]

theorem soundlyAdmitted_iff :
    SoundlyAdmitted schema lookup urlString ↔
      ¬ LookupFails schema lookup urlString := by
  constructor
  · rintro h ⟨url, hparse, hallowed, hip, ⟨e, hlookup⟩ |
      ⟨hresolves, address, hbracketed, hblocked⟩⟩
    · exact h.total e (assertSafe_eq_other_iff.mpr
        ⟨url, hparse, hallowed, hip, hlookup⟩)
    · obtain ⟨url', hparse', hsafe⟩ := h.sound (assertSafe_eq_ok_iff.mpr
        ⟨url, hparse, hallowed, .inr hresolves⟩)
      obtain rfl : url = url' := Option.some.inj (hparse.symm.trans hparse')
      exact hsafe.host (.inr ⟨address, hbracketed, hblocked⟩)
  · intro h
    have htotal : ∀ e, assertSafeEndpointUrl schema.toUrlParser lookup
        urlString ≠ .error (.other e) := by
      intro e hother
      obtain ⟨url, hparse, hallowed, hip, hlookup⟩ :=
        assertSafe_eq_other_iff.mp hother
      exact h ⟨url, hparse, hallowed, hip, .inl ⟨e, hlookup⟩⟩
    have hrefused : assertSafeEndpointUrl schema.toUrlParser lookup urlString ≠
        .ok () → ∃ message, assertSafeEndpointUrl schema.toUrlParser lookup
          urlString = .error (.unsafeEndpointUrl message) := by
      intro hnot
      match hassert : assertSafeEndpointUrl schema.toUrlParser lookup
          urlString with
      | .ok () => exact absurd hassert hnot
      | .error (.unsafeEndpointUrl message) => exact ⟨message, rfl⟩
      | .error (.other e) => exact absurd hassert (htotal e)
    refine ⟨htotal, ?_, ?_, ?_⟩
    · intro channelId id now body db hbody hnot
      obtain ⟨message, hmessage⟩ := hrefused hnot
      rw [postEndpoint_refused hbody hmessage]
      rfl
    · intro channelId endpointId now body db text htext hbody hnot
      obtain ⟨message, hmessage⟩ := hrefused hnot
      rw [patchEndpoint_refused htext hbody hmessage]
      rfl
    · intro hok
      obtain ⟨url, hparse, hallowed, htarget⟩ := assertSafe_eq_ok_iff.mp hok
      refine ⟨url, hparse, hallowed.protocol, hallowed.username,
        hallowed.password, ?_, ?_⟩
      · rintro (hblocked | ⟨address, hbracketed, hblocked⟩)
        · simp [hallowed.hostname] at hblocked
        · have hip := isIP_of_bracketed hbracketed
          exact h ⟨url, hparse, hallowed, hip, .inr
            ⟨htarget.resolve_left (not_not_intro hip), address, hbracketed,
              hblocked⟩⟩
      · refine htarget.imp_left fun hip => .inl ?_
        exact ((isIP_cases url.hostname).resolve_left hip).resolve_right
          (schema.hostname hparse)

end Schema

/-! ## Hosts that do not resolve -/

inductive LookupError where
  | notFound
deriving DecidableEq

/-- A parser that knows two URLs. -/
def twoUrls : UrlSchema where
  parse text :=
    if text = "https://nowhere.invalid/hook" then
      some ⟨"https:", "", "", "nowhere.invalid"⟩
    else if text = "https://[::1]/hook" then some ⟨"https:", "", "", "[::1]"⟩
    else none
  parse_empty := by decide
  hostname := by
    intro text url h
    have hnowhere : isIP "nowhere.invalid" ≠ 6 := by decide +kernel
    have hloopback : isIP "[::1]" ≠ 6 := by decide +kernel
    split at h
    next =>
      obtain rfl := Option.some.inj h
      exact hnowhere
    next =>
      split at h
      next =>
        obtain rfl := Option.some.inj h
        exact hloopback
      next => cases h
  safeParse text :=
    if text ∈ ["https://nowhere.invalid/hook", "https://[::1]/hook"] then
      some text
    else none
  parse_of_safeParse := by
    intro text url h
    split at h
    next hmem =>
      obtain rfl := Option.some.inj h
      simp only [List.mem_cons, List.not_mem_nil, or_false] at hmem
      rcases hmem with rfl | rfl
      · decide
      · decide
    next => cases h

/-- Where the lookup is rejected both routes answer `500`; and `[::1]` is
admitted if the resolver has a public address for it. -/
theorem not_soundlyAdmitted_unresolved :
    (postEndpoint twoUrls (fun _ => .error LookupError.notFound) 1 2 0
        { url := "https://nowhere.invalid/hook" } Database.empty).1.status =
        500 ∧
      (patchEndpoint twoUrls (fun _ => .error LookupError.notFound) 1 2 0
        { url := some "https://nowhere.invalid/hook" }
          Database.empty).1.status = 500 ∧
      ¬ SoundlyAdmitted twoUrls (fun _ => .error LookupError.notFound)
        "https://nowhere.invalid/hook" ∧
      ¬ SoundlyAdmitted twoUrls
        (fun _ => (.ok ["93.184.216.34"] : Except LookupError _))
        "https://[::1]/hook" := by
  refine ⟨by decide +kernel, by decide +kernel, ?_, ?_⟩
  · intro h
    exact h.total .notFound (by decide +kernel)
  · intro h
    obtain ⟨url, hparse, hsafe⟩ := h.sound (by decide +kernel)
    obtain rfl : Url.mk "https:" "" "" "[::1]" = url :=
      Option.some.inj ((show twoUrls.parse "https://[::1]/hook" = _ by
        decide +kernel).symm.trans hparse)
    exact hsafe.host (.inr ⟨"::1", ⟨by decide +kernel, by decide +kernel⟩,
      by decide +kernel⟩)

end WebhookBroadcast
