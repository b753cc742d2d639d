import WebhookBroadcast.Ingest.FanOut
import WebhookBroadcast.Ingest.Headers
import WebhookBroadcast.Interaction.Amid

/-!
# Accepting Broadcasts

The two routes that accept one: `POST /ingest/:slug` of
`apps/api/src/ingest/routes.ts` and the replay of
`apps/api/src/admin/broadcasts.ts`.  What the HTTP server and the router make of
a request is part of it: the parsed headers, `ctx.request.length`, and the
chunks of the body with the way the stream ended.
-/

namespace WebhookBroadcast

open Interaction

/-! ## Requests and responses -/

/-- The body of a request as it comes off the socket. -/
structure BodyStream where
  chunks : List (List UInt8)
  error : Option String := none

/-- Why a body was not read: a `PayloadTooLargeError`, or what the stream
emitted. -/
inductive BodyError where
  | payloadTooLarge (limitBytes : ℕ)
  | stream (message : String)
deriving DecidableEq

/-- `PayloadTooLargeError.message`. -/
def payloadTooLargeMessage (limitBytes : ℕ) : String :=
  s!"body exceeds {limitBytes} bytes"

/-- Collect the chunks until one of them exceeds the limit. -/
def collectChunks (limitBytes : ℕ) (error : Option String) :
    List UInt8 → List (List UInt8) → Except BodyError (List UInt8)
  | body, [] =>
      match error with
      | none => .ok body
      | some message => .error (.stream message)
  | body, chunk :: rest =>
      if body.length + chunk.length > limitBytes then
        .error (.payloadTooLarge limitBytes)
      else collectChunks limitBytes error (body ++ chunk) rest

/-- `readLimitedBody`. -/
def readLimitedBody (req : BodyStream) (limitBytes : ℕ) :
    Except BodyError (List UInt8) :=
  collectChunks limitBytes req.error [] req.chunks

theorem collectChunks_eq_ok {limitBytes : ℕ} {error : Option String}
    {chunks : List (List UInt8)} :
    ∀ {body collected : List UInt8},
      collectChunks limitBytes error body chunks = .ok collected →
        collected = body ++ chunks.flatten := by
  induction chunks with
  | nil =>
      intro body collected h
      unfold collectChunks at h
      split at h
      · cases h
        simp
      · cases h
  | cons chunk rest ih =>
      intro body collected h
      unfold collectChunks at h
      split at h
      · cases h
      · rw [ih h, List.flatten_cons, List.append_assoc]

/-- A body that is read is the bytes of all its chunks. -/
theorem readLimitedBody_eq_ok {req : BodyStream} {limitBytes : ℕ}
    {body : List UInt8} (h : readLimitedBody req limitBytes = .ok body) :
    body = req.chunks.flatten := by
  rw [collectChunks_eq_ok h, List.nil_append]

structure IngestRequest where
  headers : IncomingHttpHeaders
  length : Option ℤ
  body : BodyStream

namespace IngestRequest

/-- `ctx.get(name)` of a header that the server keeps as one string. -/
def get (request : IngestRequest) (name : String) : String :=
  match request.headers.get? name with
  | some (some (.single value)) => value
  | _ => ""

/-- `ctx.get("content-type") || "application/octet-stream"`. -/
def contentType (request : IngestRequest) : String :=
  if request.get "content-type" = "" then "application/octet-stream"
  else request.get "content-type"

end IngestRequest

/-- The body of a response: the id of the accepted Broadcast, or an error with
its code and message. -/
inductive AcceptBody where
  | accepted (id : Uuid)
  | error (code message : String)
deriving DecidableEq

structure AcceptResponse where
  status : ℕ
  body : AcceptBody
deriving DecidableEq

/-- How the ingest route ends: with a response, or by throwing the error of the
body's stream. -/
inductive IngestOutcome where
  | responded (response : AcceptResponse)
  | threw (message : String)
deriving DecidableEq

/-! ## Ingest -/

/-- `extractBearerToken`. -/
def extractBearerToken (header : String) : Option String :=
  match header.splitOn " " with
  | scheme :: token :: _ =>
      if Js.toLowerCase scheme ≠ "bearer" ∨ token = "" then none
      else some token
  | _ => none

structure IngestRouteConfig where
  maxAttempts : ℕ
  maxBodyBytes : ℕ
  headerAllowlist : List String
  headerDenylist : List String
  successStatus : ℕ

/-- The environment variables that ingest reads. -/
structure IngestEnv where
  DELIVERY_MAX_ATTEMPTS : ℕ
  INGEST_MAX_BODY_BYTES : ℕ
  INGEST_HEADER_ALLOWLIST : String
  INGEST_HEADER_DENYLIST : String
  INGEST_SUCCESS_STATUS : ℕ

/-- The configuration that `server.ts` and `createApp` make of them. -/
def IngestEnv.routeConfig (env : IngestEnv) : IngestRouteConfig where
  maxAttempts := env.DELIVERY_MAX_ATTEMPTS
  maxBodyBytes := env.INGEST_MAX_BODY_BYTES
  headerAllowlist := parseHeaderList env.INGEST_HEADER_ALLOWLIST
  headerDenylist :=
    mergeIngestHeaderDenylist (parseHeaderList env.INGEST_HEADER_DENYLIST)
  successStatus := env.INGEST_SUCCESS_STATUS

def unauthorized (message : String) : AcceptResponse :=
  ⟨401, .error "unauthorized" message⟩

def payloadTooLarge (message : String) : AcceptResponse :=
  ⟨413, .error "payload_too_large" message⟩

/-- The token check, which a Channel open to unauthenticated ingest skips:
what it answers when it does not let the request pass. -/
def checkIngestToken (hashToken : String → String) (channel : ChannelRow)
    (request : IngestRequest) : AcceptAction (Option AcceptResponse) :=
  if channel.allowUnauthenticatedIngest then return none
  else
    match extractBearerToken (request.get "authorization") with
    | none => return some (unauthorized "missing ingest token")
    | some token => do
        let channelToken ←
          ingestQuery (.findChannelTokenByHash channel.id (hashToken token))
        match channelToken with
        | none => return some (unauthorized "invalid ingest token")
        | some _ => return none

/-- What follows the token check. -/
def acceptRequest (config : IngestRouteConfig) (channel : ChannelRow)
    (request : IngestRequest) : AcceptAction IngestOutcome :=
  if request.length.any fun declared => (declared : ℤ) > config.maxBodyBytes then
    return .responded
      (payloadTooLarge (payloadTooLargeMessage config.maxBodyBytes))
  else
    match readLimitedBody request.body config.maxBodyBytes with
    | .error (.payloadTooLarge limitBytes) =>
        return .responded (payloadTooLarge (payloadTooLargeMessage limitBytes))
    | .error (.stream message) => return .threw message
    | .ok body => do
        let id ← randomUUID
        let receivedAt ← now
        let result ← fanOutBroadcast config.maxAttempts
          { broadcast :=
              { id := id
                channelId := channel.id
                receivedAt := receivedAt
                contentType := request.contentType
                body := body
                headers := filterHeaders request.headers
                  config.headerAllowlist config.headerDenylist } }
        return .responded
          ⟨channel.ingestSuccessStatus.getD config.successStatus,
            .accepted result.broadcast.id⟩

/-- `POST /ingest/:slug`. -/
def ingest (hashToken : String → String) (config : IngestRouteConfig)
    (slug : String) (request : IngestRequest) : AcceptAction IngestOutcome := do
  let channel ← ingestQuery (.getActiveChannelBySlug slug)
  match channel with
  | none => return .responded (unauthorized "invalid ingest token")
  | some channel =>
      let refused ← checkIngestToken hashToken channel request
      match refused with
      | some response => return .responded response
      | none => acceptRequest config channel request

/-! ## Replay -/

def channelNotFound : AcceptResponse :=
  ⟨404, .error "not_found" "channel not found"⟩

def broadcastNotFound : AcceptResponse :=
  ⟨404, .error "not_found" "broadcast not found"⟩

/-- The new Broadcast with the contents of the original one. -/
def replayOf (maxAttempts : ℕ) (original : BroadcastRow) :
    AcceptAction AcceptResponse := do
  let now ← now
  let id ← randomUUID
  let result ← fanOutBroadcast maxAttempts
    { broadcast :=
        { id := id
          channelId := original.channelId
          receivedAt := now
          contentType := original.contentType
          body := original.body
          headers := original.headers } }
  return ⟨202, .accepted result.broadcast.id⟩

/-- `POST /channels/:channelId/broadcasts/:broadcastId/replay`. -/
def replayBroadcast (maxAttempts : ℕ) (channelId broadcastId : Uuid) :
    AcceptAction AcceptResponse := do
  let channel ← ingestQuery (.getChannelById channelId)
  match channel with
  | none => return channelNotFound
  | some _ =>
      let original ← ingestQuery (.getBroadcastById channelId broadcastId)
      match original with
      | none => return broadcastNotFound
      | some original => replayOf maxAttempts original

end WebhookBroadcast
