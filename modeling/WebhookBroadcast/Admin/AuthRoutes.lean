import Mathlib
import WebhookBroadcast.Admin.Cursors
import WebhookBroadcast.Db.Schema
import WebhookBroadcast.Js.Json
import WebhookBroadcast.RateLimit.FixedWindow

/-!
# Logging in

`POST /auth/login` of `apps/api/src/admin/authRoutes.ts`, its limiter, and what
`createApp` configures of them.  The getters of Koa's context are a parameter:
with `app.proxy` they believe the forwarding headers of a request, which anybody
can send.
-/

namespace WebhookBroadcast

open RateLimit

/-! ## The request -/

/-- A `POST /auth/login` with the connection it came over: the two readings of
the clock while it is handled, and the body after parsing. -/
structure LoginRequest where
  now : Instant
  later : Instant := now
  remoteAddress : String
  encrypted : Bool := false
  forwardedFor : Option String := none
  forwardedProto : Option String := none
  body : Option Js.Json

/-- `loginRequestSchema.safeParse(ctx.request.body)`: the key. -/
def LoginRequest.apiKey? (request : LoginRequest) : Option String :=
  (request.body.bind fun body =>
    (body.get? "apiKey").bind Js.Json.string?).filter (· ≠ "")

/-! ## Koa's context -/

/-- The getters of Koa's context that the route reads, for each setting of
`app.proxy`. -/
structure ContextGetters where
  /-- `ctx.ip`. -/
  ip : Bool → LoginRequest → String
  /-- `ctx.secure`. -/
  secure : Bool → LoginRequest → Bool

/-- An entry of a header that nothing needs to be cut off from. -/
def IsPlainEntry (entry : String) : Prop :=
  entry ≠ "" ∧ ∀ c ∈ entry.toList, c ≠ ',' ∧ Js.isWhiteSpace c = false

/-- The header has this entry first. -/
def BeginsWithEntry (value entry : String) : Prop :=
  value = entry ∨ ∃ rest, value.toList = entry.toList ++ ',' :: rest

/-- The documented `ctx.ip`: with `app.proxy` the first entry of
`X-Forwarded-For` where that header is present, and the socket's address
otherwise. -/
structure ContextGetters.Documented (koa : ContextGetters) : Prop where
  unproxied : ∀ request, koa.ip false request = request.remoteAddress
  direct : ∀ proxy request, request.forwardedFor = none →
    koa.ip proxy request = request.remoteAddress
  forwarded : ∀ request value entry, request.forwardedFor = some value →
    IsPlainEntry entry → BeginsWithEntry value entry →
      koa.ip true request = entry

/-- Constant-time comparison. -/
def safeEqual (a b : String) : Bool :=
  let bufA := a.toUTF8
  let bufB := b.toUTF8
  if bufA.size ≠ bufB.size then false else bufA = bufB

/-! ## The limiter -/

/-- `LoginRateLimitConfig`; both values are positive at boot. -/
structure LoginRateLimitConfig where
  maxAttempts : ℕ
  windowMs : ℕ
  maxAttempts_pos : 0 < maxAttempts
  windowMs_pos : 0 < windowMs

/-- The map of a `LoginRateLimiter`. -/
abbrev LoginWindows := String → Option (Window Instant)

/-- `LoginRateLimiter.tryConsume`. -/
def tryConsume (config : LoginRateLimitConfig) (windows : LoginWindows)
    (clientIp : String) (now : Instant) : Verdict Instant × LoginWindows :=
  let opened : Verdict Instant × LoginWindows :=
    let resetAt := now + config.windowMs
    (⟨true, resetAt⟩, Function.update windows clientIp (some ⟨1, resetAt⟩))
  match windows clientIp with
  | none => opened
  | some existing =>
      if existing.resetAt ≤ now then opened
      else if config.maxAttempts ≤ existing.count then
        (⟨false, existing.resetAt⟩, windows)
      else
        (⟨true, existing.resetAt⟩, Function.update windows clientIp
          (some ⟨existing.count + 1, existing.resetAt⟩))

/-! ## The route -/

/-- `AuthRouteConfig`. -/
structure AuthRouteConfig where
  operatorApiKey : String
  cookieName : String
  cookieSecure : Bool
  trustProxy : Bool
  loginRateLimit : LoginRateLimitConfig

/-- The session cookie that a login sets. -/
structure SessionCookie where
  name : String
  value : String
  httpOnly : Bool
  sameSite : String
  secure : Bool
  path : String
deriving DecidableEq

inductive LoginReply where
  | rateLimited (retryAfterSeconds : ℤ) (refusal : Refusal) (resetAt : Instant)
  | refused (refusal : Refusal)
  | loggedIn (cookie : SessionCookie)
deriving DecidableEq

def tooManyAttempts : Refusal :=
  ⟨429, "rate_limited",
    "Too many attempts. Try again once the cooldown ends."⟩

def invalidLoginPayload : Refusal :=
  ⟨400, "validation_failed", "invalid login payload"⟩

def invalidOperatorApiKey : Refusal :=
  ⟨401, "unauthorized", "invalid operator API key"⟩

/-- What the route answers once the limiter has decided. -/
def loginReply (koa : ContextGetters) (proxy : Bool) (config : AuthRouteConfig)
    (request : LoginRequest) (rateLimit : Verdict Instant) : LoginReply :=
  if !rateLimit.allowed then
    .rateLimited (max 1 ⌈((rateLimit.resetAt - request.later : ℤ) : ℚ) / 1000⌉)
      tooManyAttempts rateLimit.resetAt
  else
    match request.apiKey? with
    | none => .refused invalidLoginPayload
    | some apiKey =>
        if !safeEqual apiKey config.operatorApiKey then
          .refused invalidOperatorApiKey
        else
          .loggedIn
            { name := config.cookieName
              value := config.operatorApiKey
              httpOnly := true
              sameSite := "lax"
              secure :=
                if config.trustProxy then koa.secure proxy request
                else config.cookieSecure
              path := "/" }

/-- `POST /auth/login`. -/
def login (koa : ContextGetters) (proxy : Bool) (config : AuthRouteConfig)
    (windows : LoginWindows) (request : LoginRequest) :
    LoginReply × LoginWindows :=
  let r := tryConsume config.loginRateLimit windows (koa.ip proxy request)
    request.now
  (loginReply koa proxy config request r.1, r.2)

namespace LoginReply

/-- The request got as far as the key comparison. -/
def compared : LoginReply → Bool
  | rateLimited _ _ _ => false
  | refused refusal => refusal = invalidOperatorApiKey
  | loggedIn _ => true

/-- The limiter turned the request away. -/
def limited : LoginReply → Bool
  | rateLimited _ _ _ => true
  | _ => false

/-- The request was looked at and failed. -/
def failed : LoginReply → Bool
  | refused _ => true
  | _ => false

end LoginReply

/-! ## The application -/

/-- The part of `AppDeps` that logging in depends on. -/
structure AppDeps where
  operatorApiKey : String
  cookieName : String
  cookieSecure? : Option Bool := none
  trustProxy? : Option Bool := none
  loginRateLimitMaxAttempts? : Option ℕ := none
  loginRateLimitWindowMs? : Option ℕ := none
  maxAttempts_pos : 0 < loginRateLimitMaxAttempts?.getD 5 := by decide
  windowMs_pos : 0 < loginRateLimitWindowMs?.getD 60000 := by decide

/-- An application: Koa's context, `app.proxy`, and the configuration of its
auth routes. -/
structure KoaApp where
  koa : ContextGetters
  proxy : Bool
  auth : AuthRouteConfig

/-- `ctx.ip` in the application. -/
def KoaApp.ip (app : KoaApp) : LoginRequest → String := app.koa.ip app.proxy

def createApp (koa : ContextGetters) (deps : AppDeps) : KoaApp where
  koa := koa
  proxy := true
  auth :=
    { operatorApiKey := deps.operatorApiKey
      cookieName := deps.cookieName
      cookieSecure := deps.cookieSecure?.getD false
      trustProxy := deps.trustProxy?.getD false
      loginRateLimit :=
        { maxAttempts := deps.loginRateLimitMaxAttempts?.getD 5
          windowMs := deps.loginRateLimitWindowMs?.getD 60000
          maxAttempts_pos := deps.maxAttempts_pos
          windowMs_pos := deps.windowMs_pos } }

/-- The replies to requests, in the order of their arrival. -/
def KoaApp.logins (app : KoaApp) :
    LoginWindows → List LoginRequest → List LoginReply
  | _, [] => []
  | windows, request :: rest =>
      (login app.koa app.proxy app.auth windows request).1 ::
        app.logins (login app.koa app.proxy app.auth windows request).2 rest

/-- The limiter's map after these requests. -/
def KoaApp.windowsAfter (app : KoaApp) (requests : List LoginRequest) :
    LoginWindows :=
  requests.foldl (fun windows request =>
    (login app.koa app.proxy app.auth windows request).2) fun _ => none

/-- The reply to a request that comes after others. -/
def KoaApp.replyAfter (app : KoaApp) (before : List LoginRequest)
    (request : LoginRequest) : LoginReply :=
  (login app.koa app.proxy app.auth (app.windowsAfter before) request).1

end WebhookBroadcast
