import WebhookBroadcast.Admin.AuthRoutes

/-!
# What the login limit limits

The limiter counts every login that it lets through, in fixed windows, for each
value of `ctx.ip`.
-/

namespace WebhookBroadcast

open RateLimit

/-! ## The limiter is one of fixed windows -/

/-- The limit that the configuration describes. -/
def LoginRateLimitConfig.limit (config : LoginRateLimitConfig) :
    Limit Instant where
  maxAttempts := config.maxAttempts
  length := config.windowMs
  maxAttempts_pos := config.maxAttempts_pos
  length_pos := by exact_mod_cast config.windowMs_pos

theorem tryConsume_eq_takeFor (config : LoginRateLimitConfig)
    (windows : LoginWindows) (clientIp : String) (now : Instant) :
    tryConsume config windows clientIp now =
      config.limit.takeFor windows clientIp now := by
  unfold tryConsume Limit.takeFor Limit.take
  cases hwindow : windows clientIp with
  | none => rfl
  | some existing =>
      dsimp only
      by_cases hreset : existing.resetAt ≤ now
      · rw [if_pos hreset, if_pos hreset]
        rfl
      · rw [if_neg hreset, if_neg hreset]
        by_cases hfull : config.maxAttempts ≤ existing.count
        · have hfull' : config.limit.maxAttempts ≤ existing.count := hfull
          rw [if_pos hfull, if_pos hfull', ← hwindow,
            Function.update_eq_self]
        · have hfull' : ¬ config.limit.maxAttempts ≤ existing.count := hfull
          rw [if_neg hfull, if_neg hfull']

namespace KoaApp

variable (app : KoaApp)

def limit : Limit Instant := app.auth.loginRateLimit.limit

theorem limit_length :
    app.limit.length = (app.auth.loginRateLimit.windowMs : ℤ) := rfl

/-- What the limiter decides about requests. -/
def verdicts (requests : List LoginRequest) :
    List (LoginRequest × Verdict Instant) :=
  app.limit.verdictsFor app.ip LoginRequest.now
    (fun _ => none) requests

/-- Requests with their replies. -/
def answered (requests : List LoginRequest) :
    List (LoginRequest × LoginReply) :=
  requests.zip (app.logins (fun _ => none) requests)

theorem logins_eq (windows : LoginWindows) (requests : List LoginRequest) :
    app.logins windows requests =
      (app.limit.verdictsFor app.ip LoginRequest.now
        windows requests).map fun entry =>
          loginReply app.koa app.proxy app.auth entry.1 entry.2 := by
  induction requests generalizing windows with
  | nil => rfl
  | cons request rest ih =>
      rw [logins, ih, login, tryConsume_eq_takeFor]
      rfl

theorem answered_eq (requests : List LoginRequest) :
    app.answered requests =
      (app.verdicts requests).map fun entry =>
        (entry.1, loginReply app.koa app.proxy app.auth entry.1 entry.2) := by
  have hfst : (app.verdicts requests).map Prod.fst = requests :=
    app.limit.map_fst_verdictsFor _ requests
  rw [answered, logins_eq]
  nth_rewrite 1 [← hfst]
  exact List.zip_map'

theorem windowsAfter_eq (requests : List LoginRequest) :
    app.windowsAfter requests =
      app.limit.afterFor app.ip LoginRequest.now
        (fun _ => none) requests := by
  unfold windowsAfter Limit.afterFor
  congr 1
  funext windows request
  rw [login, tryConsume_eq_takeFor]
  rfl

/-- The verdict on a request that comes after others. -/
theorem replyAfter_eq (before : List LoginRequest) (request : LoginRequest) :
    app.replyAfter before request =
      loginReply app.koa app.proxy app.auth request
        (app.limit.take (app.limit.after none
          ((before.filter fun r =>
            app.ip r = app.ip request).map LoginRequest.now))
              request.now).1 := by
  rw [replyAfter, login, tryConsume_eq_takeFor, windowsAfter_eq,
    Limit.takeFor, Limit.afterFor_apply]
  rfl

end KoaApp

theorem limited_loginReply (koa : ContextGetters) (proxy : Bool)
    (config : AuthRouteConfig) (request : LoginRequest)
    (verdict : Verdict Instant) :
    (loginReply koa proxy config request verdict).limited =
      !verdict.allowed := by
  cases hallowed : verdict.allowed with
  | false => simp [loginReply, hallowed, LoginReply.limited]
  | true =>
      simp only [loginReply, hallowed, Bool.not_true, Bool.false_eq_true,
        if_false]
      split
      · rfl
      · split
        · rfl
        · rfl

theorem not_limited_of_compared {reply : LoginReply}
    (h : reply.compared = true) : reply.limited = false := by
  cases reply with
  | rateLimited seconds refusal resetAt => cases h
  | refused refusal => rfl
  | loggedIn cookie => rfl

/-! ## The documented limit -/

/-- At most the configured number of failed logins in any interval of the
length of a window; no refusal without as many of them just before; and nobody
else's logins matter. -/
structure RollingLimit (app : KoaApp) (requests : List LoginRequest) :
    Prop where
  evaluated : ∀ (client : String) (start : Instant),
    (app.answered requests).countP (fun entry =>
      app.ip entry.1 = client && (start ≤ entry.1.now &&
        entry.1.now < start + app.auth.loginRateLimit.windowMs) &&
        entry.2.failed) ≤ app.auth.loginRateLimit.maxAttempts
  refused : ∀ before request after, requests = before ++ request :: after →
    (app.replyAfter before request).limited = true →
      app.auth.loginRateLimit.maxAttempts ≤
        (app.answered before).countP fun entry =>
          app.ip entry.1 = app.ip request &&
            request.now - app.auth.loginRateLimit.windowMs ≤ entry.1.now &&
            entry.2.failed
  alone : ∀ before request after, requests = before ++ request :: after →
    app.replyAfter before request = app.replyAfter (before.filter fun r =>
      app.ip r = app.ip request) request

/-! ## The limit that there is -/

/-- At most twice the number less one of any logins in such an interval; no
refusal without as many attempts just before; and nobody else's logins
matter. -/
structure FixedWindowLimit (app : KoaApp) (requests : List LoginRequest) :
    Prop where
  evaluated : ∀ (client : String) (start : Instant),
    (app.answered requests).countP (fun entry =>
      app.ip entry.1 = client && (start ≤ entry.1.now &&
        entry.1.now < start + app.auth.loginRateLimit.windowMs) &&
        !entry.2.limited) ≤ 2 * app.auth.loginRateLimit.maxAttempts - 1
  refused : ∀ before request after, requests = before ++ request :: after →
    (app.replyAfter before request).limited = true →
      app.auth.loginRateLimit.maxAttempts ≤ before.countP fun r =>
        app.ip r = app.ip request &&
          request.now - app.auth.loginRateLimit.windowMs < r.now
  alone : ∀ before request after, requests = before ++ request :: after →
    app.replyAfter before request = app.replyAfter (before.filter fun r =>
      app.ip r = app.ip request) request

theorem fixedWindowLimit (app : KoaApp) (requests : List LoginRequest)
    (hclock : (requests.map LoginRequest.now).Pairwise (· ≤ ·)) :
    FixedWindowLimit app requests where
  evaluated := by
    intro client start
    have htimes : ((requests.filter fun r => app.ip r = client).map
        LoginRequest.now).Pairwise (· ≤ ·) :=
      hclock.sublist (List.filter_sublist.map _)
    have hbound := app.limit.allowedFrom_le start htimes
    rw [← app.limit.filter_verdictsFor client (fun _ => none) requests,
      Limit.allowedFrom, List.countP_map, List.countP_filter] at hbound
    rw [KoaApp.answered_eq, List.countP_map]
    refine le_trans (le_of_eq ?_) hbound
    apply List.countP_congr
    intro entry _
    simp only [Function.comp_apply, limited_loginReply, Bool.not_not]
    rw [app.limit_length]
    simp only [Bool.and_eq_true]
    tauto
  refused := by
    rintro before request after rfl hlimited
    rw [KoaApp.replyAfter_eq, limited_loginReply, Bool.not_eq_true'] at hlimited
    have htimes : (((before.filter fun r =>
        app.ip r = app.ip request).map LoginRequest.now) ++
          [request.now]).Pairwise (· ≤ ·) := by
      refine hclock.sublist ?_
      rw [List.map_append, List.map_cons]
      exact (List.filter_sublist.map _).append
        (List.singleton_sublist.mpr List.mem_cons_self)
    have hcount := app.limit.count_of_refused htimes hlimited
    rw [List.countP_map, List.countP_filter] at hcount
    refine hcount.trans (le_of_eq ?_)
    apply List.countP_congr
    intro r _
    simp only [Function.comp_apply]
    rw [app.limit_length]
    simp only [Bool.and_eq_true]
    tauto
  alone := by
    intro before request after _
    rw [KoaApp.replyAfter_eq, KoaApp.replyAfter_eq, List.filter_filter]
    simp

/-- A login with this key, at this time. -/
def loginAt (now : Instant) (apiKey : String) : LoginRequest where
  now := now
  remoteAddress := "203.0.113.1"
  body := some (.object [("apiKey", .string apiKey)])

/-- Getters that read a header up to its first comma. -/
def upToComma : ContextGetters where
  ip proxy request :=
    match request.forwardedFor with
    | some value =>
        let first := String.ofList (value.toList.takeWhile (· ≠ ','))
        if proxy ∧ first ≠ "" then first else request.remoteAddress
    | none => request.remoteAddress
  secure _ request := request.encrypted

theorem documented_upToComma : upToComma.Documented where
  unproxied request := by
    unfold upToComma
    dsimp only
    split <;> simp
  direct proxy request h := by simp [upToComma, h]
  forwarded request value entry h hplain hbegins := by
    have hfirst : value.toList.takeWhile (· ≠ ',') = entry.toList := by
      have hentry : entry.toList.takeWhile (· ≠ ',') = entry.toList :=
        List.takeWhile_eq_self_iff.mpr fun c hc => by
          simpa using (hplain.2 c hc).1
      rcases hbegins with rfl | ⟨rest, hvalue⟩
      · exact hentry
      · rw [hvalue, List.takeWhile_append_of_pos fun c hc => by
          simpa using (hplain.2 c hc).1]
        simp
    unfold upToComma
    dsimp only
    rw [h]
    dsimp only
    rw [hfirst, String.ofList_toList, if_pos ⟨rfl, hplain.1⟩]

/-- Ten milliseconds for this many attempts. -/
def briefLimit (maxAttempts : ℕ) (h : 0 < maxAttempts) : KoaApp :=
  createApp upToComma
    { operatorApiKey := "key"
      cookieName := "wb_operator"
      loginRateLimitMaxAttempts? := some maxAttempts
      loginRateLimitWindowMs? := some 10
      maxAttempts_pos := h }

theorem fixedWindowLimit_brief : FixedWindowLimit (briefLimit 2 (by decide))
    [loginAt 0 "a", loginAt 9 "b", loginAt 10 "c", loginAt 11 "d"] :=
  fixedWindowLimit _ _ (by decide)

/-- Three failed logins between the times 9 and 19, of two allowed; and a
refusal of a client that has never failed. -/
theorem not_rollingLimit_brief :
    ¬ RollingLimit (briefLimit 2 (by decide))
        [loginAt 0 "a", loginAt 9 "b", loginAt 10 "c", loginAt 11 "d"] ∧
      ¬ RollingLimit (briefLimit 1 (by decide))
        [loginAt 0 "key", loginAt 1 "key"] := by
  constructor
  · intro h
    have hcount := h.evaluated "203.0.113.1" 9
    revert hcount
    decide +kernel
  · intro h
    have hcount := h.refused [loginAt 0 "key"] (loginAt 1 "key") [] rfl
      (by decide +kernel)
    revert hcount
    decide +kernel

/-! ## The limit and the connection -/

/-- The logins that were limited are those over connections from one address.
Of the requests that fall into one window of their address, no more than the
limit allows are compared with the key; and who is refused would be refused
without the requests from other addresses. -/
structure LimitsConnections (app : KoaApp) (requests : List LoginRequest) :
    Prop where
  compared : ∀ (address : String) (resetAt : Instant),
    ((app.limit.verdictsFor LoginRequest.remoteAddress LoginRequest.now
        (fun _ => none) requests).zip
      (app.logins (fun _ => none) requests)).countP (fun entry =>
        entry.1.1.remoteAddress = address && entry.1.2.resetAt = resetAt &&
          entry.2.compared) ≤ app.auth.loginRateLimit.maxAttempts
  alone : ∀ before request after, requests = before ++ request :: after →
    (app.replyAfter before request).limited = true →
      (app.replyAfter (before.filter fun r =>
        r.remoteAddress = request.remoteAddress) request).limited = true

/-- `ctx.ip` tells the connections apart, and nothing else. -/
def TellsConnectionsApart (app : KoaApp) (requests : List LoginRequest) :
    Prop :=
  ∀ a ∈ requests, ∀ b ∈ requests,
    app.ip a = app.ip b ↔ a.remoteAddress = b.remoteAddress

theorem limitsConnections_of_apart (app : KoaApp)
    (requests : List LoginRequest)
    (happart : TellsConnectionsApart app requests) :
    LimitsConnections app requests where
  compared := by
    intro address resetAt
    have hverdicts : app.limit.verdictsFor LoginRequest.remoteAddress
        LoginRequest.now (fun _ => none) requests = app.verdicts requests :=
      app.limit.verdictsFor_congr (fun a ha b hb => (happart a ha b hb).symm)
        fun _ _ => rfl
    have hbound := app.limit.allowedIn_le resetAt
      ((requests.filter fun r => r.remoteAddress = address).map
        LoginRequest.now)
    rw [← app.limit.filter_verdictsFor address (fun _ => none) requests,
      Limit.allowedIn, List.countP_map, List.countP_filter, hverdicts] at hbound
    have hzip : (app.verdicts requests).zip
        (app.logins (fun _ => none) requests) =
          (app.verdicts requests).map fun entry =>
            (entry, loginReply app.koa app.proxy app.auth entry.1 entry.2) := by
      rw [KoaApp.logins_eq]
      nth_rewrite 1 [← List.map_id (app.verdicts requests)]
      exact List.zip_map'
    rw [hverdicts, hzip, List.countP_map]
    refine le_trans (List.countP_mono_left ?_) hbound
    intro entry _ hentry
    simp only [Function.comp_apply, Bool.and_eq_true] at hentry ⊢
    obtain ⟨⟨haddress, hreset⟩, hcompared⟩ := hentry
    have hallowed := not_limited_of_compared hcompared
    rw [limited_loginReply, Bool.not_eq_false'] at hallowed
    exact ⟨⟨hallowed, hreset⟩, haddress⟩
  alone := by
    rintro before request after rfl hlimited
    have hown : (before.filter fun r =>
        r.remoteAddress = request.remoteAddress).filter (fun r =>
          app.ip r = app.ip request) =
        before.filter fun r => app.ip r = app.ip request := by
      rw [List.filter_filter]
      apply List.filter_congr
      intro r hr
      have hsame := happart r (by simp [hr]) request (by simp)
      by_cases hip : app.ip r = app.ip request
      · simp [hip, hsame.mp hip]
      · simp [hip]
    rw [KoaApp.replyAfter_eq] at hlimited ⊢
    rw [hown]
    exact hlimited

/-- The request names its own address first in `X-Forwarded-For`, if it has that
header. -/
def LoginRequest.NamesItself (request : LoginRequest) : Prop :=
  request.forwardedFor = none ∨ IsPlainEntry request.remoteAddress ∧
    ∃ value, request.forwardedFor = some value ∧
      BeginsWithEntry value request.remoteAddress

theorem ip_of_namesItself {app : KoaApp} (hkoa : app.koa.Documented)
    {request : LoginRequest} (h : request.NamesItself) :
    app.ip request = request.remoteAddress := by
  unfold KoaApp.ip
  cases app.proxy with
  | false => exact hkoa.unproxied request
  | true =>
      rcases h with h | ⟨hplain, value, hvalue, hbegins⟩
      · exact hkoa.direct true request h
      · exact hkoa.forwarded request value _ hvalue hplain hbegins

/-- The limit is one on connections as long as `ctx.ip` tells them apart, which,
as it is documented, it does when every request that names an address first names
its own. -/
theorem limitsConnections (app : KoaApp) (requests : List LoginRequest) :
    (TellsConnectionsApart app requests → LimitsConnections app requests) ∧
    (app.koa.Documented → (∀ r ∈ requests, r.NamesItself) →
      LimitsConnections app requests) := by
  refine ⟨limitsConnections_of_apart app requests, fun hkoa hown => ?_⟩
  refine limitsConnections_of_apart app requests fun a ha b hb => ?_
  rw [ip_of_namesItself hkoa (hown a ha), ip_of_namesItself hkoa (hown b hb)]

/-- An application as it is deployed without a proxy before it. -/
def directApp : KoaApp :=
  createApp upToComma { operatorApiKey := "key", cookieName := "wb_operator" }

/-- A wrong key over a connection from this address, with this header. -/
def loginVia (remoteAddress : String) (forwardedFor : Option String) :
    LoginRequest where
  now := 0
  remoteAddress := remoteAddress
  forwardedFor := forwardedFor
  body := some (.object [("apiKey", .string "guess")])

theorem limitsConnections_direct : LimitsConnections directApp
    (List.replicate 6 (loginVia "198.51.100.1" none) ++
      [loginVia "203.0.113.1" none]) :=
  (limitsConnections _ _).2 documented_upToComma fun r hr => .inl (by
    simp only [List.mem_append, List.mem_replicate, List.mem_singleton] at hr
    rcases hr with ⟨-, rfl⟩ | rfl <;> rfl)

/-- Six guesses in no time, each with a header of its own; and five that lock
out somebody else. -/
theorem not_limitsConnections_forwarded :
    directApp.koa.Documented ∧ directApp.auth.trustProxy = false ∧
    ¬ LimitsConnections directApp
      [loginVia "198.51.100.1" (some "10.0.0.1"),
        loginVia "198.51.100.1" (some "10.0.0.2"),
        loginVia "198.51.100.1" (some "10.0.0.3"),
        loginVia "198.51.100.1" (some "10.0.0.4"),
        loginVia "198.51.100.1" (some "10.0.0.5"),
        loginVia "198.51.100.1" (some "10.0.0.6")] ∧
    ¬ LimitsConnections directApp
      (List.replicate 5 (loginVia "198.51.100.1" (some "203.0.113.1")) ++
        [loginVia "203.0.113.1" none]) := by
  refine ⟨documented_upToComma, rfl, ?_, ?_⟩
  · intro h
    have hcount := h.compared "198.51.100.1" 60000
    revert hcount
    decide +kernel
  · intro h
    have halone := h.alone _ (loginVia "203.0.113.1" none) [] rfl
      (by decide +kernel)
    revert halone
    decide +kernel

end WebhookBroadcast
