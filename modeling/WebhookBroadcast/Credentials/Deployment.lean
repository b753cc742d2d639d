import WebhookBroadcast.Admin.AuthRoutes
import WebhookBroadcast.Credentials.Tokens
import WebhookBroadcast.Db.Tokens
import WebhookBroadcast.Interaction.Residue
import WebhookBroadcast.Service.System
import WebhookBroadcast.Worker.RetentionSweeper

/-!
# The deployment

The service with its guard: `createOperatorAuthMiddleware` of
`apps/api/src/admin/auth.ts` before the admin routes, among them those of
`admin/tokens.ts` and `admin/operatorTokens.ts`, as `app.ts` mounts them.  Ingest
and the worker stand beside the guard.  Requests and worker runs take turns call
by call.
-/

namespace WebhookBroadcast

open Interaction

/-! ## Calls -/

/-- A write of the operator on Channels or Endpoints. -/
abbrev OperatorStatement := {s : Statement // ∀ cutoff, s ≠ .prune cutoff}

/-- The statements of the guard and of the routes behind it. -/
inductive AdminQuery where
  | findOperatorTokenByHash (tokenHash : String)
  | insertOperatorToken (input : OperatorTokenRow)
  | revokeOperatorToken (tokenId : Uuid)
  | listOperatorTokens
  | insertChannelToken (input : ChannelTokenRow) (label : ChannelTokenLabel)
  | revokeChannelToken (channelId tokenId : Uuid)
  | write (statement : OperatorStatement)

/-- The result of a statement that is not rejected. -/
@[reducible] def AdminQuery.Result : AdminQuery → Type
  | findOperatorTokenByHash _ => Option OperatorTokenRow
  | insertOperatorToken _ => OperatorTokenRow
  | revokeOperatorToken _ => Bool
  | listOperatorTokens => List OperatorTokenRow
  | insertChannelToken _ _ => ChannelTokenRow
  | revokeChannelToken _ _ => Bool
  | write _ => Unit

/-- The further calls; the touch is sent and not waited for. -/
inductive AdminCall where
  | query (q : AdminQuery)
  | touchOperatorTokenLastUsed (tokenId : Uuid) (at_ : Instant)
  | randomBytes

@[reducible] def AdminCall.Answer : AdminCall → Type
  | query q => Except DbError q.Result
  | touchOperatorTokenLastUsed _ _ => Unit
  | randomBytes => RandomBytes

@[reducible] def AdminEffects : Signature := ⟨AdminCall, AdminCall.Answer⟩

@[reducible] def ApiEffects : Signature := AcceptEffects.sum AdminEffects

abbrev ApiAction (α : Type) := Program ApiEffects Thrown α

/-! ## The stores -/

/-- The stores: those of the service, the operator tokens, the columns of
`channel_token` that ingest does not read, and the touches on their way to the
database. -/
structure Deployment where
  world : World
  operatorTokens : OperatorTokens
  channelTokenLabels : List ChannelTokenLabel
  touches : List (Uuid × Instant)

namespace Deployment

variable (D : Deployment)

def withDb (db : Database) : Deployment :=
  { D with world := { D.world with db := db } }

/-- The stores of a new deployment. -/
def empty : Deployment := ⟨⟨Database.empty, fun _ => none⟩, .empty, [], []⟩

/-- Insert a Channel token in both parts of its row. -/
def insertChannelToken (input : ChannelTokenRow) (label : ChannelTokenLabel) :
    Except DbError ChannelTokenRow × Deployment :=
  let r := WebhookBroadcast.insertChannelToken D.world.db input
  match r.1 with
  | .ok row => (.ok row, { D.withDb r.2 with
      channelTokenLabels := D.channelTokenLabels ++ [label] })
  | .error e => (.error e, D)

/-- Revoke a Channel token in both parts of its row. -/
def revokeChannelToken (channelId tokenId : Uuid) : Bool × Deployment :=
  let r := WebhookBroadcast.revokeChannelToken D.world.db channelId tokenId
  (r.1, { D.withDb r.2 with
    channelTokenLabels :=
      if r.1 then D.channelTokenLabels.filter fun label => label.id ≠ tokenId
      else D.channelTokenLabels })

end Deployment

/-- Carry out one statement. -/
def AdminQuery.run : (q : AdminQuery) → Deployment →
    Except DbError q.Result × Deployment
  | .findOperatorTokenByHash tokenHash, D =>
      (.ok (WebhookBroadcast.findOperatorTokenByHash D.operatorTokens
        tokenHash), D)
  | .insertOperatorToken input, D =>
      let r := WebhookBroadcast.insertOperatorToken D.operatorTokens input
      (r.1, { D with operatorTokens := r.2 })
  | .revokeOperatorToken tokenId, D =>
      let r := WebhookBroadcast.revokeOperatorToken D.operatorTokens tokenId
      (.ok r.1, { D with operatorTokens := r.2 })
  | .listOperatorTokens, D =>
      (.ok (WebhookBroadcast.listOperatorTokens D.operatorTokens), D)
  | .insertChannelToken input label, D => D.insertChannelToken input label
  | .revokeChannelToken channelId tokenId, D =>
      let r := D.revokeChannelToken channelId tokenId
      (.ok r.1, r.2)
  | .write statement, D => (.ok (), { D with world := statement.val.run D.world })

/-- What the environment decides at one call. -/
structure ApiChoice extends Choice where
  bytes : RandomBytes := zeroBytes

def performAdmin : Handler AdminEffects ApiChoice Deployment
  | x, .query q, D =>
      match x.fault with
      | none => q.run D
      | some fault =>
          (.error (.unavailable fault.message),
            if fault.applied then (q.run D).2 else D)
  | _, .touchOperatorTokenLastUsed tokenId at_, D =>
      ((), { D with touches := D.touches ++ [(tokenId, at_)] })
  | x, .randomBytes, D => (x.bytes, D)

def performApi : Handler ApiEffects ApiChoice Deployment :=
  Handler.sum
    (performAccept.within ApiChoice.toChoice Deployment.world
      fun world D => { D with world := world })
    performAdmin

theorem performAdmin_query_of_none {x : ApiChoice} (hx : x.fault = none)
    (q : AdminQuery) (D : Deployment) :
    performAdmin x (.query q) D = q.run D := by
  simp [performAdmin, hx]

theorem performAdmin_query_of_some {x : ApiChoice} {fault : Fault}
    (hx : x.fault = some fault) (q : AdminQuery) (D : Deployment) :
    performAdmin x (.query q) D = (.error (.unavailable fault.message),
      if fault.applied then (q.run D).2 else D) := by
  simp [performAdmin, hx]

/-- A statement is answered, or it is rejected and either carried out or
not. -/
theorem performApi_query_cases (x : ApiChoice) (q : AdminQuery)
    (D : Deployment) :
    (performApi x (.inr (.query q)) D = q.run D ∧ x.fault = none) ∨
      ∃ e, (performApi x (.inr (.query q)) D).1 = .error e ∧
        ((performApi x (.inr (.query q)) D).2 = D ∨
          (performApi x (.inr (.query q)) D).2 = (q.run D).2) := by
  cases hx : x.fault with
  | none => exact Or.inl ⟨performAdmin_query_of_none hx q D, rfl⟩
  | some fault =>
      have hrun : performApi x (.inr (.query q)) D = _ :=
        performAdmin_query_of_some hx q D
      rw [hrun]
      refine Or.inr ⟨_, rfl, ?_⟩
      split
      · exact Or.inr rfl
      · exact Or.inl rfl

/-- The result of a statement; its rejection is thrown. -/
def adminQuery (q : AdminQuery) : ApiAction q.Result :=
  Program.call (S := ApiEffects) (.inr (.query q)) fun
    | .ok result => Program.done result
    | .error e => Program.fail (.database e)

/-- `void touchOperatorTokenLastUsed(…)`. -/
def sendTouch (tokenId : Uuid) (at_ : Instant) : ApiAction Unit :=
  Program.call (S := ApiEffects)
    (.inr (.touchOperatorTokenLastUsed tokenId at_)) Program.done

def randomBytes : ApiAction RandomBytes :=
  Program.call (S := ApiEffects) (.inr .randomBytes) Program.done

/-! ## Replies -/

structure ChannelTokenCreated where
  id : Uuid
  token : String
  createdAt : Instant
deriving DecidableEq

structure OperatorTokenCreated where
  id : Uuid
  token : String
  label : String
  createdAt : Instant
deriving DecidableEq

structure OperatorTokenSummary where
  id : Uuid
  label : String
  prefix_ : String
  createdAt : Instant
  lastUsedAt : Option Instant
deriving DecidableEq

inductive ApiReply where
  | refused (refusal : Refusal)
  | session
  | ingest (outcome : IngestOutcome)
  | accepted (response : AcceptResponse)
  | retried (response : Response)
  | written
  | channelToken (created : ChannelTokenCreated)
  | operatorToken (created : OperatorTokenCreated)
  | operatorTokens (items : List OperatorTokenSummary)
  | noContent
  | workerDone
deriving DecidableEq

/-- The line `admin mutation` of the log. -/
structure AdminMutation where
  method : String
  path : String
  operatorLabel : String
deriving DecidableEq

/-- What became of a request: its reply and what was logged of it. -/
structure Handled where
  reply : ApiReply
  log : Option AdminMutation := none
deriving DecidableEq

/-! ## Routes behind the guard -/

inductive AdminAction where
  | session
  | replay (maxAttempts : ℕ) (channelId broadcastId : Uuid)
  | retry (maxAttempts : ℕ) (deliveryId : Uuid)
  | write (method : String) (statement : OperatorStatement)
  | mintChannelToken (channelId : Uuid)
  | revokeChannelToken (channelId tokenId : Uuid)
  | listOperatorTokens
  | mintOperatorToken (body : Option Js.Json)
  | revokeOperatorToken (tokenId : Uuid)

def AdminAction.method : AdminAction → String
  | session => "GET"
  | replay _ _ _ => "POST"
  | retry _ _ => "POST"
  | write method _ => method
  | mintChannelToken _ => "POST"
  | revokeChannelToken _ _ => "DELETE"
  | listOperatorTokens => "GET"
  | mintOperatorToken _ => "POST"
  | revokeOperatorToken _ => "DELETE"

def noSuchChannel : Refusal := ⟨404, "not_found", "channel not found"⟩

def tokenNotFound : Refusal := ⟨404, "not_found", "token not found"⟩

def operatorTokenNotFound : Refusal :=
  ⟨404, "not_found", "operator token not found"⟩

def invalidOperatorTokenPayload : Refusal :=
  ⟨400, "validation_failed", "invalid operator token payload"⟩

/-- `operatorTokenCreateSchema.safeParse(ctx.request.body)`: the label. -/
def operatorTokenLabel? (body : Option Js.Json) : Option String :=
  (body.bind fun body =>
    (body.get? "label").bind Js.Json.string?).filter fun label =>
      1 ≤ Js.length label ∧ Js.length label ≤ 200

section Routes

variable (hashToken : String → String)

/-- `POST /channels/:channelId/tokens`. -/
def createChannelToken (channelId : Uuid) : ApiAction ApiReply := do
  let channel ← (ingestQuery (.getChannelById channelId)).inl
  match channel with
  | none => return .refused noSuchChannel
  | some _ =>
      let random ← randomBytes
      let minted := mintChannelToken hashToken random
      let id ← (randomUUID.inl).inl
      let createdAt ← (now.inl).inl
      let row ← adminQuery (.insertChannelToken
        ⟨id, channelId, minted.tokenHash⟩ ⟨id, minted.prefix_, createdAt⟩)
      return .channelToken
        { id := row.id
          token := minted.token
          createdAt := createdAt }

/-- `DELETE /channels/:channelId/tokens/:tokenId`. -/
def deleteChannelToken (channelId tokenId : Uuid) : ApiAction ApiReply := do
  let revoked ← adminQuery (.revokeChannelToken channelId tokenId)
  return if revoked then .noContent else .refused tokenNotFound

/-- `GET /operator-tokens`. -/
def getOperatorTokens : ApiAction ApiReply := do
  let rows ← adminQuery .listOperatorTokens
  return .operatorTokens (rows.map fun row =>
    ⟨row.id, row.label, row.prefix_, row.createdAt, row.lastUsedAt⟩)

/-- `POST /operator-tokens`. -/
def createOperatorToken (body : Option Js.Json) : ApiAction ApiReply :=
  match operatorTokenLabel? body with
  | none => return .refused invalidOperatorTokenPayload
  | some label => do
      let random ← randomBytes
      let minted := mintOperatorToken hashToken random
      let id ← (randomUUID.inl).inl
      let createdAt ← (now.inl).inl
      let row ← adminQuery (.insertOperatorToken
        { id := id
          tokenHash := minted.tokenHash
          prefix_ := minted.prefix_
          label := label
          createdAt := createdAt })
      return .operatorToken
        { id := row.id
          token := minted.token
          label := row.label
          createdAt := row.createdAt }

/-- `DELETE /operator-tokens/:tokenId`. -/
def deleteOperatorToken (tokenId : Uuid) : ApiAction ApiReply := do
  let revoked ← adminQuery (.revokeOperatorToken tokenId)
  return if revoked then .noContent else .refused operatorTokenNotFound

/-- The handler of a route. -/
def AdminAction.program : AdminAction → ApiAction ApiReply
  | session => return .session
  | replay maxAttempts channelId broadcastId => do
      let response ← (replayBroadcast maxAttempts channelId broadcastId).inl
      return .accepted response
  | retry maxAttempts deliveryId => do
      let response ← ((retryDelivery maxAttempts deliveryId).inl).inl
      return .retried response
  | write _ statement => do
      let _ ← adminQuery (.write statement)
      return .written
  | mintChannelToken channelId => createChannelToken hashToken channelId
  | revokeChannelToken channelId tokenId => deleteChannelToken channelId tokenId
  | listOperatorTokens => getOperatorTokens
  | mintOperatorToken body => createOperatorToken hashToken body
  | revokeOperatorToken tokenId => deleteOperatorToken tokenId

end Routes

/-! ## The guard -/

/-- The headers of a request that the guard looks at. -/
structure OperatorCredentials where
  authorization : Option String := none
  cookies : String → Option String := fun _ => none

/-- `extractBearerToken(ctx.headers.authorization)`. -/
def OperatorCredentials.bearer? (credentials : OperatorCredentials) :
    Option String :=
  credentials.authorization.bind extractBearerToken

structure OperatorAuthConfig where
  operatorApiKey : String
  cookieName : String

def missingOperatorCredentials : Refusal :=
  ⟨401, "unauthorized", "missing or invalid operator credentials"⟩

/-- `createOperatorAuthMiddleware`, in front of a handler that gets the label of
the credential. -/
def operatorAuth (hashToken : String → String) (config : OperatorAuthConfig)
    (credentials : OperatorCredentials) (next : String → ApiAction Handled) :
    ApiAction Handled :=
  match credentials.bearer? with
  | some bearer =>
      if safeEqual bearer config.operatorApiKey then next "bootstrap"
      else do
        let row ← adminQuery (.findOperatorTokenByHash (hashToken bearer))
        match row with
        | some row => do
            let at_ ← (now.inl).inl
            sendTouch row.id at_
            next row.label
        | none => return ⟨.refused missingOperatorCredentials, none⟩
  | none =>
      match credentials.cookies config.cookieName with
      | some cookie =>
          if safeEqual cookie config.operatorApiKey then next "bootstrap"
          else return ⟨.refused missingOperatorCredentials, none⟩
      | none => return ⟨.refused missingOperatorCredentials, none⟩

/-- The handler of a route, and the line that it leaves in the log. -/
def logged (hashToken : String → String) (path : String) (action : AdminAction)
    (operatorLabel : String) : ApiAction Handled := do
  let reply ← action.program hashToken
  return ⟨reply,
    if action.method ≠ "GET" ∧ action.method ≠ "HEAD" then
      some ⟨action.method, path, operatorLabel⟩
    else none⟩

/-! ## The system -/

/-- What starts a run: a request to ingest or to an admin route, or the worker's
own work. -/
inductive ApiTask where
  | ingest (config : IngestRouteConfig) (slug : String)
      (request : IngestRequest)
  | process (task : Task)
  | autoDisable (endpointId : Uuid) (autoDisableAfterMs : ℕ) (now : Instant)
  | admin (credentials : OperatorCredentials) (path : String)
      (action : AdminAction)

def ApiTask.program (hashToken : String → String) (config : OperatorAuthConfig)
    (dateParse : String → Option Instant) : ApiTask → ApiAction Handled
  | ingest routeConfig slug request => do
      let outcome ←
        (WebhookBroadcast.ingest hashToken routeConfig slug request).inl
      return ⟨.ingest outcome, none⟩
  | process task => do
      ((processDelivery dateParse task.deps task.deliveryId).inl).inl
      return ⟨.workerDone, none⟩
  | autoDisable endpointId autoDisableAfterMs now => do
      let _ ←
        ((maybeAutoDisableEndpoint endpointId autoDisableAfterMs now).inl).inl
      return ⟨.workerDone, none⟩
  | admin credentials path action =>
      operatorAuth hashToken config credentials (logged hashToken path action)

/-- What changes the stores besides the runs: a touch arrives, carried out or
lost, and the retention sweeper runs. -/
inductive Housekeeping where
  | settleTouch (n : ℕ) (carriedOut : Bool)
  | sweep (retentionDays : ℕ) (now : Instant)

def Housekeeping.run : Housekeeping → Deployment → Deployment
  | settleTouch n carriedOut, D =>
      match D.touches[n]? with
      | none => D
      | some touch =>
          { D with
            touches := D.touches.eraseIdx n
            operatorTokens :=
              if carriedOut then
                WebhookBroadcast.touchOperatorTokenLastUsed D.operatorTokens
                  touch.1 touch.2
              else D.operatorTokens }
  | sweep retentionDays now, D =>
      D.withDb (runRetentionSweep D.world.db retentionDays now).2

abbrev ApiEvent := Event ApiTask ApiChoice Housekeeping

abbrev ApiHistory := List ApiEvent

abbrev ApiPool := Pool ApiEffects Thrown Handled ApiTask Deployment

/-- The service behind its guard. -/
def api (hashToken : String → String) (config : OperatorAuthConfig)
    (dateParse : String → Option Instant) :
    System ApiEffects Thrown Handled ApiTask ApiChoice Housekeeping
      Deployment where
  handler := performApi
  program := ApiTask.program hashToken config dateParse
  background := Housekeeping.run

theorem world_settleTouch (n : ℕ) (carriedOut : Bool) (D : Deployment) :
    ((Housekeeping.settleTouch n carriedOut).run D).world = D.world := by
  unfold Housekeeping.run
  dsimp only
  split <;> rfl

/-- The state after a step is the one before, or that of a call. -/
theorem api_step_cases (hashToken : String → String)
    (config : OperatorAuthConfig) (dateParse : String → Option Instant)
    {P : ApiPool} (i : ℕ) (x : ApiChoice) :
    ((api hashToken config dateParse).apply P (.step i x)).state = P.state ∨
      ∃ t c, P.Makes i t c ∧
        ((api hashToken config dateParse).apply P (.step i x)).state =
          (performApi x c P.state).2 := by
  cases hi : P.runs[i]? with
  | none => exact Or.inl (by rw [System.apply_step_none _ x hi])
  | some run =>
      rw [System.apply_step_some _ x hi]
      cases hp : run.program with
      | done a => exact Or.inl rfl
      | fail error => exact Or.inl rfl
      | call c k =>
          exact Or.inr ⟨run.task, c, ⟨run, hi, rfl, by rw [hp]; rfl⟩, rfl⟩

end WebhookBroadcast
