import WebhookBroadcast.Worker.ForwardHeaders
import WebhookBroadcast.Worker.RetryPolicy

/-!
# Processing one Delivery

`apps/api/src/worker/processDelivery.ts` and the repository functions it
awaits.  Each function of the source is an action of the same name; the body of
`processDelivery` is cut at its `try` block (`dialEndpoint`), at its inner
function `finishAttempt` with the `catch` block of that (`releaseClaim`), and at
the dispatch on the outcome (`settleAttempt`).
-/

namespace WebhookBroadcast

open Interaction

/-! ## Repository functions of several statements -/

/-- Claims a Delivery for one Attempt.  A row that is not pending is read again
in a second statement, and an `in_progress` one is re-admitted. -/
def markDeliveryInProgress (deliveryId : Uuid) (updatedAt : Instant) :
    Action Bool := do
  let claimed ← query (.claimPendingDelivery deliveryId updatedAt)
  if claimed then
    return true
  else
    let existing ← query (.selectDeliveryStatus deliveryId)
    return existing = some .inProgress

/-- After a terminal Delivery failure, disable the Endpoint when its
consecutive failures span at least `autoDisableAfterMs`. -/
def maybeAutoDisableEndpoint (endpointId : Uuid) (autoDisableAfterMs : ℕ)
    (now : Instant) : Action Bool := do
  let endpoint ← query (.selectEndpointEnablement endpointId)
  match endpoint with
  | none => return false
  | some endpoint =>
      if endpoint.autoDisabledAt ≠ none ∨ endpoint.enabled = false then
        return false
      else
        let lastSuccess ← query (.selectLastSuccess endpointId)
        let streakStart ← query (.selectStreakStart endpointId lastSuccess)
        match streakStart with
        | none => return false
        | some start =>
            if now - start < autoDisableAfterMs then
              return false
            else
              query (.stampAutoDisabled endpointId now)

/-! ## The worker -/

/-- `DEFAULT_DELIVERY_MAX_ATTEMPTS`. -/
def DEFAULT_DELIVERY_MAX_ATTEMPTS : ℕ := 8

/-- `DEFAULT_DELIVERY_BACKOFF_MS`. -/
def DEFAULT_DELIVERY_BACKOFF_MS : ℕ := 5000

/-- `DEFAULT_DELIVERY_BACKOFF_MAX_MS`. -/
def DEFAULT_DELIVERY_BACKOFF_MAX_MS : ℕ := 3600000

/-- `DEFAULT_ENDPOINT_AUTO_DISABLE_AFTER_MS`. -/
def DEFAULT_ENDPOINT_AUTO_DISABLE_AFTER_MS : ℕ := 3600000

/-- The settings of a run.  `fetch`, the clock and the random source are calls
of the program. -/
structure ProcessDeliveryDeps where
  defaultTimeoutMs : ℕ
  maxAttempts? : Option ℕ := none
  backoffBaseMs? : Option ℕ := none
  backoffMaxMs? : Option ℕ := none
  endpointAutoDisableAfterMs? : Option ℕ := none

namespace ProcessDeliveryDeps

variable (deps : ProcessDeliveryDeps)

/-- `deps.maxAttempts ?? DEFAULT_DELIVERY_MAX_ATTEMPTS`. -/
def maxAttempts : ℕ := deps.maxAttempts?.getD DEFAULT_DELIVERY_MAX_ATTEMPTS

/-- `deps.backoffBaseMs ?? DEFAULT_DELIVERY_BACKOFF_MS`. -/
def backoffBaseMs : ℕ := deps.backoffBaseMs?.getD DEFAULT_DELIVERY_BACKOFF_MS

/-- `deps.backoffMaxMs ?? DEFAULT_DELIVERY_BACKOFF_MAX_MS`. -/
def backoffMaxMs : ℕ :=
  deps.backoffMaxMs?.getD DEFAULT_DELIVERY_BACKOFF_MAX_MS

/-- `deps.endpointAutoDisableAfterMs ?? DEFAULT_ENDPOINT_AUTO_DISABLE_AFTER_MS`. -/
def endpointAutoDisableAfterMs : ℕ :=
  deps.endpointAutoDisableAfterMs?.getD DEFAULT_ENDPOINT_AUTO_DISABLE_AFTER_MS

end ProcessDeliveryDeps

/-- What one HTTP Attempt observed. -/
structure HttpAttempt where
  statusCode : Option ℕ
  error : Option String
  retryAfterMs : Option ℚ
  durationMs : ℤ
deriving DecidableEq

/-- The request of an Attempt: forwarded headers first, then the Endpoint's
own, then the Broadcast's content type. -/
def outboundRequest [Js.LowerCasing] (record : DeliveryForProcessing)
    (timeoutMs : ℕ) : OutboundRequest where
  url := record.endpoint.url
  method := "POST"
  headers :=
    ((byLowercaseName (selectForwardableHeaders record.broadcast.headers
      record.channel.forwardHeaders)).spread
        (byLowercaseName record.endpoint.headers)).set
          "content-type" record.broadcast.contentType
  body := record.broadcast.body
  redirect := "manual"
  timeoutMs := timeoutMs

/-- The message recorded for a `fetch` that rejected. -/
def fetchError (timeoutMs : ℕ) (aborted : Bool) (message : String) : String :=
  if aborted then s!"timed out after {timeoutMs}ms" else message

/-- The server's wish to be left alone, which only `429` and `503` express. -/
def readRetryAfterMs (dateParse : String → Option Instant) (status : ℕ)
    (retryAfter : Option String) : Action (Option ℚ) :=
  if status = 429 ∨ status = 503 then do
    let at_ ← now
    return parseRetryAfterMs dateParse retryAfter at_
  else
    return none

/-- Dial out, and time it. -/
def dialEndpoint [Js.LowerCasing] (dateParse : String → Option Instant)
    (deps : ProcessDeliveryDeps) (record : DeliveryForProcessing) :
    Action HttpAttempt := do
  let timeoutMs := record.endpoint.timeoutMs.getD deps.defaultTimeoutMs
  let startedAt ← hrtime
  let reply ← fetch (outboundRequest record timeoutMs)
  match reply with
  | .response status retryAfter =>
      let retryAfterMs ← readRetryAfterMs dateParse status retryAfter
      drainBody
      let endedAt ← hrtime
      return ⟨some status, none, retryAfterMs,
        (endedAt - startedAt).tdiv 1000000⟩
  | .failure aborted message =>
      let endedAt ← hrtime
      return ⟨none, some (fetchError timeoutMs aborted message), none,
        (endedAt - startedAt).tdiv 1000000⟩

/-- What `finishAttempt` writes for a status. -/
def completionInput (deliveryId : Uuid) (n : ℕ) (attempt : HttpAttempt)
    (at_ : Instant) (status : DeliveryStatus) : CompleteDeliveryInput where
  deliveryId := deliveryId
  n := n
  statusCode := attempt.statusCode
  durationMs := attempt.durationMs
  error := if status = .succeeded then none else attempt.error
  status := status
  at_ := at_

/-- The `catch` block of `finishAttempt`: release the claim and ask for another
run. -/
def releaseClaim (deps : ProcessDeliveryDeps) (deliveryId : Uuid) (n : ℕ)
    (at_ : Instant) (dbErr : DbError) : Action Unit := do
  let _ ← query (.resetInProgressDeliveryToPending deliveryId at_)
  let delayMs ← computeBackoffDelayMs
    { attemptNumber := n
      baseMs := deps.backoffBaseMs
      capMs := deps.backoffMaxMs }
  Program.fail (.retryableDeliveryError
    (.notPersisted deliveryId n dbErr delayMs) delayMs)

/-- Persist the outcome. -/
def finishAttempt (deps : ProcessDeliveryDeps) (deliveryId : Uuid) (n : ℕ)
    (attempt : HttpAttempt) (at_ : Instant) (status : DeliveryStatus) :
    Action Unit := do
  let completed ← tryQuery
    (.completeDelivery (completionInput deliveryId n attempt at_ status))
  match completed with
  | .ok () => return ()
  | .error dbErr => releaseClaim deps deliveryId n at_ dbErr

/-- `2xx`. -/
def isSuccess (statusCode : Option ℕ) : Bool :=
  match statusCode with
  | none => false
  | some code => 200 ≤ code && code < 300

/-- Dispatch on the outcome of the Attempt. -/
def settleAttempt (deps : ProcessDeliveryDeps)
    (record : DeliveryForProcessing) (deliveryId : Uuid) (n : ℕ)
    (attempt : HttpAttempt) (at_ : Instant) : Action Unit := do
  if isSuccess attempt.statusCode then
    finishAttempt deps deliveryId n attempt at_ .succeeded
  else if !isRetryableOutcome attempt.statusCode then
    finishAttempt deps deliveryId n attempt at_ .failed
    let _ ← maybeAutoDisableEndpoint record.endpointId
      deps.endpointAutoDisableAfterMs at_
    return ()
  else if deps.maxAttempts ≤ n then
    finishAttempt deps deliveryId n attempt at_ .deadLettered
    let _ ← maybeAutoDisableEndpoint record.endpointId
      deps.endpointAutoDisableAfterMs at_
    return ()
  else
    finishAttempt deps deliveryId n attempt at_ .pending
    let delayMs ← computeBackoffDelayMs
      { attemptNumber := n
        baseMs := deps.backoffBaseMs
        capMs := deps.backoffMaxMs
        retryAfterMs := attempt.retryAfterMs }
    Program.fail (.retryableDeliveryError
      (.attemptFailed deliveryId n attempt.statusCode attempt.error delayMs)
      delayMs)

/-- One Delivery's HTTP Attempt. -/
def processDelivery [Js.LowerCasing] (dateParse : String → Option Instant)
    (deps : ProcessDeliveryDeps) (deliveryId : Uuid) : Action Unit := do
  let record ← query (.getDeliveryForProcessing deliveryId)
  match record with
  | none => return ()
  | some record =>
      if record.status ≠ .pending ∧ record.status ≠ .inProgress then
        return ()
      else
        let claimedAt ← now
        let inProgress ← markDeliveryInProgress deliveryId claimedAt
        if !inProgress then
          return ()
        else
          let attempt ← dialEndpoint dateParse deps record
          let n := record.attemptCount + 1
          let at_ ← now
          settleAttempt deps record deliveryId n attempt at_

/-- The `backoffStrategy` of the worker: the delay that a
`RetryableDeliveryError` carries, `-1` for every other error. -/
def backoffStrategy : Thrown → ℚ
  | .retryableDeliveryError _ delayMs => delayMs
  | _ => -1

/-- The job once the promise of its processor has settled. -/
def Job.settle (job : Job) : Except Thrown Unit → Job
  | .ok _ => job.complete
  | .error e => job.reject (backoffStrategy e)

end WebhookBroadcast
