import WebhookBroadcast.Effects

/-!
# Actions

Asynchronous functions of the repository are programs over `Effects`.  This
module names their error type and their calls.  `query` awaits a statement and
lets a rejection propagate; `tryQuery` hands the settled promise to a caller
that catches it.
-/

namespace WebhookBroadcast

open Interaction

/-- The message of a `RetryableDeliveryError`. -/
inductive RetryMessage where
  /-- "Delivery … Attempt … could not persist outcome (…); retrying in …ms" -/
  | notPersisted (deliveryId : Uuid) (n : ℕ) (cause : DbError) (delayMs : ℚ)
  /-- "Delivery … Attempt … failed (…); retrying in …ms" -/
  | attemptFailed (deliveryId : Uuid) (n : ℕ) (statusCode : Option ℕ)
      (error : Option String) (delayMs : ℚ)
deriving DecidableEq

/-- What an asynchronous function rejects with: a `RetryableDeliveryError`, or
the error of a database or queue call that nobody caught. -/
inductive Thrown where
  | retryableDeliveryError (message : RetryMessage) (delayMs : ℚ)
  | database (error : DbError)
  | queue (message : String)
deriving DecidableEq

/-- An asynchronous function of the repository that resolves to an `α`. -/
abbrev Action (α : Type) := Program Effects Thrown α

/-- The settled promise of a statement. -/
def tryQuery (q : Query) : Action (Except DbError q.Result) :=
  Program.call (.query q) Program.done

/-- The result of a statement; its rejection is thrown. -/
def query (q : Query) : Action q.Result :=
  Program.call (.query q) fun
    | .ok result => Program.done result
    | .error e => Program.fail (.database e)

/-- The result of a queue call; its rejection is thrown. -/
def queueCall (q : QueueCall) : Action q.Result :=
  Program.call (.queue q) fun
    | .ok result => Program.done result
    | .error message => Program.fail (.queue message)

/-- `fetch(url, init)`. -/
def fetch (request : OutboundRequest) : Action FetchReply :=
  Program.call (.fetch request) Program.done

/-- `response.arrayBuffer()`, its rejection ignored. -/
def drainBody : Action Unit := Program.call .drainBody Program.done

/-- `now()`. -/
def now : Action Instant := Program.call .now Program.done

/-- `process.hrtime.bigint()`. -/
def hrtime : Action ℤ := Program.call .hrtime Program.done

/-- `random()`. -/
def random : Action Draw := Program.call .random Program.done

/-- `randomUUID()`. -/
def randomUUID : Action Uuid := Program.call .randomUUID Program.done

end WebhookBroadcast
