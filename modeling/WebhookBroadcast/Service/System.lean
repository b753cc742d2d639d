import WebhookBroadcast.Admin.RetryRoute
import WebhookBroadcast.Db.Channels
import WebhookBroadcast.Ingest.Snapshot
import WebhookBroadcast.Lifecycle.History

/-!
# The service

The API and the worker as one system on one world.  Ingest, replay, fan-out,
operator retry, `processDelivery` and `maybeAutoDisableEndpoint` are runs that
take turns call by call.  The other writes, those of the operator on Channels
and Endpoints and the prune of retention, are single statements.
-/

namespace WebhookBroadcast

open Interaction Relational

/-! ## Runs and statements -/

inductive ServiceTask where
  | ingest (hashToken : String → String) (config : IngestRouteConfig)
      (slug : String) (request : IngestRequest)
  | replay (maxAttempts : ℕ) (channelId broadcastId : Uuid)
  | fanOut (maxAttempts : ℕ) (input : FanOutBroadcastInput)
  | retry (maxAttempts : ℕ) (deliveryId : Uuid)
  | process (task : Task)
  | autoDisable (endpointId : Uuid) (autoDisableAfterMs : ℕ) (now : Instant)

/-- What the task runs, its result dropped. -/
def ServiceTask.program (dateParse : String → Option Instant) :
    ServiceTask → AcceptAction Unit
  | ingest hashToken config slug request => do
      let _ ← WebhookBroadcast.ingest hashToken config slug request
      return ()
  | replay maxAttempts channelId broadcastId => do
      let _ ← replayBroadcast maxAttempts channelId broadcastId
      return ()
  | fanOut maxAttempts input => do
      let _ ← fanOutBroadcast maxAttempts input
      return ()
  | retry maxAttempts deliveryId => do
      let _ ← (retryDelivery maxAttempts deliveryId).inl
      return ()
  | process task => (processDelivery dateParse task.deps task.deliveryId).inl
  | autoDisable endpointId autoDisableAfterMs now => do
      let _ ← (maybeAutoDisableEndpoint endpointId autoDisableAfterMs now).inl
      return ()

/-- A write that is one statement. -/
inductive Statement where
  | createChannel (body : ChannelCreate) (id : Uuid) (now : Instant)
  | patchChannel (id : Uuid) (body : ChannelUpdate) (now : Instant)
  | deleteChannel (id : Uuid) (now : Instant)
  | createEndpoint (body : EndpointCreate) (id channelId : Uuid)
      (now : Instant)
  | patchEndpoint (channelId id : Uuid) (body : EndpointUpdate) (now : Instant)
  | deleteEndpoint (channelId id : Uuid)
  | prune (cutoff : Instant)

/-- The database after the statement, whether it was refused or not. -/
def Statement.runDb : Statement → Database → Database
  | createChannel body id now, db => (insertChannel db (body.toRow id now)).2
  | patchChannel id body now, db => (updateChannel db id body now).2
  | deleteChannel id now, db => (softDeleteChannel db id now).2
  | createEndpoint body id channelId now, db =>
      (insertEndpoint db (body.toRow id channelId now)).2
  | patchEndpoint channelId id body now, db =>
      (updateEndpoint db channelId id (body.toPatch now)).2
  | deleteEndpoint channelId id, db =>
      (WebhookBroadcast.deleteEndpoint db channelId id).2
  | prune cutoff, db => deleteBroadcastsReceivedBefore db cutoff

def Statement.run (statement : Statement) (w : World) : World :=
  { w with db := statement.runDb w.db }

abbrev ServiceEvent := Event ServiceTask Choice Statement

abbrev ServiceHistory := List ServiceEvent

abbrev ServicePool := Pool AcceptEffects Thrown Unit ServiceTask World

def service (dateParse : String → Option Instant) :
    System AcceptEffects Thrown Unit ServiceTask Choice Statement World where
  handler := performAccept
  program := ServiceTask.program dateParse
  background := Statement.run

/-- The pool that a history leads to from world `w`. -/
def serve (dateParse : String → Option Instant) (w : World)
    (history : ServiceHistory) : ServicePool :=
  (service dateParse).exec (Pool.idle w) history

theorem serve_concat (dateParse : String → Option Instant) (w : World)
    (history : ServiceHistory) (e : ServiceEvent) :
    serve dateParse w (history ++ [e]) =
      (service dateParse).apply (serve dateParse w history) e :=
  System.exec_concat _ _ _ _

/-- What a step does to the database is nothing, or what its call does. -/
theorem service_step_cases (dateParse : String → Option Instant)
    (P : ServicePool) (i : ℕ) (x : Choice) :
    ((service dateParse).apply P (.step i x)).state = P.state ∨
      ∃ run c, P.runs[i]? = some run ∧ run.program.next? = some c ∧
        ((service dateParse).apply P (.step i x)).state =
          (performAccept x c P.state).2 := by
  cases hi : P.runs[i]? with
  | none => exact Or.inl (by rw [System.apply_step_none _ x hi])
  | some run =>
      rw [System.apply_step_some _ x hi]
      cases hp : run.program with
      | done a => exact Or.inl (by simp [Program.advance])
      | fail e => exact Or.inl (by simp [Program.advance])
      | call c k => exact Or.inr ⟨run, c, rfl, by rw [hp]; rfl, rfl⟩

end WebhookBroadcast
