import WebhookBroadcast.Db.Failures
import WebhookBroadcast.Js.Double
import WebhookBroadcast.Js.Number
import WebhookBroadcast.Relational.Percentile

/-!
# Health of Endpoints

`getEndpointHealthByIds` of `packages/db/src/repositories/endpoints.ts`: two
queries, each with the database it finds and its own `now()`, joined by the id
of the Endpoint.
-/

namespace WebhookBroadcast

open Relational

/-- `now() - interval '24 hours'`. -/
def healthWindowStart (now : Instant) : Instant := now - 24 * 60 * 60 * 1000

structure EndpointHealthRow where
  successRate24h : Option ℚ
  p95Ms : Option ℤ
  lastSuccessAt : Option Instant
deriving DecidableEq

/-- `status IN ('succeeded', 'failed', 'dead_lettered')`, counted. -/
def countTerminal (rows : List DeliveryRow) : ℕ :=
  rows.countP fun d => d.status = .succeeded || d.status = .failed ||
    d.status = .deadLettered

/-- `count(*) FILTER (succeeded)::float / nullif(count(*) FILTER (terminal), 0)`:
a quotient of doubles. -/
def successRate24h (rows : List DeliveryRow) : Option ℚ :=
  if countTerminal rows = 0 then none
  else some (Js.toDouble (Js.toDouble (countStatus .succeeded rows) /
    Js.toDouble (countTerminal rows)))

/-- `max(updated_at) FILTER (WHERE status = 'succeeded')`. -/
def lastSuccessAt (rows : List DeliveryRow) : Option Instant :=
  ((rows.filter fun d => d.status = .succeeded).map
    DeliveryRow.updatedAt).max?

/-- `Math.round` of `percentile_cont(0.95) WITHIN GROUP (ORDER BY duration_ms)`. -/
def p95Ms (rows : List (AttemptRow × DeliveryRow)) : Option ℤ :=
  (percentileCont (95 / 100) (rows.map fun r => (r.1.durationMs : ℚ))).map
    Js.round

/-- `FROM attempt INNER JOIN delivery ON delivery.id = attempt.delivery_id`. -/
def attemptDeliveries (db : Database) : List (AttemptRow × DeliveryRow) :=
  db.attempts.rows.flatMap fun a =>
    (db.deliveries.select fun d => d.id = a.deliveryId).map fun d => (a, d)

/-- What a query reads: the database, and the time. -/
structure Reading where
  db : Database
  now : Instant

namespace Reading

/-- The Deliveries of an Endpoint that were updated within the window. -/
def deliveries (r : Reading) (endpointId : Uuid) : List DeliveryRow :=
  r.db.deliveries.rows.filter fun d =>
    d.endpointId = endpointId && healthWindowStart r.now ≤ d.updatedAt

/-- The Attempts at an Endpoint within the window, with their Deliveries. -/
def attempts (r : Reading) (endpointId : Uuid) :
    List (AttemptRow × DeliveryRow) :=
  (attemptDeliveries r.db).filter fun a =>
    a.2.endpointId = endpointId && healthWindowStart r.now ≤ a.1.at_

end Reading

/-- The first query. -/
def deliveryStats (r : Reading) (endpointIds : List Uuid) :
    List (Uuid × Option ℚ × Option Instant) :=
  (groupBy DeliveryRow.endpointId (r.db.deliveries.rows.filter fun d =>
    d.endpointId ∈ endpointIds && healthWindowStart r.now ≤ d.updatedAt)).map
      fun g => (g.1, successRate24h g.2, lastSuccessAt g.2)

/-- The second query; the model has no Attempt without a duration. -/
def attemptStats (r : Reading) (endpointIds : List Uuid) :
    List (Uuid × Option ℤ) :=
  (groupBy (fun a => a.2.endpointId) ((attemptDeliveries r.db).filter fun a =>
    a.2.endpointId ∈ endpointIds && healthWindowStart r.now ≤ a.1.at_)).map
      fun g => (g.1, p95Ms g.2)

def getEndpointHealthByIds (first second : Reading) (endpointIds : List Uuid) :
    List (Uuid × EndpointHealthRow) :=
  if endpointIds = [] then []
  else
    let p95ByEndpoint := attemptStats second endpointIds
    (deliveryStats first endpointIds).map fun row =>
      (row.1,
        { successRate24h := row.2.1
          p95Ms := (p95ByEndpoint.lookup row.1).join
          lastSuccessAt := row.2.2 })

/-- More rows than a table of PostgreSQL can hold: `2 ^ 32` pages of at most 32 kB,
with more than 16 bytes for each row. -/
def tableRowsLimit : ℕ := 2 ^ 43

/-! ## What is found for an Endpoint -/

section Lookup

variable {first second : Reading} {endpointIds : List Uuid} {id : Uuid}

theorem lookup_attemptStats (hid : id ∈ endpointIds) :
    ((attemptStats second endpointIds).lookup id).join =
      p95Ms (second.attempts id) := by
  rw [attemptStats, lookup_map_groupBy p95Ms
    (fun a => decide (healthWindowStart second.now ≤ a.1.at_)) _ hid]
  change (if second.attempts id = [] then none
    else some (p95Ms (second.attempts id))).join = _
  split
  next hnone =>
    rw [hnone]
    rfl
  next => rfl

/-- An Endpoint without a Delivery in the window has no entry. -/
theorem lookup_getEndpointHealthByIds (hid : id ∈ endpointIds) :
    (getEndpointHealthByIds first second endpointIds).lookup id =
      if first.deliveries id = [] then none
      else some
        { successRate24h := successRate24h (first.deliveries id)
          p95Ms := p95Ms (second.attempts id)
          lastSuccessAt := lastSuccessAt (first.deliveries id) } := by
  rw [getEndpointHealthByIds, if_neg (List.ne_nil_of_mem hid)]
  dsimp only
  rw [lookup_map (fun id (row : Option ℚ × Option Instant) =>
      ({ successRate24h := row.1
         p95Ms := ((attemptStats second endpointIds).lookup id).join
         lastSuccessAt := row.2 } : EndpointHealthRow)),
    lookup_attemptStats hid, deliveryStats,
    lookup_map_groupBy (fun rows => (successRate24h rows, lastSuccessAt rows))
      (fun d => decide (healthWindowStart first.now ≤ d.updatedAt)) _ hid]
  change (if first.deliveries id = [] then none
    else some (successRate24h (first.deliveries id),
      lastSuccessAt (first.deliveries id))).map _ = _
  split <;> rfl

end Lookup

end WebhookBroadcast
