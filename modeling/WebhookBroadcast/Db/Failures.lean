import WebhookBroadcast.Db.Collation
import WebhookBroadcast.Relational.Group

/-!
# Failure counters

The aggregates that the admin API shows about failing Channels and Endpoints:
`getRecentFailureCountsByChannelIds` of `deliveries.ts`, and of `endpoints.ts`
`getAutoDisabledEndpointCountsByChannelIds` and `getFailureRollupForChannel`.
A `Map` that they return is a list of entries with different keys.
-/

namespace WebhookBroadcast

open Relational

/-- `CHANNEL_RECENT_FAILURE_WINDOW_MS`. -/
def CHANNEL_RECENT_FAILURE_WINDOW_MS : ℤ := 24 * 60 * 60 * 1000

/-- The start of the window. -/
def failureWindowStart (now : Instant) : Instant :=
  now - CHANNEL_RECENT_FAILURE_WINDOW_MS

/-- `status IN ('failed', 'dead_lettered') AND updated_at >= since`. -/
def DeliveryRow.failedSince (since : Instant) (d : DeliveryRow) : Bool :=
  (d.status = .failed || d.status = .deadLettered) && since ≤ d.updatedAt

structure ChannelRecentFailureCountRow where
  failedCount : ℕ
  deadLetteredCount : ℕ
deriving DecidableEq

/-- `count(*) FILTER (WHERE status = …)`. -/
def countStatus (status : DeliveryStatus) (rows : List DeliveryRow) : ℕ :=
  rows.countP fun d => d.status = status

def getRecentFailureCountsByChannelIds (db : Database) (channelIds : List Uuid)
    (now : Instant) : List (Uuid × ChannelRecentFailureCountRow) :=
  if channelIds = [] then []
  else
    let since := failureWindowStart now
    (groupBy DeliveryRow.channelId (db.deliveries.select fun d =>
      d.channelId ∈ channelIds && d.failedSince since)).map fun g =>
        (g.1, ⟨countStatus .failed g.2, countStatus .deadLettered g.2⟩)

def getAutoDisabledEndpointCountsByChannelIds (db : Database)
    (channelIds : List Uuid) : List (Uuid × ℕ) :=
  if channelIds = [] then []
  else
    (groupBy EndpointRow.channelId (db.endpoints.select fun e =>
      e.channelId ∈ channelIds && e.autoDisabledAt.isSome)).map fun g =>
        (g.1, g.2.length)

structure EndpointFailureRollupRow where
  endpointId : Uuid
  endpointName : Option String
  endpointUrl : String
  failed : ℕ
  deadLettered : ℕ
  autoDisabledAt : Option Instant
  lastFailureAt : Instant
deriving DecidableEq

namespace EndpointFailureRollupRow

/-- The row of one group: the id determines the other columns of the Endpoint,
and a group is never empty, so that the maximum exists. -/
def ofGroup (g : EndpointRow × List (EndpointRow × DeliveryRow)) :
    EndpointFailureRollupRow where
  endpointId := g.1.id
  endpointName := g.1.name
  endpointUrl := g.1.url
  failed := countStatus .failed (g.2.map Prod.snd)
  deadLettered := countStatus .deadLettered (g.2.map Prod.snd)
  autoDisabledAt := g.1.autoDisabledAt
  lastFailureAt := (g.2.map fun r => r.2.updatedAt).max?.getD 0

/-- The legs of the `ORDER BY`, most severe first. -/
def rank (row : EndpointFailureRollupRow) :
    ℕ ×ₗ ℕᵒᵈ ×ₗ ℕᵒᵈ ×ₗ ℤᵒᵈ ×ₗ Collated ×ₗ Uuid :=
  toLex (if row.autoDisabledAt.isSome then 0 else 1,
    toLex (OrderDual.toDual row.deadLettered,
      toLex (OrderDual.toDual row.failed,
        toLex (OrderDual.toDual row.lastFailureAt,
          toLex (⟨row.endpointName.getD row.endpointUrl⟩, row.endpointId)))))

end EndpointFailureRollupRow

/-- `FROM endpoint INNER JOIN delivery ON delivery.endpoint_id = endpoint.id`. -/
def endpointDeliveries (db : Database) : List (EndpointRow × DeliveryRow) :=
  db.endpoints.rows.flatMap fun e =>
    (db.deliveries.select fun d => d.endpointId = e.id).map fun d => (e, d)

def getFailureRollupForChannel [Collation] (db : Database) (channelId : Uuid)
    (now : Instant) : List EndpointFailureRollupRow :=
  let since := failureWindowStart now
  ((groupBy Prod.fst ((endpointDeliveries db).filter fun r =>
    r.1.channelId = channelId && r.2.failedSince since)).map
      EndpointFailureRollupRow.ofGroup).mergeSort fun a b =>
        a.rank ≤ b.rank

/-! ## Counting failures -/

/-- Failed and dead-lettered Deliveries are the ones in the window. -/
theorem countStatus_add {rows : List DeliveryRow} {since : Instant}
    (h : ∀ d ∈ rows, d.failedSince since = true) :
    countStatus .failed rows + countStatus .deadLettered rows =
      rows.length := by
  induction rows with
  | nil => rfl
  | cons d rows ih =>
      have hrest := ih fun d' hd' => h d' (List.mem_cons_of_mem d hd')
      have hd := h d List.mem_cons_self
      simp only [DeliveryRow.failedSince, Bool.and_eq_true, Bool.or_eq_true,
        decide_eq_true_eq] at hd
      rw [countStatus, countStatus] at hrest ⊢
      rcases hd.1 with hstatus | hstatus
      · simp only [List.countP_cons, hstatus, List.length_cons]
        simp
        omega
      · simp only [List.countP_cons, hstatus, List.length_cons]
        simp
        omega

end WebhookBroadcast
