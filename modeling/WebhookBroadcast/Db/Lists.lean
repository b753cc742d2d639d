import WebhookBroadcast.Db.Collation
import WebhookBroadcast.Relational.Keyset

/-!
# The lists of Broadcasts and Endpoints

`listBroadcastsByChannel` and `listBroadcastsForEndpointFailures` of
`packages/db/src/repositories/broadcasts.ts` list newest first, `listEndpoints`
of `endpoints.ts` by URL.  The time in a Broadcast's cursor is what the ISO text
that stands there denotes, exact as long as times are whole milliseconds.
-/

namespace WebhookBroadcast

open Relational

/-- `LIMIT limit + 1`, and the cursor of the last item if one row more has been
found than is listed. -/
def limited {ρ κ : Type} (limit : ℕ) (cursorOf : ρ → κ) (found : List ρ) :
    Page ρ κ :=
  let rows := found.take (limit + 1)
  let hasMore : Bool := rows.length > limit
  let items := if hasMore then rows.take limit else rows
  { items := items
    next := if hasMore then items.getLast?.map cursorOf else none }

/-- What follows the `ORDER BY` makes a page of the rows after the cursor. -/
theorem limited_rest {ρ κ : Type} [LinearOrder κ] (s : Source ρ κ) (limit : ℕ)
    (cursor : Option κ) :
    limited limit s.key (s.rest cursor) = s.page limit cursor :=
  rfl

/-! ## Broadcasts -/

structure BroadcastCursor where
  receivedAt : Instant
  id : Uuid
deriving DecidableEq

namespace BroadcastCursor

/-- The keyset `WHERE`: the row comes after the cursor. -/
def precedes (cursor row : BroadcastCursor) : Bool :=
  row.receivedAt < cursor.receivedAt ||
    (row.receivedAt = cursor.receivedAt && row.id < cursor.id)

/-- The legs of the `ORDER BY`. -/
def legs (cursor : BroadcastCursor) : ℤᵒᵈ ×ₗ Uuidᵒᵈ :=
  toLex (OrderDual.toDual cursor.receivedAt, OrderDual.toDual cursor.id)

theorem legs_injective : Function.Injective legs := by
  rintro ⟨receivedAt, id⟩ ⟨receivedAt', id'⟩ h
  simp only [legs, toLex_inj, Prod.mk.injEq, OrderDual.toDual_inj] at h
  rw [h.1, h.2]

/-- Newest first. -/
instance : LinearOrder BroadcastCursor :=
  LinearOrder.lift' legs legs_injective

theorem precedes_iff {cursor row : BroadcastCursor} :
    cursor.precedes row = true ↔ cursor < row := by
  change _ ↔ cursor.legs < row.legs
  simp only [precedes, legs, Prod.Lex.toLex_lt_toLex,
    OrderDual.toDual_lt_toDual, EmbeddingLike.apply_eq_iff_eq,
    Bool.or_eq_true, Bool.and_eq_true, decide_eq_true_eq]
  rw [eq_comm (a := row.receivedAt)]

end BroadcastCursor

def BroadcastRow.cursor (b : BroadcastRow) : BroadcastCursor :=
  ⟨b.receivedAt, b.id⟩

structure ListBroadcastsOptions where
  channelId : Uuid
  cursor : Option BroadcastCursor := none
  limit : ℕ

def listBroadcastsByChannel (db : Database) (options : ListBroadcastsOptions) :
    Page BroadcastRow BroadcastCursor :=
  limited options.limit BroadcastRow.cursor
    ((db.broadcasts.select fun b =>
      b.channelId = options.channelId &&
        options.cursor.all (·.precedes b.cursor)).mergeSort
          fun a b => a.cursor ≤ b.cursor)

/-- What a request for the Broadcasts of a Channel finds. -/
def activity (db : Database) (channelId : Uuid) :
    Source BroadcastRow BroadcastCursor where
  rows := db.broadcasts.select fun b => b.channelId = channelId
  key := BroadcastRow.cursor

theorem mem_activity {db : Database} {channelId : Uuid} {b : BroadcastRow} :
    b ∈ (activity db channelId).rows ↔
      b ∈ db.broadcasts ∧ b.channelId = channelId := by
  rw [activity, Table.mem_select, decide_eq_true_eq]

theorem keyed_activity (db : Database) (channelId : Uuid) :
    (activity db channelId).Keyed := by
  refine List.Nodup.of_map BroadcastCursor.id ?_
  rw [List.map_map]
  exact db.broadcasts.nodup.sublist (List.filter_sublist.map _)

theorem listBroadcastsByChannel_eq_page (db : Database)
    (options : ListBroadcastsOptions) :
    listBroadcastsByChannel db options =
      (activity db options.channelId).page options.limit options.cursor := by
  rw [← limited_rest, activity, Table.select, Source.rest_filter _ _ _
    fun b => all_precedes BroadcastCursor.precedes_iff _ b.cursor]
  rfl

/-! ## Broadcasts that one Endpoint failed -/

structure BroadcastWithEndpointDeliveryRow extends BroadcastRow where
  deliveryId : Uuid
  deliveryStatus : DeliveryStatus
  attemptCount : ℕ
  lastStatusCode : Option ℕ
  lastDurationMs : Option ℤ
  lastError : Option String
deriving DecidableEq

def BroadcastRow.withDelivery (b : BroadcastRow) (d : DeliveryRow) :
    BroadcastWithEndpointDeliveryRow where
  toBroadcastRow := b
  deliveryId := d.id
  deliveryStatus := d.status
  attemptCount := d.attemptCount
  lastStatusCode := d.lastStatusCode
  lastDurationMs := d.lastDurationMs
  lastError := d.lastError

/-- `FROM broadcast INNER JOIN delivery ON delivery.broadcast_id = broadcast.id
AND delivery.endpoint_id = endpointId`. -/
def broadcastDeliveries (db : Database) (endpointId : Uuid) :
    List BroadcastWithEndpointDeliveryRow :=
  db.broadcasts.rows.flatMap fun b =>
    (db.deliveries.select fun d =>
      d.broadcastId = b.id && d.endpointId = endpointId).map b.withDelivery

structure ListEndpointFailuresOptions extends ListBroadcastsOptions where
  endpointId : Uuid

def listBroadcastsForEndpointFailures (db : Database)
    (options : ListEndpointFailuresOptions) :
    Page BroadcastWithEndpointDeliveryRow BroadcastCursor :=
  limited options.limit (fun r => r.toBroadcastRow.cursor)
    (((broadcastDeliveries db options.endpointId).filter fun r =>
      r.channelId = options.channelId &&
        (r.deliveryStatus = .failed || r.deliveryStatus = .deadLettered) &&
        options.cursor.all (·.precedes r.toBroadcastRow.cursor)).mergeSort
          fun a b => a.toBroadcastRow.cursor ≤ b.toBroadcastRow.cursor)

theorem mem_broadcastDeliveries {db : Database} {endpointId : Uuid}
    {r : BroadcastWithEndpointDeliveryRow} :
    r ∈ broadcastDeliveries db endpointId ↔
      ∃ b ∈ db.broadcasts, ∃ d ∈ db.deliveries, d.broadcastId = b.id ∧
        d.endpointId = endpointId ∧ b.withDelivery d = r := by
  simp [broadcastDeliveries, Table.mem_select, Table.mem_def, and_assoc]

/-- The join repeats no Broadcast: an Endpoint has one Delivery of each. -/
theorem nodup_broadcastDeliveries (db : Database) (endpointId : Uuid) :
    ((broadcastDeliveries db endpointId).map fun r => r.id).Nodup := by
  have hmap : ((broadcastDeliveries db endpointId).map fun r => r.id) =
      db.broadcasts.rows.flatMap fun b => (db.deliveries.select fun d =>
        d.broadcastId = b.id && d.endpointId = endpointId).map
          fun _ => b.id := by
    simp [broadcastDeliveries, List.map_flatMap, BroadcastRow.withDelivery,
      Function.comp_def]
  rw [hmap, List.nodup_flatMap]
  constructor
  · intro b _
    refine List.Nodup.map_on (fun d hd d' hd' _ => ?_)
      (db.deliveries.nodup.of_map.sublist List.filter_sublist)
    simp only [Table.mem_select, Bool.and_eq_true, decide_eq_true_eq] at hd hd'
    refine List.inj_on_of_nodup_map db.delivery_pair hd.1 hd'.1 ?_
    rw [DeliveryRow.pair, DeliveryRow.pair, hd.2.1, hd'.2.1, hd.2.2, hd'.2.2]
  · refine (List.pairwise_map.mp db.broadcasts.nodup).imp
      fun {b b'} hne id hid hid' => hne ?_
    obtain ⟨-, -, rfl⟩ := List.mem_map.mp hid
    obtain ⟨-, -, h⟩ := List.mem_map.mp hid'
    exact h.symm

/-- What a request for the failures of one Endpoint finds. -/
def endpointFailures (db : Database) (channelId endpointId : Uuid) :
    Source BroadcastWithEndpointDeliveryRow BroadcastCursor where
  rows := (broadcastDeliveries db endpointId).filter fun r =>
    r.channelId = channelId &&
      (r.deliveryStatus = .failed || r.deliveryStatus = .deadLettered)
  key r := r.toBroadcastRow.cursor

theorem nodup_endpointFailures (db : Database) (channelId endpointId : Uuid) :
    ((endpointFailures db channelId endpointId).rows.map
      fun r => r.id).Nodup :=
  (nodup_broadcastDeliveries db endpointId).sublist
    (List.filter_sublist.map _)

theorem keyed_endpointFailures (db : Database) (channelId endpointId : Uuid) :
    (endpointFailures db channelId endpointId).Keyed := by
  refine List.Nodup.of_map BroadcastCursor.id ?_
  rw [List.map_map]
  exact nodup_endpointFailures db channelId endpointId

theorem listBroadcastsForEndpointFailures_eq_page (db : Database)
    (options : ListEndpointFailuresOptions) :
    listBroadcastsForEndpointFailures db options =
      (endpointFailures db options.channelId options.endpointId).page
        options.limit options.cursor := by
  rw [← limited_rest, endpointFailures, Source.rest_filter _ _ _
    fun r => all_precedes BroadcastCursor.precedes_iff _
      r.toBroadcastRow.cursor]
  rfl

/-- The Broadcasts of the Channel that the Endpoint failed. -/
theorem perm_endpointFailures (db : Database) (channelId endpointId : Uuid) :
    ((endpointFailures db channelId endpointId).rows.map
      fun r => r.toBroadcastRow).Perm
        (db.broadcasts.select fun b => b.channelId = channelId &&
          decide (∃ d ∈ db.deliveries.rows, d.broadcastId = b.id ∧
            d.endpointId = endpointId ∧
              (d.status = .failed ∨ d.status = .deadLettered))) := by
  refine (List.perm_ext_iff_of_nodup ?_ ?_).mpr fun b => ?_
  · refine List.Nodup.of_map BroadcastRow.id ?_
    rw [List.map_map]
    exact nodup_endpointFailures db channelId endpointId
  · exact db.broadcasts.nodup.of_map.sublist List.filter_sublist
  · simp only [endpointFailures, List.mem_map, List.mem_filter,
      mem_broadcastDeliveries, Table.mem_select, Bool.and_eq_true,
      Bool.or_eq_true, decide_eq_true_eq]
    constructor
    · rintro ⟨r, ⟨⟨b, hb, d, hd, hid, hendpoint, rfl⟩, hchannel, hfailed⟩,
        rfl⟩
      exact ⟨hb, hchannel, d, hd, hid, hendpoint, hfailed⟩
    · rintro ⟨hb, hchannel, d, hd, hid, hendpoint, hfailed⟩
      exact ⟨b.withDelivery d, ⟨⟨b, hb, d, hd, hid, hendpoint, rfl⟩,
        hchannel, hfailed⟩, rfl⟩

/-! ## Endpoints -/

structure EndpointCursor where
  url : String
  id : Uuid
deriving DecidableEq

def EndpointRow.cursor (e : EndpointRow) : EndpointCursor := ⟨e.url, e.id⟩

section Collated

variable [Collation]

namespace EndpointCursor

/-- The keyset `WHERE`: the row comes after the cursor. -/
def precedes (cursor row : EndpointCursor) : Bool :=
  (⟨row.url⟩ : Collated) > ⟨cursor.url⟩ ||
    (row.url = cursor.url && row.id > cursor.id)

/-- The legs of the `ORDER BY`. -/
def legs (cursor : EndpointCursor) : Collated ×ₗ Uuid :=
  toLex (⟨cursor.url⟩, cursor.id)

omit [Collation] in
theorem legs_injective : Function.Injective legs := by
  rintro ⟨url, id⟩ ⟨url', id'⟩ h
  simp only [legs, toLex_inj, Prod.mk.injEq, Collated.mk.injEq] at h
  rw [h.1, h.2]

instance : LinearOrder EndpointCursor :=
  LinearOrder.lift' legs legs_injective

theorem precedes_iff {cursor row : EndpointCursor} :
    cursor.precedes row = true ↔ cursor < row := by
  change _ ↔ cursor.legs < row.legs
  simp only [precedes, legs, Prod.Lex.toLex_lt_toLex, Collated.mk.injEq,
    Bool.or_eq_true, Bool.and_eq_true, decide_eq_true_eq, gt_iff_lt]
  rw [eq_comm (a := row.url)]

end EndpointCursor

structure ListEndpointsOptions where
  cursor : Option EndpointCursor := none
  limit : ℕ
  url : Option String := none

def listEndpoints (db : Database) (channelId : Uuid)
    (options : ListEndpointsOptions) : Page EndpointRow EndpointCursor :=
  limited options.limit EndpointRow.cursor
    ((db.endpoints.select fun e =>
      e.channelId = channelId &&
        options.url.all (e.url = ·) &&
        options.cursor.all (·.precedes e.cursor)).mergeSort
          fun a b => a.cursor ≤ b.cursor)

omit [Collation] in
/-- What a request for the Endpoints of a Channel finds. -/
def endpointsOf (db : Database) (channelId : Uuid) (url : Option String) :
    Source EndpointRow EndpointCursor where
  rows := db.endpoints.select fun e =>
    e.channelId = channelId && url.all (e.url = ·)
  key := EndpointRow.cursor

omit [Collation] in
theorem keyed_endpointsOf (db : Database) (channelId : Uuid)
    (url : Option String) : (endpointsOf db channelId url).Keyed := by
  refine List.Nodup.of_map EndpointCursor.id ?_
  rw [List.map_map]
  exact db.endpoints.nodup.sublist (List.filter_sublist.map _)

theorem listEndpoints_eq_page (db : Database) (channelId : Uuid)
    (options : ListEndpointsOptions) :
    listEndpoints db channelId options =
      (endpointsOf db channelId options.url).page options.limit
        options.cursor := by
  rw [← limited_rest, endpointsOf, Table.select, Source.rest_filter _ _ _
    fun e => all_precedes EndpointCursor.precedes_iff _ e.cursor]
  rfl

end Collated

end WebhookBroadcast
