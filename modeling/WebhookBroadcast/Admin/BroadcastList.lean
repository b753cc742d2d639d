import WebhookBroadcast.Activity.Pages
import WebhookBroadcast.Db.Failures
import WebhookBroadcast.Relational.Listing

/-!
# The body of a list of Broadcasts

`GET /channels/:channelId/broadcasts` of `apps/api/src/admin/broadcasts.ts` with
its whole items: the page of the Activity list, or of the Broadcasts that one
Endpoint failed, and the fan-out summaries that a second query counts.
-/

namespace WebhookBroadcast

open Relational

/-! ## Fan-out summaries -/

structure FanoutSummaryRow where
  total : ℕ
  succeeded : ℕ
  failed : ℕ
  deadLettered : ℕ
  pending : ℕ
deriving DecidableEq

def EMPTY_FANOUT_SUMMARY : FanoutSummaryRow := ⟨0, 0, 0, 0, 0⟩

/-- The counts of one group of Deliveries. -/
def FanoutSummaryRow.ofGroup (rows : List DeliveryRow) : FanoutSummaryRow where
  total := rows.length
  succeeded := countStatus .succeeded rows
  failed := countStatus .failed rows
  deadLettered := countStatus .deadLettered rows
  pending := rows.countP fun d => d.status = .pending || d.status = .inProgress

def getFanoutSummariesByBroadcastIds (db : Database)
    (broadcastIds : List Uuid) : List (Uuid × FanoutSummaryRow) :=
  if broadcastIds = [] then []
  else
    (groupBy DeliveryRow.broadcastId (db.deliveries.select fun d =>
      d.broadcastId ∈ broadcastIds)).map fun g => (g.1, .ofGroup g.2)

/-! ## Items -/

/-- The block `delivery` of an item: what one Endpoint made of the Broadcast. -/
structure BroadcastEndpointDelivery where
  deliveryId : Uuid
  status : DeliveryStatus
  lastStatusCode : Option ℕ
  lastDurationMs : Option ℤ
  lastError : Option String
  attemptCount : ℕ
deriving DecidableEq

/-- An item of the list.  The preview is a text in UTF-16 code units, which may
end between the two halves of a character. -/
structure BroadcastListItem where
  id : Uuid
  channelId : Uuid
  receivedAt : Instant
  bodyPreview : List UInt16
  fanout : FanoutSummaryRow
  delivery : Option BroadcastEndpointDelivery := none
deriving DecidableEq

/-- The Broadcast of an item, by its place in the list. -/
def BroadcastListItem.cursor (item : BroadcastListItem) : BroadcastCursor :=
  ⟨item.receivedAt, item.id⟩

def BODY_PREVIEW_MAX_LENGTH : ℕ := 200

section Items

-- `body.toString("utf8")`
variable (toText : List UInt8 → List UInt16)

def toBodyPreview (body : List UInt8) : List UInt16 :=
  let text := toText body
  if text.length > BODY_PREVIEW_MAX_LENGTH then
    text.take BODY_PREVIEW_MAX_LENGTH ++ ['…'.toNat.toUInt16]
  else text

/-- `toBroadcastListItem` of a row without Delivery facts. -/
def BroadcastRow.toBroadcastListItem (row : BroadcastRow)
    (fanout : FanoutSummaryRow) : BroadcastListItem where
  id := row.id
  channelId := row.channelId
  receivedAt := row.receivedAt
  bodyPreview := toBodyPreview toText row.body
  fanout := fanout

/-- `toBroadcastListItem` of a row that carries them. -/
def BroadcastWithEndpointDeliveryRow.toBroadcastListItem
    (row : BroadcastWithEndpointDeliveryRow) (fanout : FanoutSummaryRow) :
    BroadcastListItem :=
  { row.toBroadcastRow.toBroadcastListItem toText fanout with
    delivery := some
      { deliveryId := row.deliveryId
        status := row.deliveryStatus
        lastStatusCode := row.lastStatusCode
        lastDurationMs := row.lastDurationMs
        lastError := row.lastError
        attemptCount := row.attemptCount } }

end Items

/-! ## The two lists -/

/-- What a list of Broadcasts shows. -/
inductive ActivityList where
  | all (channelId : Uuid)
  | failing (channelId endpointId : Uuid)

/-- The default of `limit` in `broadcastListQuerySchema`. -/
def DEFAULT_BROADCAST_LIMIT : ℕ := 50

namespace ActivityList

/-- The response to `GET /channels/:channelId/broadcasts`, of a Channel that
exists and without a `limit`.  The fan-out is counted by a later query. -/
def get (codec : Codec BroadcastCursor) (toText : List UInt8 → List UInt16)
    (list : ActivityList) (db fanoutDb : Database)
    (cursorParam : Option String) :
    Except Refusal (Page BroadcastListItem String) :=
  match list with
  | all channelId => do
      let page ← getBroadcasts codec channelId DEFAULT_BROADCAST_LIMIT db
        cursorParam
      let fanoutByBroadcastId := getFanoutSummariesByBroadcastIds fanoutDb
        (page.items.map fun item => item.id)
      return page.map fun item => item.toBroadcastListItem toText
        ((fanoutByBroadcastId.lookup item.id).getD EMPTY_FANOUT_SUMMARY)
  | failing channelId endpointId => do
      let page ← getFailingBroadcasts codec channelId endpointId
        DEFAULT_BROADCAST_LIMIT db cursorParam
      let fanoutByBroadcastId := getFanoutSummariesByBroadcastIds fanoutDb
        (page.items.map fun item => item.id)
      return page.map fun item => item.toBroadcastListItem toText
        ((fanoutByBroadcastId.lookup item.id).getD EMPTY_FANOUT_SUMMARY)

/-- The Broadcasts that exist for the list, newest first. -/
def listed (list : ActivityList) (db : Database) : List BroadcastCursor :=
  match list with
  | all channelId => (activity db channelId).listing
  | failing channelId endpointId =>
      (endpointFailures db channelId endpointId).listing

theorem pairwise_listed (list : ActivityList) (db : Database) :
    (list.listed db).Pairwise (· < ·) := by
  cases list with
  | all channelId => exact Source.pairwise_listing (keyed_activity db channelId)
  | failing channelId endpointId =>
      exact Source.pairwise_listing
        (keyed_endpointFailures db channelId endpointId)

/-- The Broadcast is on the list. -/
def Lists (list : ActivityList) (db : Database) (b : BroadcastRow) : Prop :=
  match list with
  | all channelId => b.channelId = channelId
  | failing channelId endpointId =>
      b.channelId = channelId ∧ ∃ d ∈ db.deliveries.rows,
        d.broadcastId = b.id ∧ d.endpointId = endpointId ∧
          (d.status = .failed ∨ d.status = .deadLettered)

theorem mem_listed {list : ActivityList} {db : Database}
    {k : BroadcastCursor} :
    k ∈ list.listed db ↔
      ∃ b ∈ db.broadcasts, list.Lists db b ∧ b.cursor = k := by
  cases list with
  | all channelId =>
      simp only [listed, Source.mem_listing, mem_activity, and_assoc]
      rfl
  | failing channelId endpointId =>
      have hrows {b : BroadcastRow} :=
        (perm_endpointFailures db channelId endpointId).mem_iff (a := b)
      simp only [Table.mem_select, Bool.and_eq_true, decide_eq_true_eq] at hrows
      rw [listed, Source.mem_listing]
      constructor
      · rintro ⟨r, hr, rfl⟩
        obtain ⟨hb, hlists⟩ := hrows.mp (List.mem_map_of_mem hr)
        exact ⟨r.toBroadcastRow, hb, hlists, rfl⟩
      · rintro ⟨b, hb, hlists, rfl⟩
        obtain ⟨r, hr, rfl⟩ := List.mem_map.mp (hrows.mpr ⟨hb, hlists⟩)
        exact ⟨r, hr, rfl⟩

/-- A response is the page after its cursor. -/
theorem get_encode (codec : Codec BroadcastCursor)
    (toText : List UInt8 → List UInt16) (list : ActivityList)
    (db fanoutDb : Database) (cursor : Option BroadcastCursor) :
    ∃ page, list.get codec toText db fanoutDb (cursor.map codec.encode) =
        .ok page ∧
      page.map BroadcastListItem.cursor =
        (cut (list.listed db) DEFAULT_BROADCAST_LIMIT cursor).encoded codec := by
  cases list with
  | all channelId =>
      simp only [get, getBroadcasts, parseListCursor_encode]
      refine ⟨_, rfl, ?_⟩
      rw [listBroadcastsByChannel_eq_page, listed,
        ← Source.map_page (keyed_activity db channelId)]
      simp only [Page.map, Page.encoded, List.map_map]
      rfl
  | failing channelId endpointId =>
      simp only [get, getFailingBroadcasts, parseListCursor_encode]
      refine ⟨_, rfl, ?_⟩
      rw [listBroadcastsForEndpointFailures_eq_page, listed,
        ← Source.map_page (keyed_endpointFailures db channelId endpointId)]
      simp only [Page.map, Page.encoded, List.map_map]
      rfl

/-- A Broadcast that is received later than all others comes in ahead. -/
theorem suffix_listed_commit (list : ActivityList) {tx : Transaction}
    {db : Database}
    (hnewer : ∀ b ∈ db.broadcasts, b.receivedAt < tx.broadcast.receivedAt)
    (hlive : ∀ d ∈ tx.deliveries, d.status.Live) :
    list.listed db <:+ list.listed (tx.commit db) := by
  by_cases hcheck : tx.check db = .ok ()
  · have hgrows := tx.grows_commit hcheck
    have hbroadcasts {b : BroadcastRow} : b ∈ (tx.commit db).broadcasts ↔
        b ∈ db.broadcasts ∨ b = tx.broadcast := by
      rw [Table.mem_def, hgrows.broadcasts, List.mem_append,
        List.mem_singleton, Table.mem_def]
    have hlists {b : BroadcastRow} :
        list.Lists (tx.commit db) b ↔ list.Lists db b := by
      cases list with
      | all channelId => rfl
      | failing channelId endpointId =>
          refine and_congr_right fun _ => ?_
          rw [hgrows.deliveries]
          constructor
          · rintro ⟨d, hd, hid, hendpoint, hfailed⟩
            rcases List.mem_append.mp hd with hd | hd
            · exact ⟨d, hd, hid, hendpoint, hfailed⟩
            · have hd := hlive d hd
              rcases hfailed with hfailed | hfailed <;> simp [hfailed] at hd
          · rintro ⟨d, hd, h⟩
            exact ⟨d, List.mem_append_left _ hd, h⟩
    refine suffix_of_ahead (list.pairwise_listed db)
      (list.pairwise_listed (tx.commit db)) (fun k hk => ?_) fun k hk => ?_
    · obtain ⟨b, hb, hlisted, rfl⟩ := mem_listed.mp hk
      exact mem_listed.mpr
        ⟨b, hbroadcasts.mpr (Or.inl hb), hlists.mpr hlisted, rfl⟩
    · obtain ⟨b, hb, hlisted, rfl⟩ := mem_listed.mp hk
      rcases hbroadcasts.mp hb with hb | rfl
      · exact Or.inl (mem_listed.mpr ⟨b, hb, hlists.mp hlisted, rfl⟩)
      · right
        intro old hold
        obtain ⟨b, hb, -, rfl⟩ := mem_listed.mp hold
        exact BroadcastRow.cursor_lt.mpr
          (Prod.Lex.toLex_lt_toLex.mpr (Or.inl (hnewer b hb)))
  · rw [tx.commit_of_check_ne hcheck]

end ActivityList

end WebhookBroadcast
