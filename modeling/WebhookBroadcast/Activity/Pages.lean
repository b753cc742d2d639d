import Mathlib.Logic.Equiv.Nat
import WebhookBroadcast.Admin.Cursors
import WebhookBroadcast.Db.Broadcasts
import WebhookBroadcast.Db.Lists
import WebhookBroadcast.Ingest.Store

/-!
# The pages of the Activity list

A client that follows the cursors of `GET /channels/:id/broadcasts` while
Broadcasts are accepted, compensated and pruned between its requests.  What is
accepted in the meantime is newer than the first page and so stays ahead of the
walk; what is deleted takes nothing else with it, even if the cursor names it.
-/

namespace WebhookBroadcast

open Relational

/-! ## The routes -/

/-- `GET /channels/:channelId/broadcasts` of a Channel that exists, with a valid
query. -/
def getBroadcasts (codec : Codec BroadcastCursor) (channelId : Uuid)
    (limit : ℕ) (db : Database) (cursorParam : Option String) :
    Except Refusal (Page BroadcastRow String) := do
  let cursor ← parseListCursor cursorParam codec.decode
  return (listBroadcastsByChannel db ⟨channelId, cursor, limit⟩).encoded codec

/-- The same route with `endpointId` and `status=failed`. -/
def getFailingBroadcasts (codec : Codec BroadcastCursor)
    (channelId endpointId : Uuid) (limit : ℕ) (db : Database)
    (cursorParam : Option String) :
    Except Refusal (Page BroadcastWithEndpointDeliveryRow String) := do
  let cursor ← parseListCursor cursorParam codec.decode
  return (listBroadcastsForEndpointFailures db
    ⟨⟨channelId, cursor, limit⟩, endpointId⟩).encoded codec

/-- `GET /channels/:channelId/endpoints` of a Channel that exists, with a valid
query. -/
def getEndpoints [Collation] (codec : Codec EndpointCursor) (channelId : Uuid)
    (limit : ℕ) (url : Option String) (db : Database)
    (cursorParam : Option String) :
    Except Refusal (Page EndpointRow String) := do
  let cursor ← parseListCursor cursorParam codec.decode
  return (listEndpoints db channelId ⟨cursor, limit, url⟩).encoded codec

section Walks

variable {channelId : Uuid} {limit : ℕ} (dbs : List Database)

theorem follow_getBroadcasts (codec : Codec BroadcastCursor) :
    follow (getBroadcasts codec channelId limit) none dbs =
      (walk limit none (dbs.map (activity · channelId))).map
        (Page.encoded codec) := by
  refine follow_eq_walk (fun db cursor => ?_) dbs none
  rw [getBroadcasts, parseListCursor_encode,
    ← listBroadcastsByChannel_eq_page db ⟨channelId, cursor, limit⟩]
  rfl

theorem follow_getFailingBroadcasts (codec : Codec BroadcastCursor)
    (endpointId : Uuid) :
    follow (getFailingBroadcasts codec channelId endpointId limit) none dbs =
      (walk limit none (dbs.map (endpointFailures · channelId endpointId))).map
        (Page.encoded codec) := by
  refine follow_eq_walk (fun db cursor => ?_) dbs none
  rw [getFailingBroadcasts, parseListCursor_encode,
    ← listBroadcastsForEndpointFailures_eq_page db
      ⟨⟨channelId, cursor, limit⟩, endpointId⟩]
  rfl

theorem follow_getEndpoints [Collation] (codec : Codec EndpointCursor)
    (url : Option String) :
    follow (getEndpoints codec channelId limit url) none dbs =
      (walk limit none (dbs.map (endpointsOf · channelId url))).map
        (Page.encoded codec) := by
  refine follow_eq_walk (fun db cursor => ?_) dbs none
  rw [getEndpoints, parseListCursor_encode,
    ← listEndpoints_eq_page db channelId ⟨cursor, limit, url⟩]
  rfl

end Walks

/-! ## Traffic -/

/-- What inserts and deletes Broadcasts. -/
inductive BroadcastTraffic where
  | accept (tx : Transaction)
  | compensate (broadcastId : Uuid)
  | prune (cutoff : Instant)

def BroadcastTraffic.run : BroadcastTraffic → Database → Database
  | accept tx, db => tx.commit db
  | compensate broadcastId, db => (deleteBroadcastById db broadcastId).2
  | prune cutoff, db => deleteBroadcastsReceivedBefore db cutoff

/-- An accepted Broadcast is received later than each of these. -/
def BroadcastTraffic.LaterThan (broadcasts : List BroadcastRow) :
    BroadcastTraffic → Prop
  | accept tx => ∀ b ∈ broadcasts, b.receivedAt < tx.broadcast.receivedAt
  | compensate _ => True
  | prune _ => True

/-- The databases that the requests after the first find, with this traffic
before each of them. -/
def laterStates (db : Database) : List (List BroadcastTraffic) → List Database
  | [] => []
  | traffic :: gaps =>
      let db' := traffic.foldl (fun db t => t.run db) db
      db' :: laterStates db' gaps

/-- Broadcasts come in only by being accepted. -/
theorem forall_broadcasts_run {Q : BroadcastRow → Prop} {t : BroadcastTraffic}
    {db : Database} (hdb : ∀ b ∈ db.broadcasts, Q b)
    (ht : ∀ tx, t = .accept tx → Q tx.broadcast) :
    ∀ b ∈ (t.run db).broadcasts, Q b := by
  intro b hb
  cases t with
  | accept tx =>
      change b ∈ (tx.commit db).broadcasts at hb
      by_cases hcheck : tx.check db = .ok ()
      · rw [Table.mem_def, (tx.grows_commit hcheck).broadcasts,
          List.mem_append, List.mem_singleton] at hb
        rcases hb with hb | rfl
        · exact hdb b hb
        · exact ht tx rfl
      · rw [tx.commit_of_check_ne hcheck] at hb
        exact hdb b hb
  | compensate broadcastId => exact hdb b (Table.mem_delete.mp hb).1
  | prune cutoff => exact hdb b (Table.mem_delete.mp hb).1

theorem forall_broadcasts_foldl {Q : BroadcastRow → Prop}
    {traffic : List BroadcastTraffic}
    (htraffic : ∀ t ∈ traffic, ∀ tx, t = .accept tx → Q tx.broadcast) :
    ∀ {db : Database}, (∀ b ∈ db.broadcasts, Q b) →
      ∀ b ∈ (traffic.foldl (fun db t => t.run db) db).broadcasts, Q b := by
  induction traffic with
  | nil => exact fun hdb => hdb
  | cons t traffic ih =>
      intro db hdb
      exact ih (fun t' ht' => htraffic t' (List.mem_cons_of_mem t ht'))
        (forall_broadcasts_run hdb (htraffic t List.mem_cons_self))

theorem forall_broadcasts_laterStates {Q : BroadcastRow → Prop}
    {gaps : List (List BroadcastTraffic)}
    (hgaps : ∀ traffic ∈ gaps, ∀ t ∈ traffic, ∀ tx, t = .accept tx →
      Q tx.broadcast) :
    ∀ {db : Database}, (∀ b ∈ db.broadcasts, Q b) →
      ∀ db' ∈ laterStates db gaps, ∀ b ∈ db'.broadcasts, Q b := by
  induction gaps with
  | nil => exact fun _ _ h => absurd h List.not_mem_nil
  | cons traffic gaps ih =>
      intro db hdb db' hdb'
      have hnext := forall_broadcasts_foldl
        (hgaps traffic List.mem_cons_self) hdb
      rcases List.mem_cons.mp hdb' with rfl | hdb'
      · exact hnext
      · exact ih (fun other hother =>
          hgaps other (List.mem_cons_of_mem traffic hother)) hnext db' hdb'

theorem length_laterStates {gaps : List (List BroadcastTraffic)} :
    ∀ db, (laterStates db gaps).length = gaps.length := by
  induction gaps with
  | nil => exact fun _ => rfl
  | cons traffic gaps ih => exact fun db => congrArg Nat.succ (ih _)

/-! ## Walks through the traffic -/

/-- Every accepted Broadcast is received later than the first page. -/
def Newer (db : Database) (channelId : Uuid) (limit : ℕ)
    (gaps : List (List BroadcastTraffic)) : Prop :=
  ∀ traffic ∈ gaps, ∀ t ∈ traffic,
    t.LaterThan (listBroadcastsByChannel db ⟨channelId, none, limit⟩).items

/-- The pages are newest first and repeat nothing, a Broadcast that stays is on
them, and the walk ends. -/
structure SurvivesTraffic (db : Database) (channelId : Uuid)
    (gaps : List (List BroadcastTraffic))
    (pages : List (Page BroadcastRow String)) : Prop where
  decreasing : (listed pages).Pairwise fun a b =>
    toLex (b.receivedAt, b.id) < toLex (a.receivedAt, a.id)
  once : ((listed pages).map BroadcastRow.id).Nodup
  kept : Ended pages → ∀ b : BroadcastRow, b.channelId = channelId →
    (∀ db' ∈ db :: laterStates db gaps, b ∈ db'.broadcasts) →
      b ∈ listed pages
  ended : db.broadcasts.rows.length ≤ gaps.length → Ended pages

theorem BroadcastRow.cursor_lt {a b : BroadcastRow} :
    a.cursor < b.cursor ↔
      toLex (b.receivedAt, b.id) < toLex (a.receivedAt, a.id) := by
  change a.cursor.legs < b.cursor.legs ↔ _
  rw [BroadcastCursor.legs, BroadcastCursor.legs, Prod.Lex.toLex_lt_toLex,
    Prod.Lex.toLex_lt_toLex, OrderDual.toDual_lt_toDual,
    OrderDual.toDual_lt_toDual, EmbeddingLike.apply_eq_iff_eq]
  rw [eq_comm (a := a.cursor.receivedAt)]
  rfl

section Survival

variable {codec : Codec BroadcastCursor} {db : Database} {channelId : Uuid}
  {limit : ℕ} {gaps : List (List BroadcastTraffic)}

theorem joinsAhead_laterStates (hgaps : Newer db channelId limit gaps) :
    JoinsAhead limit (activity db channelId)
      ((laterStates db gaps).map (activity · channelId)) := by
  intro s hs
  obtain ⟨db', hdb', rfl⟩ := List.mem_map.mp hs
  refine ⟨keyed_activity db' channelId, rfl, fun b hb => ?_⟩
  obtain ⟨hb, hchannel⟩ := mem_activity.mp hb
  have hold : ∀ b ∈ db'.broadcasts, b ∈ db.broadcasts ∨
      ∀ a ∈ (listBroadcastsByChannel db ⟨channelId, none, limit⟩).items,
        a.receivedAt < b.receivedAt := by
    refine forall_broadcasts_laterStates (fun traffic htraffic t ht tx h => ?_)
      (fun b hb => Or.inl hb) db' hdb'
    subst h
    exact Or.inr (hgaps traffic htraffic _ ht)
  rcases hold b hb with hb | hnewer
  · exact Or.inl (mem_activity.mpr ⟨hb, hchannel⟩)
  · right
    intro a ha
    rw [listBroadcastsByChannel_eq_page] at hnewer
    exact BroadcastRow.cursor_lt.mpr
      (Prod.Lex.toLex_lt_toLex.mpr (Or.inl (hnewer a ha)))

theorem survivesTraffic (hlimit : 1 ≤ limit)
    (hgaps : Newer db channelId limit gaps) :
    SurvivesTraffic db channelId gaps
      (follow (getBroadcasts codec channelId limit) none
        (db :: laterStates db gaps)) := by
  have hahead := joinsAhead_laterStates hgaps
  have hkeyed := keyed_activity db channelId
  rw [follow_getBroadcasts, List.map_cons]
  refine ⟨?_, ?_, fun hended b hchannel hstays => ?_, fun hlength => ?_⟩
  · rw [listed_map_encoded]
    exact (pairwise_walk hlimit (hahead.keyed hkeyed) hahead.key).1.imp
      BroadcastRow.cursor_lt.mp
  · -- all that is listed was there from the beginning, where ids are unique
    rw [listed_map_encoded]
    refine List.Nodup.map_on (fun a ha b hb hid => ?_) ?_
    · have hfirst := fun {r} =>
        mem_rows_of_mem_walk (r := r) hkeyed hlimit hahead
      exact db.broadcasts.eq_of_key_eq (mem_activity.mp (hfirst ha)).1
        (mem_activity.mp (hfirst hb)).1 hid
    · refine (pairwise_walk hlimit (hahead.keyed hkeyed) hahead.key).1.imp
        fun {a b} hlt heq => hlt.ne ?_
      rw [heq]
  · rw [ended_map_encoded] at hended
    rw [listed_map_encoded]
    refine mem_walk hlimit (hahead.keyed hkeyed) ?_ ?_
      (fun _ _ => after_none _) hended
    · intro s hs
      rw [← List.map_cons (f := (activity · channelId))] at hs
      obtain ⟨db', hdb', rfl⟩ := List.mem_map.mp hs
      exact mem_activity.mpr ⟨hstays db' hdb', hchannel⟩
    · rw [← List.map_cons (f := (activity · channelId))]
      exact List.pairwise_map.mpr
        (List.pairwise_of_forall fun _ _ => le_refl _)
  · rw [ended_map_encoded]
    refine ended_walk_of_joinsAhead hkeyed hlimit hahead ?_
    rw [List.length_map, length_laterStates]
    exact (List.length_filter_le _ _).trans hlength

end Survival

/-- The walk through the Activity list survives the traffic, and the failures of
an Endpoint and the Endpoints themselves are listed once each while nothing
changes. -/
theorem activity_pages [Collation] (codec : Codec BroadcastCursor)
    (endpointCodec : Codec EndpointCursor) (db : Database) (channelId : Uuid)
    {limit : ℕ} (hlimit : 1 ≤ limit) :
    (∀ gaps, Newer db channelId limit gaps →
      SurvivesTraffic db channelId gaps
        (follow (getBroadcasts codec channelId limit) none
          (db :: laterStates db gaps))) ∧
    (∀ endpointId n,
      (endpointFailures db channelId endpointId).rows.length < n →
        let pages := follow (getFailingBroadcasts codec channelId endpointId
          limit) none (List.replicate n db)
        (endpointFailures db channelId endpointId).Partitioned limit pages ∧
          ((listed pages).map fun r => r.toBroadcastRow).Perm
            (db.broadcasts.select fun b => b.channelId = channelId &&
              decide (∃ d ∈ db.deliveries.rows, d.broadcastId = b.id ∧
                d.endpointId = endpointId ∧
                  (d.status = .failed ∨ d.status = .deadLettered)))) ∧
    ∀ url n, (endpointsOf db channelId url).rows.length < n →
      (endpointsOf db channelId url).Partitioned limit
        (follow (getEndpoints endpointCodec channelId limit url) none
          (List.replicate n db)) := by
  refine ⟨fun gaps => survivesTraffic hlimit, fun endpointId n hn => ?_,
    fun url n hn => ?_⟩
  · have hpages : (endpointFailures db channelId endpointId).Partitioned limit
        (follow (getFailingBroadcasts codec channelId endpointId limit) none
          (List.replicate n db)) := by
      rw [follow_getFailingBroadcasts, List.map_replicate]
      exact (partitioned_walk_of_lt
        (keyed_endpointFailures db channelId endpointId) hlimit hn).encoded
          codec
    exact ⟨hpages, (hpages.once.map _).trans
      (perm_endpointFailures db channelId endpointId)⟩
  · rw [follow_getEndpoints, List.map_replicate]
    exact (partitioned_walk_of_lt (keyed_endpointsOf db channelId url) hlimit
      hn).encoded endpointCodec

/-! ## Three Broadcasts -/

def BroadcastCursor.numbers (cursor : BroadcastCursor) : List ℕ :=
  [Equiv.intEquivNat cursor.receivedAt, cursor.id.toNat]

theorem BroadcastCursor.numbers_injective : Function.Injective numbers := by
  rintro ⟨receivedAt, id⟩ ⟨receivedAt', id'⟩ h
  simp only [numbers, List.cons.injEq, EmbeddingLike.apply_eq_iff_eq,
    BitVec.toNat_inj, and_true] at h
  rw [h.1, h.2]

def EndpointCursor.numbers (cursor : EndpointCursor) : List ℕ :=
  cursor.id.toNat :: cursor.url.toList.map Char.toNat

theorem EndpointCursor.numbers_injective : Function.Injective numbers := by
  rintro ⟨url, id⟩ ⟨url', id'⟩ h
  simp only [numbers, List.cons.injEq, BitVec.toNat_inj] at h
  have hurl : url.toList = url'.toList :=
    List.map_injective_iff.mpr (fun _ _ => Char.toNat_inj.mp) h.2
  rw [String.toList_inj.mp hurl, h.1]

/-- A database with three Broadcasts, two of them received at once. -/
def threeBroadcasts : Database :=
  { Database.withEndpoints
      ⟨0, "orders", none, true, [], false, none, none, 0, 0⟩ [] with
    broadcasts := ⟨[⟨3, 0, 500, "text/plain", [], .empty⟩,
      ⟨1, 0, 1000, "text/plain", [], .empty⟩,
      ⟨2, 0, 1000, "text/plain", [], .empty⟩], by decide⟩
    broadcast_channel := by
      change ∀ b ∈ [_, _, _], ∃ c ∈ [_], _
      decide
    delivery_broadcast := fun _ h => absurd h List.not_mem_nil }

/-- The cursor after the second Broadcast is written as the base64url text of
its JSON. -/
noncomputable def cursorAfterSecond : Codec BroadcastCursor :=
  .writing ⟨1000, 1⟩
    ("eyJyZWNlaXZlZEF0IjoiMTk3MC0wMS0wMVQwMDowMDowMS4wMDBaIiwiaWQiOi" ++
      "IwMDAwMDAwMC0wMDAwLTAwMDAtMDAwMC0wMDAwMDAwMDAwMDEifQ")
    BroadcastCursor.numbers (by simp) BroadcastCursor.numbers_injective

/-- No Endpoint is there, and so no cursor of one. -/
noncomputable def anyEndpointCursor : Codec EndpointCursor :=
  .writing ⟨"", 0⟩ "e" EndpointCursor.numbers (by simp)
    EndpointCursor.numbers_injective

/-- After the first page a Broadcast is accepted and the one that the cursor
names is compensated. -/
def busyGaps : List (List BroadcastTraffic) :=
  [[.accept ⟨⟨4, 0, 2000, "text/plain", [], .empty⟩, []⟩, .compensate 1],
    [], []]

theorem newer_busyGaps : Newer threeBroadcasts 0 2 busyGaps := by
  have hold : ∀ b ∈ (listBroadcastsByChannel threeBroadcasts
      ⟨0, none, 2⟩).items, b.receivedAt < 2000 := by
    intro b hb
    rw [listBroadcastsByChannel_eq_page] at hb
    have hrows : ∀ b ∈ threeBroadcasts.broadcasts.rows,
        b.receivedAt < 2000 := by decide
    exact hrows b (mem_activity.mp (Source.mem_of_mem_page hb).1).1
  intro traffic htraffic t ht
  cases t with
  | accept tx =>
      simp only [busyGaps, List.mem_cons, List.not_mem_nil,
        or_false] at htraffic
      rcases htraffic with rfl | rfl | rfl
      · obtain rfl : tx = ⟨⟨4, 0, 2000, "text/plain", [], .empty⟩, []⟩ := by
          simpa using ht
        exact hold
      · cases ht
      · cases ht
  | compensate _ => trivial
  | prune _ => trivial

theorem activity_pages_busyGaps :
    SurvivesTraffic threeBroadcasts 0 busyGaps
        (follow (getBroadcasts cursorAfterSecond 0 2) none
          (threeBroadcasts :: laterStates threeBroadcasts busyGaps)) ∧
      (laterStates threeBroadcasts busyGaps).map
          (fun db => db.broadcasts.rows.map BroadcastRow.id) =
        [[3, 2, 4], [3, 2, 4], [3, 2, 4]] :=
  let _ := Collation.c
  ⟨(activity_pages cursorAfterSecond anyEndpointCursor threeBroadcasts 0
    (by decide : 1 ≤ 2)).1 busyGaps newer_busyGaps, by decide⟩

end WebhookBroadcast
