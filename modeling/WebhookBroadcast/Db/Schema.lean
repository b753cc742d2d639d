import Mathlib.Data.Int.Notation
import Mathlib.Data.List.Basic
import WebhookBroadcast.Js.Record
import WebhookBroadcast.Relational.Table

/-!
# Database schema

The tables that ingest, fan-out, delivery, retry and the admin routes read and
write, with the columns that these operations use.  `Database` carries the
constraints of the schema as fields: primary keys through `Relational.Table`,
the further unique indexes, the checks on Channels and every foreign key, so
that a value of this type is a database that Postgres can hold.
-/

namespace WebhookBroadcast

open Relational

/-- `uuid`. -/
abbrev Uuid := BitVec 128

instance : LawfulBEq Uuid := inferInstance

/-- A `Date`: milliseconds since the epoch. -/
abbrev Instant := ℤ

/-- The value of one inbound header: a string, or several. -/
inductive HeaderValue where
  | single (value : String)
  | many (values : List String)
deriving DecidableEq

/-- The enumeration `delivery_status`. -/
inductive DeliveryStatus where
  | pending
  | inProgress
  | succeeded
  | failed
  | deadLettered
deriving DecidableEq, Repr

namespace DeliveryStatus

/-- A Delivery that the worker may still attempt. -/
def Live (s : DeliveryStatus) : Prop := s = pending ∨ s = inProgress

/-- A Delivery whose lifecycle is over, short of an operator retry. -/
def Terminal (s : DeliveryStatus) : Prop :=
  s = succeeded ∨ s = failed ∨ s = deadLettered

instance (s : DeliveryStatus) : Decidable s.Live :=
  inferInstanceAs (Decidable (_ ∨ _))

instance (s : DeliveryStatus) : Decidable s.Terminal :=
  inferInstanceAs (Decidable (_ ∨ _))

theorem terminal_iff_not_live {s : DeliveryStatus} :
    s.Terminal ↔ ¬ s.Live := by
  cases s <;> simp [Terminal, Live]

@[simp] theorem live_pending : Live pending := Or.inl rfl

@[simp] theorem live_inProgress : Live inProgress := Or.inr rfl

@[simp] theorem not_live_succeeded : ¬ Live succeeded := by simp [Live]

@[simp] theorem not_live_failed : ¬ Live failed := by simp [Live]

@[simp] theorem not_live_deadLettered : ¬ Live deadLettered := by simp [Live]

end DeliveryStatus

/-- A row of `channel`. -/
structure ChannelRow where
  id : Uuid
  slug : String
  description : Option String := none
  enabled : Bool := true
  forwardHeaders : List String := []
  allowUnauthenticatedIngest : Bool := false
  ingestSuccessStatus : Option ℕ := none
  deletedAt : Option Instant := none
  createdAt : Instant
  updatedAt : Instant
deriving DecidableEq

/-- A row of `channel_token`. -/
structure ChannelTokenRow where
  id : Uuid
  channelId : Uuid
  tokenHash : String
deriving DecidableEq

/-- A row of `endpoint`. -/
structure EndpointRow where
  id : Uuid
  channelId : Uuid
  name : Option String
  url : String
  timeoutMs : Option ℕ
  headers : Js.Record String
  enabled : Bool
  autoDisabledAt : Option Instant
  createdAt : Instant
  updatedAt : Instant
deriving DecidableEq

/-- A row of `broadcast`. -/
structure BroadcastRow where
  id : Uuid
  channelId : Uuid
  receivedAt : Instant
  contentType : String
  body : List UInt8
  headers : Js.Record HeaderValue
deriving DecidableEq

/-- A row of `delivery`. -/
structure DeliveryRow where
  id : Uuid
  broadcastId : Uuid
  endpointId : Uuid
  channelId : Uuid
  status : DeliveryStatus
  attemptCount : ℕ
  lastStatusCode : Option ℕ
  lastDurationMs : Option ℤ
  lastError : Option String
  updatedAt : Instant
deriving DecidableEq

/-- A row of `attempt`. -/
structure AttemptRow where
  deliveryId : Uuid
  n : ℕ
  statusCode : Option ℕ
  durationMs : ℤ
  error : Option String
  at_ : Instant
deriving DecidableEq

/-- The shortest slug of a Channel that takes unauthenticated ingest. -/
def MIN_OPEN_INGEST_SLUG_LENGTH : ℕ := 24

/-- The checks `channel_open_ingest_slug_length_chk` and
`channel_ingest_success_status_2xx_chk`. -/
def ChannelRow.Valid (c : ChannelRow) : Prop :=
  (c.allowUnauthenticatedIngest = true →
    MIN_OPEN_INGEST_SLUG_LENGTH ≤ c.slug.length) ∧
  ∀ status ∈ c.ingestSuccessStatus, 200 ≤ status ∧ status ≤ 299

instance (c : ChannelRow) : Decidable c.Valid :=
  inferInstanceAs (Decidable (_ ∧ _))

/-- The slugs of the live Channels, which `channel_slug_active_key` keeps
apart. -/
def activeSlugs (channels : List ChannelRow) : List String :=
  (channels.filter fun c => c.deletedAt = none).map ChannelRow.slug

/-- The unique index `endpoint_channel_id_url_key`. -/
def EndpointRow.site (e : EndpointRow) : Uuid × String := (e.channelId, e.url)

/-- The columns of a Delivery that identify it and never change. -/
def DeliveryRow.identity (r : DeliveryRow) : Uuid × Uuid × Uuid × Uuid :=
  (r.id, r.broadcastId, r.endpointId, r.channelId)

/-- The unique index `attempt_delivery_id_n_key`. -/
def AttemptRow.key (a : AttemptRow) : Uuid × ℕ := (a.deliveryId, a.n)

/-- The unique index `delivery_broadcast_endpoint_key`. -/
def DeliveryRow.pair (r : DeliveryRow) : Uuid × Uuid :=
  (r.broadcastId, r.endpointId)

/-- The tables, with the constraints of the schema. -/
@[ext] structure Database where
  channels : Table ChannelRow Uuid ChannelRow.id
  channelTokens : Table ChannelTokenRow Uuid ChannelTokenRow.id
  endpoints : Table EndpointRow Uuid EndpointRow.id
  broadcasts : Table BroadcastRow Uuid BroadcastRow.id
  deliveries : Table DeliveryRow Uuid DeliveryRow.id
  attempts : Table AttemptRow (Uuid × ℕ) AttemptRow.key
  channel_valid : ∀ c ∈ channels, c.Valid
  channel_slug : (activeSlugs channels.rows).Nodup
  token_channel : ∀ t ∈ channelTokens, ∃ c ∈ channels, c.id = t.channelId
  token_hash : (channelTokens.rows.map ChannelTokenRow.tokenHash).Nodup
  endpoint_url : (endpoints.rows.map EndpointRow.site).Nodup
  endpoint_channel : ∀ e ∈ endpoints, ∃ c ∈ channels, c.id = e.channelId
  broadcast_channel : ∀ b ∈ broadcasts, ∃ c ∈ channels, c.id = b.channelId
  delivery_broadcast : ∀ d ∈ deliveries,
    ∃ b ∈ broadcasts, b.id = d.broadcastId
  delivery_endpoint : ∀ d ∈ deliveries, ∃ e ∈ endpoints, e.id = d.endpointId
  delivery_channel : ∀ d ∈ deliveries, ∃ c ∈ channels, c.id = d.channelId
  delivery_pair : (deliveries.rows.map DeliveryRow.pair).Nodup
  attempt_delivery : ∀ a ∈ attempts, ∃ d ∈ deliveries, d.id = a.deliveryId

namespace Database

/-- The database after the migrations. -/
def empty : Database where
  channels := ⟨[], List.nodup_nil⟩
  channelTokens := ⟨[], List.nodup_nil⟩
  endpoints := ⟨[], List.nodup_nil⟩
  broadcasts := ⟨[], List.nodup_nil⟩
  deliveries := ⟨[], List.nodup_nil⟩
  attempts := ⟨[], List.nodup_nil⟩
  channel_valid := fun _ h => absurd h List.not_mem_nil
  channel_slug := List.nodup_nil
  token_channel := fun _ h => absurd h List.not_mem_nil
  token_hash := List.nodup_nil
  endpoint_url := List.nodup_nil
  endpoint_channel := fun _ h => absurd h List.not_mem_nil
  broadcast_channel := fun _ h => absurd h List.not_mem_nil
  delivery_broadcast := fun _ h => absurd h List.not_mem_nil
  delivery_endpoint := fun _ h => absurd h List.not_mem_nil
  delivery_channel := fun _ h => absurd h List.not_mem_nil
  delivery_pair := List.nodup_nil
  attempt_delivery := fun _ h => absurd h List.not_mem_nil

/-- The row of one Delivery. -/
def delivery? (db : Database) (deliveryId : Uuid) : Option DeliveryRow :=
  db.deliveries.find? deliveryId

/-- The recorded Attempts of one Delivery, oldest first. -/
def attemptLog (db : Database) (deliveryId : Uuid) : List AttemptRow :=
  db.attempts.select fun a => a.deliveryId = deliveryId

theorem mem_attemptLog {db : Database} {deliveryId : Uuid} {a : AttemptRow} :
    a ∈ db.attemptLog deliveryId ↔
      a ∈ db.attempts ∧ a.deliveryId = deliveryId := by
  simp [attemptLog, Table.mem_select]

/-- A Delivery that does not exist has no Attempts. -/
theorem attemptLog_eq_nil {db : Database} {deliveryId : Uuid}
    (h : db.delivery? deliveryId = none) : db.attemptLog deliveryId = [] := by
  rw [List.eq_nil_iff_forall_not_mem]
  intro a ha
  obtain ⟨hmem, hid⟩ := mem_attemptLog.mp ha
  obtain ⟨d, hd, hdid⟩ := db.attempt_delivery a hmem
  exact (db.deliveries.find?_eq_none_iff.mp h) d hd (hdid.trans hid)

theorem id_of_delivery? {db : Database} {deliveryId : Uuid} {r : DeliveryRow}
    (h : db.delivery? deliveryId = some r) : r.id = deliveryId :=
  Table.key_of_find? h

theorem mem_of_delivery? {db : Database} {deliveryId : Uuid} {r : DeliveryRow}
    (h : db.delivery? deliveryId = some r) : r ∈ db.deliveries :=
  Table.mem_of_find? h

/-! ## Updates that keep the constraints -/

/-- Update the Deliveries that satisfy `p`, leaving their identity alone. -/
def updateDeliveries (db : Database) (p : DeliveryRow → Bool)
    (f : DeliveryRow → DeliveryRow)
    (hf : ∀ r, (f r).identity = r.identity) : Database :=
  have hid : ∀ r, (f r).id = r.id := fun r => congrArg (·.1) (hf r)
  have hsame : ∀ r, (if p r then f r else r).identity = r.identity := by
    intro r
    split
    · exact hf r
    · rfl
  { db with
    deliveries := db.deliveries.update p f hid
    delivery_broadcast := by
      intro d hd
      obtain ⟨r, hr, rfl⟩ := Table.mem_update.mp hd
      obtain ⟨b, hb, hbid⟩ := db.delivery_broadcast r hr
      exact ⟨b, hb, hbid.trans (congrArg (·.2.1) (hsame r)).symm⟩
    delivery_endpoint := by
      intro d hd
      obtain ⟨r, hr, rfl⟩ := Table.mem_update.mp hd
      obtain ⟨e, he, heid⟩ := db.delivery_endpoint r hr
      exact ⟨e, he, heid.trans (congrArg (·.2.2.1) (hsame r)).symm⟩
    delivery_channel := by
      intro d hd
      obtain ⟨r, hr, rfl⟩ := Table.mem_update.mp hd
      obtain ⟨c, hc, hcid⟩ := db.delivery_channel r hr
      exact ⟨c, hc, hcid.trans (congrArg (·.2.2.2) (hsame r)).symm⟩
    delivery_pair := by
      rw [Table.map_update db.deliveries p f hid (g := DeliveryRow.pair)
        (fun r => congrArg (fun i => (i.2.1, i.2.2.1)) (hf r))]
      exact db.delivery_pair
    attempt_delivery := by
      intro a ha
      obtain ⟨d, hd, hdid⟩ := db.attempt_delivery a ha
      exact ⟨_, Table.mem_update.mpr ⟨d, hd, rfl⟩,
        (congrArg (·.1) (hsame d)).trans hdid⟩ }

@[simp] theorem delivery?_updateDeliveries (db : Database)
    (p : DeliveryRow → Bool) (f : DeliveryRow → DeliveryRow)
    (hf : ∀ r, (f r).identity = r.identity) (deliveryId : Uuid) :
    (db.updateDeliveries p f hf).delivery? deliveryId =
      (db.delivery? deliveryId).map fun r => if p r then f r else r :=
  Table.find?_update _ _ _ (fun r => congrArg (·.1) (hf r)) _

@[simp] theorem attemptLog_updateDeliveries (db : Database)
    (p : DeliveryRow → Bool) (f : DeliveryRow → DeliveryRow)
    (hf : ∀ r, (f r).identity = r.identity) (deliveryId : Uuid) :
    (db.updateDeliveries p f hf).attemptLog deliveryId =
      db.attemptLog deliveryId := rfl

/-- Update the Endpoints that satisfy `p`, leaving id, Channel and URL
alone. -/
def updateEndpoints (db : Database) (p : EndpointRow → Bool)
    (f : EndpointRow → EndpointRow)
    (hf : ∀ e, (f e).id = e.id ∧ (f e).site = e.site) : Database :=
  { db with
    endpoints := db.endpoints.update p f fun e => (hf e).1
    endpoint_url := by
      rw [Table.map_update db.endpoints p f (fun e => (hf e).1)
        (g := EndpointRow.site) fun e => (hf e).2]
      exact db.endpoint_url
    endpoint_channel := by
      intro e he
      obtain ⟨r, hr, rfl⟩ := Table.mem_update.mp he
      obtain ⟨c, hc, hcid⟩ := db.endpoint_channel r hr
      refine ⟨c, hc, hcid.trans ?_⟩
      split
      · exact (congrArg (·.1) (hf r).2).symm
      · rfl
    delivery_endpoint := by
      intro d hd
      obtain ⟨e, he, heid⟩ := db.delivery_endpoint d hd
      refine ⟨_, Table.mem_update.mpr ⟨e, he, rfl⟩, ?_⟩
      split
      · exact (hf e).1.trans heid
      · exact heid }

@[simp] theorem find?_updateEndpoints (db : Database)
    (p : EndpointRow → Bool) (f : EndpointRow → EndpointRow)
    (hf : ∀ e, (f e).id = e.id ∧ (f e).site = e.site) (endpointId : Uuid) :
    (db.updateEndpoints p f hf).endpoints.find? endpointId =
      (db.endpoints.find? endpointId).map fun e => if p e then f e else e :=
  Table.find?_update _ _ _ (fun e => (hf e).1) _

/-- Insert an Attempt, refused by the unique index or the foreign key. -/
def insertAttempt? (db : Database) (a : AttemptRow) : Option Database :=
  if hfk : ∃ d ∈ db.deliveries.rows, d.id = a.deliveryId then
    match hins : db.attempts.insert? a with
    | none => none
    | some attempts =>
        some { db with
          attempts := attempts
          attempt_delivery := by
            intro b hb
            rw [Table.mem_def, Table.rows_of_insert? hins,
              List.mem_append, List.mem_singleton] at hb
            rcases hb with hb | rfl
            · exact db.attempt_delivery b hb
            · exact hfk }
  else none

/-- An insert succeeds when the Delivery exists and the number is free. -/
theorem insertAttempt?_isSome_iff {db : Database} {a : AttemptRow} :
    (db.insertAttempt? a).isSome ↔
      (db.delivery? a.deliveryId).isSome ∧
        ∀ b ∈ db.attemptLog a.deliveryId, b.n ≠ a.n := by
  have hfk : (∃ d ∈ db.deliveries.rows, d.id = a.deliveryId) ↔
      (db.delivery? a.deliveryId).isSome := by
    rw [Option.isSome_iff_ne_none, delivery?, ne_eq,
      Table.find?_eq_none_iff]
    simp [Table.mem_def]
  have hkey : db.attempts.insert? a ≠ none ↔
      ∀ b ∈ db.attemptLog a.deliveryId, b.n ≠ a.n := by
    rw [ne_eq, Table.insert?_eq_none_iff, not_exists]
    constructor
    · intro h b hb hn
      obtain ⟨hmem, hid⟩ := mem_attemptLog.mp hb
      exact h b ⟨hmem, Prod.ext hid hn⟩
    · rintro h b ⟨hmem, hk⟩
      exact h b (mem_attemptLog.mpr ⟨hmem, congrArg Prod.fst hk⟩)
        (congrArg Prod.snd hk)
  rw [← hfk, ← hkey]
  unfold insertAttempt?
  split
  next hd =>
    split
    next hnone => simp [hnone]
    next hsome => simp [hd, hsome]
  next hd => simp [hd]

theorem delivery?_insertAttempt {db db' : Database} {a : AttemptRow}
    (h : db.insertAttempt? a = some db') (deliveryId : Uuid) :
    db'.delivery? deliveryId = db.delivery? deliveryId := by
  unfold insertAttempt? at h
  split at h
  · split at h
    · cases h
    · cases h
      rfl
  · cases h

/-- The insert of an Attempt touches neither Endpoints nor Broadcasts. -/
theorem tables_insertAttempt {db db' : Database} {a : AttemptRow}
    (h : db.insertAttempt? a = some db') :
    db'.endpoints = db.endpoints ∧ db'.broadcasts = db.broadcasts := by
  unfold insertAttempt? at h
  split at h
  · split at h
    · cases h
    · cases h
      exact ⟨rfl, rfl⟩
  · cases h

theorem attemptLog_insertAttempt {db db' : Database} {a : AttemptRow}
    (h : db.insertAttempt? a = some db') (deliveryId : Uuid) :
    db'.attemptLog deliveryId =
      db.attemptLog deliveryId ++
        if a.deliveryId = deliveryId then [a] else [] := by
  unfold insertAttempt? at h
  split at h
  · split at h
    · cases h
    next hins =>
      cases h
      rw [attemptLog, Table.select, Table.rows_of_insert? hins,
        List.filter_append, List.filter_singleton]
      simp [attemptLog, Table.select]
  · cases h

/-- Delete the Broadcasts that satisfy `p`; their Deliveries and Attempts go
with them. -/
def deleteBroadcasts (db : Database) (p : BroadcastRow → Bool) : Database :=
  let swept := (db.broadcasts.select p).map BroadcastRow.id
  let gone := (db.deliveries.select fun d => d.broadcastId ∈ swept).map
    DeliveryRow.id
  { db with
    broadcasts := db.broadcasts.delete p
    deliveries := db.deliveries.delete fun d => d.broadcastId ∈ swept
    attempts := db.attempts.delete fun a => a.deliveryId ∈ gone
    broadcast_channel := fun b hb =>
      db.broadcast_channel b (Table.mem_delete.mp hb).1
    delivery_broadcast := by
      intro d hd
      obtain ⟨hd, hkept⟩ := Table.mem_delete.mp hd
      obtain ⟨b, hb, hbid⟩ := db.delivery_broadcast d hd
      refine ⟨b, Table.mem_delete.mpr ⟨hb, ?_⟩, hbid⟩
      by_contra hp
      rw [decide_eq_false_iff_not, ← hbid] at hkept
      exact hkept (List.mem_map_of_mem
        (Table.mem_select.mpr ⟨hb, by simpa using hp⟩))
    delivery_endpoint := fun d hd =>
      db.delivery_endpoint d (Table.mem_delete.mp hd).1
    delivery_channel := fun d hd =>
      db.delivery_channel d (Table.mem_delete.mp hd).1
    delivery_pair := db.delivery_pair.sublist (List.filter_sublist.map _)
    attempt_delivery := by
      intro a ha
      obtain ⟨ha, hkept⟩ := Table.mem_delete.mp ha
      obtain ⟨d, hd, hdid⟩ := db.attempt_delivery a ha
      refine ⟨d, Table.mem_delete.mpr ⟨hd, ?_⟩, hdid⟩
      rw [decide_eq_false_iff_not] at hkept ⊢
      intro hswept
      apply hkept
      rw [← hdid]
      exact List.mem_map_of_mem
        (Table.mem_select.mpr ⟨hd, by simpa using hswept⟩) }

/-- A deletion of Broadcasts removes a Delivery with its whole log, or leaves
both as they are. -/
theorem delivery?_deleteBroadcasts (db : Database) (p : BroadcastRow → Bool)
    (deliveryId : Uuid) :
    (db.deleteBroadcasts p).delivery? deliveryId = none ∨
      ((db.deleteBroadcasts p).delivery? deliveryId =
          db.delivery? deliveryId ∧
        (db.deleteBroadcasts p).attemptLog deliveryId =
          db.attemptLog deliveryId) := by
  set swept := (db.broadcasts.select p).map BroadcastRow.id with hswept
  have hfind : (db.deleteBroadcasts p).delivery? deliveryId =
      (db.delivery? deliveryId).filter
        fun d => !decide (d.broadcastId ∈ swept) :=
    Table.find?_delete _ _ _
  cases hrow : db.delivery? deliveryId with
  | none => exact Or.inl (by rw [hfind, hrow, Option.filter_none])
  | some r =>
      rw [hrow, Option.filter_some] at hfind
      by_cases hr : r.broadcastId ∈ swept
      · exact Or.inl (by simpa [hr] using hfind)
      · refine Or.inr ⟨by simpa [hr] using hfind, ?_⟩
        rw [attemptLog, attemptLog, Table.select, Table.select]
        change ((db.attempts.rows.filter _).filter _) = _
        rw [List.filter_filter]
        apply List.filter_congr
        intro a ha
        by_cases hid : a.deliveryId = deliveryId
        · have hkept : a.deliveryId ∉
              (db.deliveries.select fun d => d.broadcastId ∈ swept).map
                DeliveryRow.id := by
            rw [List.mem_map]
            rintro ⟨d, hd, hdid⟩
            obtain ⟨hd, hdswept⟩ := Table.mem_select.mp hd
            have hdr : d = r := db.deliveries.eq_of_key_eq hd
              (mem_of_delivery? hrow)
              ((hdid.trans hid).trans (id_of_delivery? hrow).symm)
            rw [hdr] at hdswept
            exact hr (by simpa using hdswept)
          simp [hid, ← hswept, hid ▸ hkept]
        · simp [hid]

end Database

end WebhookBroadcast
