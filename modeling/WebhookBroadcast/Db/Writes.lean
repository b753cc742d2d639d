import WebhookBroadcast.Db.Schema

/-!
# Writes that the constraints may refuse

Inserts into the tables, updates that touch an index or a check, and deletions
that cascade.  A write that would break a constraint is refused as a whole;
any other returns a database again.
-/

namespace WebhookBroadcast

open Relational

namespace Database

variable {db db' : Database}

/-! ## Channels -/

/-- Insert a Channel, refused by the primary key, a check or the index of live
slugs. -/
def insertChannel? (db : Database) (c : ChannelRow) : Option Database :=
  if hc : c.Valid ∧ (activeSlugs (db.channels.rows ++ [c])).Nodup then
    match hins : db.channels.insert? c with
    | none => none
    | some channels =>
        have hkeep {p : ChannelRow → Prop} (h : ∃ c ∈ db.channels, p c) :
            ∃ c ∈ channels, p c := by
          obtain ⟨c, hc, hp⟩ := h
          exact ⟨c, (Table.mem_of_insert? hins).mpr (Or.inl hc), hp⟩
        some { db with
          channels := channels
          channel_valid := by
            intro d hd
            rcases (Table.mem_of_insert? hins).mp hd with hd | rfl
            · exact db.channel_valid d hd
            · exact hc.1
          channel_slug := by
            rw [Table.rows_of_insert? hins]
            exact hc.2
          token_channel := fun t ht => hkeep (db.token_channel t ht)
          endpoint_channel := fun e he => hkeep (db.endpoint_channel e he)
          broadcast_channel := fun b hb => hkeep (db.broadcast_channel b hb)
          delivery_channel := fun d hd => hkeep (db.delivery_channel d hd) }
  else none

/-- Update the Channels that satisfy `p`, refused by a check or the index of
live slugs. -/
def updateChannels? (db : Database) (p : ChannelRow → Bool)
    (f : ChannelRow → ChannelRow) (hf : ∀ c, (f c).id = c.id) :
    Option Database :=
  have hkeep {id : Uuid} (h : ∃ c ∈ db.channels, c.id = id) :
      ∃ c ∈ db.channels.update p f hf, c.id = id := by
    obtain ⟨c, hc, hid⟩ := h
    refine ⟨_, Table.mem_update.mpr ⟨c, hc, rfl⟩, ?_⟩
    split
    · exact (hf c).trans hid
    · exact hid
  if hc : (∀ c ∈ (db.channels.update p f hf).rows, c.Valid) ∧
      (activeSlugs (db.channels.update p f hf).rows).Nodup then
    some { db with
      channels := db.channels.update p f hf
      channel_valid := hc.1
      channel_slug := hc.2
      token_channel := fun t ht => hkeep (db.token_channel t ht)
      endpoint_channel := fun e he => hkeep (db.endpoint_channel e he)
      broadcast_channel := fun b hb => hkeep (db.broadcast_channel b hb)
      delivery_channel := fun d hd => hkeep (db.delivery_channel d hd) }
  else none

/-! ## Endpoints -/

/-- Insert an Endpoint, refused by the primary key, the foreign key or the
index of URLs. -/
def insertEndpoint? (db : Database) (e : EndpointRow) : Option Database :=
  if he : (∃ c ∈ db.channels.rows, c.id = e.channelId) ∧
      (∀ other ∈ db.endpoints.rows, other.site ≠ e.site) then
    match hins : db.endpoints.insert? e with
    | none => none
    | some endpoints =>
        some { db with
          endpoints := endpoints
          endpoint_url := by
            rw [Table.rows_of_insert? hins, List.map_append,
              List.map_singleton]
            refine db.endpoint_url.append (List.nodup_singleton _) ?_
            rw [List.disjoint_singleton, List.mem_map]
            rintro ⟨other, hother, hsite⟩
            exact he.2 other hother hsite
          endpoint_channel := by
            intro d hd
            rcases (Table.mem_of_insert? hins).mp hd with hd | rfl
            · exact db.endpoint_channel d hd
            · exact he.1
          delivery_endpoint := by
            intro d hd
            obtain ⟨other, hother, hid⟩ := db.delivery_endpoint d hd
            exact ⟨other, (Table.mem_of_insert? hins).mpr (Or.inl hother),
              hid⟩ }
  else none

/-- Update the Endpoints that satisfy `p`, leaving id and Channel alone;
refused by the index of URLs. -/
def updateEndpoints? (db : Database) (p : EndpointRow → Bool)
    (f : EndpointRow → EndpointRow)
    (hf : ∀ e, (f e).id = e.id ∧ (f e).channelId = e.channelId) :
    Option Database :=
  if hurl : ((db.endpoints.update p f fun e => (hf e).1).rows.map
      EndpointRow.site).Nodup then
    some { db with
      endpoints := db.endpoints.update p f fun e => (hf e).1
      endpoint_url := hurl
      endpoint_channel := by
        intro e he
        obtain ⟨r, hr, rfl⟩ := Table.mem_update.mp he
        obtain ⟨c, hc, hcid⟩ := db.endpoint_channel r hr
        refine ⟨c, hc, hcid.trans ?_⟩
        split
        · exact (hf r).2.symm
        · rfl
      delivery_endpoint := by
        intro d hd
        obtain ⟨e, he, heid⟩ := db.delivery_endpoint d hd
        refine ⟨_, Table.mem_update.mpr ⟨e, he, rfl⟩, ?_⟩
        split
        · exact (hf e).1.trans heid
        · exact heid }
  else none

theorem find?_of_updateEndpoints? {db db' : Database}
    {p : EndpointRow → Bool} {f : EndpointRow → EndpointRow}
    {hf : ∀ e, (f e).id = e.id ∧ (f e).channelId = e.channelId}
    (h : db.updateEndpoints? p f hf = some db') (endpointId : Uuid) :
    db'.endpoints.find? endpointId =
      (db.endpoints.find? endpointId).map fun e => if p e then f e else e := by
  simp only [updateEndpoints?] at h
  split at h
  · cases h
    exact Table.find?_update _ _ _ (fun e => (hf e).1) _
  · cases h

/-- A database with one Channel and those of the Endpoints that the
constraints admit. -/
def withEndpoints (channel : ChannelRow) (endpoints : List EndpointRow) :
    Database :=
  endpoints.foldl (fun db e => (db.insertEndpoint? e).getD db)
    ((empty.insertChannel? channel).getD empty)

/-- Delete the Deliveries that satisfy `p`; their Attempts go with them. -/
def deleteDeliveries (db : Database) (p : DeliveryRow → Bool) : Database :=
  let gone := (db.deliveries.select p).map DeliveryRow.id
  { db with
    deliveries := db.deliveries.delete p
    attempts := db.attempts.delete fun a => a.deliveryId ∈ gone
    delivery_broadcast := fun d hd =>
      db.delivery_broadcast d (Table.mem_delete.mp hd).1
    delivery_endpoint := fun d hd =>
      db.delivery_endpoint d (Table.mem_delete.mp hd).1
    delivery_channel := fun d hd =>
      db.delivery_channel d (Table.mem_delete.mp hd).1
    delivery_pair := db.delivery_pair.sublist (List.filter_sublist.map _)
    attempt_delivery := by
      intro a ha
      obtain ⟨ha, hkept⟩ := Table.mem_delete.mp ha
      obtain ⟨d, hd, hdid⟩ := db.attempt_delivery a ha
      refine ⟨d, Table.mem_delete.mpr ⟨hd, ?_⟩, hdid⟩
      rw [decide_eq_false_iff_not] at hkept
      by_contra hp
      apply hkept
      rw [← hdid]
      exact List.mem_map_of_mem
        (Table.mem_select.mpr ⟨hd, by simpa using hp⟩) }

/-- Delete the Endpoints that satisfy `p`; their Deliveries and Attempts go
with them. -/
def deleteEndpoints (db : Database) (p : EndpointRow → Bool) : Database :=
  let swept := (db.endpoints.select p).map EndpointRow.id
  let rest := db.deleteDeliveries fun d => d.endpointId ∈ swept
  { rest with
    endpoints := db.endpoints.delete p
    endpoint_url := db.endpoint_url.sublist (List.filter_sublist.map _)
    endpoint_channel := fun e he =>
      db.endpoint_channel e (Table.mem_delete.mp he).1
    delivery_endpoint := by
      intro d hd
      obtain ⟨hd, hkept⟩ := Table.mem_delete.mp hd
      obtain ⟨e, he, heid⟩ := db.delivery_endpoint d hd
      refine ⟨e, Table.mem_delete.mpr ⟨he, ?_⟩, heid⟩
      by_contra hp
      rw [decide_eq_false_iff_not, ← heid] at hkept
      exact hkept (List.mem_map_of_mem
        (Table.mem_select.mpr ⟨he, by simpa using hp⟩)) }

/-! ## Broadcasts and Deliveries -/

/-- Insert a Broadcast, refused by the primary key or the foreign key. -/
def insertBroadcast? (db : Database) (b : BroadcastRow) : Option Database :=
  if hfk : ∃ c ∈ db.channels.rows, c.id = b.channelId then
    match hins : db.broadcasts.insert? b with
    | none => none
    | some broadcasts =>
        some { db with
          broadcasts := broadcasts
          broadcast_channel := by
            intro d hd
            rcases (Table.mem_of_insert? hins).mp hd with hd | rfl
            · exact db.broadcast_channel d hd
            · exact hfk
          delivery_broadcast := by
            intro d hd
            obtain ⟨c, hc, hid⟩ := db.delivery_broadcast d hd
            exact ⟨c, (Table.mem_of_insert? hins).mpr (Or.inl hc), hid⟩ }
  else none

/-- The rows that a new Delivery refers to. -/
def Referenced (db : Database) (d : DeliveryRow) : Prop :=
  (∃ b ∈ db.broadcasts.rows, b.id = d.broadcastId) ∧
    (∃ e ∈ db.endpoints.rows, e.id = d.endpointId) ∧
    ∃ c ∈ db.channels.rows, c.id = d.channelId

instance (d : DeliveryRow) : Decidable (db.Referenced d) :=
  inferInstanceAs (Decidable (_ ∧ _ ∧ _))

/-- Insert a Delivery, refused by the primary key, a foreign key or the index
of pairs. -/
def insertDelivery? (db : Database) (d : DeliveryRow) : Option Database :=
  if hd : db.Referenced d ∧ ∀ other ∈ db.deliveries.rows,
      other.pair ≠ d.pair then
    match hins : db.deliveries.insert? d with
    | none => none
    | some deliveries =>
        some { db with
          deliveries := deliveries
          delivery_broadcast := by
            intro r hr
            rcases (Table.mem_of_insert? hins).mp hr with hr | rfl
            · exact db.delivery_broadcast r hr
            · exact hd.1.1
          delivery_endpoint := by
            intro r hr
            rcases (Table.mem_of_insert? hins).mp hr with hr | rfl
            · exact db.delivery_endpoint r hr
            · exact hd.1.2.1
          delivery_channel := by
            intro r hr
            rcases (Table.mem_of_insert? hins).mp hr with hr | rfl
            · exact db.delivery_channel r hr
            · exact hd.1.2.2
          delivery_pair := by
            rw [Table.rows_of_insert? hins, List.map_append,
              List.map_singleton]
            refine db.delivery_pair.append (List.nodup_singleton _) ?_
            rw [List.disjoint_singleton, List.mem_map]
            rintro ⟨other, hother, hpair⟩
            exact hd.2 other hother hpair
          attempt_delivery := by
            intro a ha
            obtain ⟨r, hr, hid⟩ := db.attempt_delivery a ha
            exact ⟨r, (Table.mem_of_insert? hins).mpr (Or.inl hr), hid⟩ }
  else none

/-- Insert several Deliveries in one statement: all of them or none. -/
def insertDeliveries? (db : Database) (rows : List DeliveryRow) :
    Option Database :=
  rows.foldlM insertDelivery? db

/-! ### What the inserts of a fan-out change -/

/-- `db'` is `db` with further Broadcasts and Deliveries. -/
structure Grows (db db' : Database) (broadcasts : List BroadcastRow)
    (deliveries : List DeliveryRow) : Prop where
  channels : db'.channels = db.channels
  channelTokens : db'.channelTokens = db.channelTokens
  endpoints : db'.endpoints = db.endpoints
  attempts : db'.attempts = db.attempts
  broadcasts : db'.broadcasts.rows = db.broadcasts.rows ++ broadcasts
  deliveries : db'.deliveries.rows = db.deliveries.rows ++ deliveries

theorem Grows.refl (db : Database) : Grows db db [] [] := by
  constructor <;> simp

theorem Grows.trans {db'' : Database} {b b' : List BroadcastRow}
    {d d' : List DeliveryRow} (h : Grows db db' b d)
    (h' : Grows db' db'' b' d') : Grows db db'' (b ++ b') (d ++ d') where
  channels := h'.channels.trans h.channels
  channelTokens := h'.channelTokens.trans h.channelTokens
  endpoints := h'.endpoints.trans h.endpoints
  attempts := h'.attempts.trans h.attempts
  broadcasts := by rw [h'.broadcasts, h.broadcasts, List.append_assoc]
  deliveries := by rw [h'.deliveries, h.deliveries, List.append_assoc]

theorem grows_insertBroadcast? {b : BroadcastRow}
    (h : db.insertBroadcast? b = some db') : Grows db db' [b] [] := by
  unfold insertBroadcast? at h
  split at h
  · split at h
    · cases h
    next hins =>
      cases h
      exact ⟨rfl, rfl, rfl, rfl, Table.rows_of_insert? hins, by simp⟩
  · cases h

theorem grows_insertDelivery? {d : DeliveryRow}
    (h : db.insertDelivery? d = some db') : Grows db db' [] [d] := by
  unfold insertDelivery? at h
  split at h
  · split at h
    · cases h
    next hins =>
      cases h
      exact ⟨rfl, rfl, rfl, rfl, by simp, Table.rows_of_insert? hins⟩
  · cases h

theorem grows_insertDeliveries? {rows : List DeliveryRow}
    (h : db.insertDeliveries? rows = some db') : Grows db db' [] rows := by
  induction rows generalizing db with
  | nil =>
      cases h
      exact .refl _
  | cons d rows ih =>
      rw [insertDeliveries?, List.foldlM_cons] at h
      obtain ⟨mid, hmid, hrest⟩ := Option.bind_eq_some_iff.mp h
      exact (grows_insertDelivery? hmid).trans (ih hrest)

section Grows

variable {b : BroadcastRow} {ds : List DeliveryRow}

/-- The id of a new Broadcast is new. -/
theorem Grows.broadcast?_new (h : Grows db db' [b] ds) :
    db.broadcasts.find? b.id = none ∧
      db'.broadcasts.find? b.id = some b := by
  have hnodup := db'.broadcasts.nodup
  rw [h.broadcasts, List.map_append, List.nodup_append] at hnodup
  constructor
  · rw [Table.find?_eq_none_iff]
    intro c hc
    exact hnodup.2.2 c.id (List.mem_map_of_mem hc) b.id (by simp)
  · rw [Table.find?_eq_some_iff, Table.mem_def, h.broadcasts]
    simp

theorem Grows.broadcast?_of_ne (h : Grows db db' [b] ds) {id : Uuid}
    (hid : b.id ≠ id) :
    db'.broadcasts.find? id = db.broadcasts.find? id := by
  rw [Table.find?, Table.find?, h.broadcasts, List.find?_append]
  simp [hid]

/-- No Delivery refers to a Broadcast that is not there yet. -/
theorem Grows.broadcast_fresh (h : Grows db db' [b] ds) :
    ∀ d ∈ db.deliveries, d.broadcastId ≠ b.id := by
  intro d hd hid
  obtain ⟨c, hc, hcid⟩ := db.delivery_broadcast d hd
  exact (Table.find?_eq_none_iff _).mp h.broadcast?_new.1 c hc
    (hcid.trans hid)

/-- The ids of new Deliveries are new. -/
theorem Grows.delivery_fresh {bs : List BroadcastRow}
    (h : Grows db db' bs ds) :
    ∀ d ∈ db.deliveries, ∀ new ∈ ds, d.id ≠ new.id := by
  intro d hd new hnew
  have hnodup := db'.deliveries.nodup
  rw [h.deliveries, List.map_append, List.nodup_append] at hnodup
  exact hnodup.2.2 d.id (List.mem_map_of_mem hd) new.id
    (List.mem_map_of_mem hnew)

/-- A Delivery is as before, or one of the new ones. -/
theorem Grows.delivery?_cases {bs : List BroadcastRow}
    (h : Grows db db' bs ds) (d : Uuid) :
    db'.delivery? d = db.delivery? d ∨
      db.delivery? d = none ∧
        ∃ row ∈ ds, row.id = d ∧ db'.delivery? d = some row := by
  cases hnew : db'.delivery? d with
  | none =>
      refine Or.inl (Eq.symm ?_)
      rw [delivery?, Table.find?_eq_none_iff] at hnew ⊢
      intro row hrow
      apply hnew row
      rw [Table.mem_def, h.deliveries]
      exact List.mem_append_left _ hrow
  | some row =>
      have hrow := mem_of_delivery? hnew
      rw [Table.mem_def, h.deliveries, List.mem_append] at hrow
      have hid := id_of_delivery? hnew
      rcases hrow with hrow | hrow
      · exact Or.inl (db.deliveries.find?_eq_some_iff.mpr ⟨hrow, hid⟩).symm
      · refine Or.inr ⟨?_, row, hrow, hid, rfl⟩
        rw [delivery?, Table.find?_eq_none_iff]
        exact fun old hold heq =>
          h.delivery_fresh old hold row hrow (heq.trans hid.symm)

theorem Grows.attemptLog {bs : List BroadcastRow} (h : Grows db db' bs ds)
    (d : Uuid) : db'.attemptLog d = db.attemptLog d := by
  rw [Database.attemptLog, h.attempts, Database.attemptLog]

/-- Deleting the new Broadcast again takes everything back. -/
theorem Grows.deleteBroadcasts (h : Grows db db' [b] ds)
    (hds : ∀ d ∈ ds, d.broadcastId = b.id) :
    db'.deleteBroadcasts (fun c => c.id = b.id) = db := by
  have hfresh := h.broadcast_fresh
  have hbs : ∀ c ∈ db.broadcasts.rows, c.id ≠ b.id :=
    (Table.find?_eq_none_iff _).mp h.broadcast?_new.1
  have hswept : (db'.broadcasts.select fun c => c.id = b.id).map
      BroadcastRow.id = [b.id] := by
    rw [Table.select, h.broadcasts, List.filter_append,
      List.filter_eq_nil_iff.mpr (by simpa using hbs)]
    simp
  have hgone : (db'.deliveries.select
      fun d => d.broadcastId ∈ [b.id]) = ds := by
    rw [Table.select, h.deliveries, List.filter_append,
      List.filter_eq_nil_iff.mpr (by simpa [Table.mem_def] using hfresh),
      List.filter_eq_self.mpr (by simpa using hds)]
    simp
  apply Database.ext
  · exact h.channels
  · exact h.channelTokens
  · exact h.endpoints
  · apply Table.ext
    change db'.broadcasts.rows.filter _ = _
    rw [h.broadcasts, List.filter_append, List.filter_eq_self.mpr
      (by simpa using hbs)]
    simp
  · apply Table.ext
    change db'.deliveries.rows.filter _ = _
    simp only [hswept]
    rw [h.deliveries, List.filter_append, List.filter_eq_self.mpr
      (by simpa [Table.mem_def] using hfresh),
      List.filter_eq_nil_iff.mpr (by simpa using hds)]
    simp
  · apply Table.ext
    change db'.attempts.rows.filter _ = _
    simp only [hswept, hgone]
    rw [h.attempts, List.filter_eq_self]
    intro a ha
    obtain ⟨d, hd, hid⟩ := db.attempt_delivery a ha
    rw [Bool.not_eq_true', decide_eq_false_iff_not, List.mem_map]
    rintro ⟨new, hnew, hnewid⟩
    exact h.delivery_fresh d hd new hnew (hid.trans hnewid.symm)

end Grows

end Database

end WebhookBroadcast
