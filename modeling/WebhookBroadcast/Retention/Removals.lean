import WebhookBroadcast.Credentials.ClosedChannels

/-!
# What one event removes

A Broadcast or Delivery is removed by the retention sweep, by the compensating
deletion of a fan-out, or, with its Endpoint, by an operator.  Whatever else
happens in the deployment keeps it: a Broadcast as it is, a Delivery with its
ids.
-/

namespace WebhookBroadcast

open Interaction Relational

/-! ## Changes that remove nothing -/

/-- The second database has all Broadcasts and Deliveries of the first. -/
structure Database.Retains (db db' : Database) : Prop where
  broadcasts : ∀ b ∈ db.broadcasts, b ∈ db'.broadcasts
  deliveries : db'.KeepsIdentities db

namespace Database

theorem Retains.of_eq {db db' : Database}
    (hbroadcasts : db'.broadcasts = db.broadcasts)
    (hdeliveries : db'.deliveries = db.deliveries) : db.Retains db' :=
  ⟨fun b hb => by rwa [hbroadcasts], .of_eq hdeliveries.symm⟩

theorem Retains.refl (db : Database) : db.Retains db := .of_eq rfl rfl

theorem SameBelowChannels.retains {db db' : Database}
    (h : db.SameBelowChannels db') : db.Retains db' :=
  .of_eq h.broadcasts h.deliveries

theorem Grows.retains {db db' : Database} {bs : List BroadcastRow}
    {ds : List DeliveryRow} (h : db.Grows db' bs ds) : db.Retains db' := by
  refine ⟨fun b hb => ?_, .of_subset fun d hd => ?_⟩
  · rw [Table.mem_def, h.broadcasts]
    exact List.mem_append_left _ hb
  · rw [Table.mem_def, h.deliveries]
    exact List.mem_append_left _ hd

/-- An update that leaves the identities of the Deliveries alone. -/
theorem Retains.of_identities {db db' : Database}
    (hbroadcasts : db'.broadcasts = db.broadcasts)
    (hdeliveries : db'.deliveries.rows.map DeliveryRow.identity =
      db.deliveries.rows.map DeliveryRow.identity) : db.Retains db' := by
  refine ⟨fun b hb => by rwa [hbroadcasts], fun d hd => ?_⟩
  have hmem : d.identity ∈ db'.deliveries.rows.map DeliveryRow.identity := by
    rw [hdeliveries]
    exact List.mem_map_of_mem hd
  obtain ⟨d', hd', hidentity⟩ := List.mem_map.mp hmem
  exact ⟨d', hd', hidentity.symm⟩

theorem identities_updateDeliveries (db : Database) (p : DeliveryRow → Bool)
    (f : DeliveryRow → DeliveryRow)
    (hf : ∀ row, (f row).identity = row.identity) :
    (db.updateDeliveries p f hf).deliveries.rows.map DeliveryRow.identity =
      db.deliveries.rows.map DeliveryRow.identity :=
  Table.map_update db.deliveries p f
    (fun row => congrArg Prod.fst (hf row)) hf

end Database

theorem retains_moveStatus (old new : DeliveryStatus) (db : Database)
    (deliveryId : Uuid) (updatedAt : Instant) :
    db.Retains (moveStatus old new db deliveryId updatedAt).2 :=
  .of_identities rfl (db.identities_updateDeliveries _ _ fun row =>
    row.identity_moved new updatedAt)

theorem retains_completeDelivery (db : Database)
    (input : CompleteDeliveryInput) :
    db.Retains (completeDelivery db input).2 := by
  unfold completeDelivery
  split
  · split <;> exact .refl db
  next db' hins =>
    have hsame : db'.deliveries = db.deliveries ∧
        db'.broadcasts = db.broadcasts := by
      unfold Database.insertAttempt? at hins
      split at hins
      · split at hins
        · cases hins
        · cases hins
          exact ⟨rfl, rfl⟩
      · cases hins
    refine .of_identities hsame.2 ?_
    rw [Database.identities_updateDeliveries, hsame.1]

theorem retains_perform (x : Choice) (c : Call) (w : World) :
    w.db.Retains (perform x c w).2.db := by
  by_cases hc : ∃ q, c = .query q
  · obtain ⟨q, rfl⟩ := hc
    rcases perform_query_db x q w with h | h
    · rw [h]
      exact .refl _
    · rw [h]
      cases q with
      | claimPendingDelivery id updatedAt =>
          exact retains_moveStatus _ _ _ _ _
      | resetInProgressDeliveryToPending id updatedAt =>
          exact retains_moveStatus _ _ _ _ _
      | retryDeadLetteredDelivery id updatedAt =>
          exact retains_moveStatus _ _ _ _ _
      | completeDelivery input => exact retains_completeDelivery _ _
      | _ => exact .of_eq rfl rfl
  · rw [perform_db_of_not_query fun q hq => hc ⟨q, hq⟩]
    exact .refl _

theorem Transaction.retains_commit (tx : Transaction) (db : Database) :
    db.Retains (tx.commit db) := by
  by_cases h : tx.check db = .ok ()
  · exact (Transaction.grows_commit h).retains
  · rw [Transaction.commit_of_check_ne h]
    exact .refl db

theorem retains_insertChannelToken (D : Deployment) (input : ChannelTokenRow)
    (label : ChannelTokenLabel) :
    D.world.db.Retains (D.insertChannelToken input label).2.world.db := by
  simp only [Deployment.insertChannelToken]
  split
  next row h =>
    simp only [WebhookBroadcast.insertChannelToken] at h ⊢
    split at h
    next db' hins =>
      unfold Database.insertChannelToken? at hins
      split at hins
      next =>
        split at hins
        · cases hins
        · cases hins
          exact .of_eq rfl rfl
      next => cases hins
    next => cases h
  · exact .refl _

/-! ## Removals -/

/-- The compensating deletion of a Broadcast. -/
@[reducible] def withdrawCall (broadcastId : Uuid) : ApiEffects.Call :=
  .inl (.inr (.query (.deleteBroadcastById broadcastId)))

/-- The deletion of an Endpoint by an operator. -/
@[reducible] def deleteEndpointCall (channelId endpointId : Uuid) :
    ApiEffects.Call :=
  .inr (.query (.write ⟨.deleteEndpoint channelId endpointId, nofun⟩))

/-- What a call does to the Broadcasts and Deliveries of the database. -/
inductive CallRemoves (db : Database) : ApiEffects.Call → Database → Prop
  | nothing (c : ApiEffects.Call) {db' : Database} (h : db.Retains db') :
      CallRemoves db c db'
  | withdrawn (broadcastId : Uuid) :
      CallRemoves db (withdrawCall broadcastId)
        (deleteBroadcastById db broadcastId).2
  | endpointDeleted (channelId endpointId : Uuid) :
      CallRemoves db (deleteEndpointCall channelId endpointId)
        (deleteEndpoint db channelId endpointId).2

theorem callRemoves_performApi (x : ApiChoice) (c : ApiEffects.Call)
    (D : Deployment) :
    CallRemoves D.world.db c (performApi x c D).2.world.db := by
  cases c with
  | inl c =>
      cases c with
      | inl c => exact .nothing _ (retains_perform x.toChoice c D.world)
      | inr c =>
          have hcases : (performApi x (.inl (.inr c)) D).2.world.db =
                D.world.db ∨ ∃ q, c = .query q ∧
              (performApi x (.inl (.inr c)) D).2.world.db =
                (q.run D.world.db).2 := performIngest_db x.toChoice c D.world
          rcases hcases with h | ⟨q, rfl, h⟩
          · rw [h]
            exact .nothing _ (.refl _)
          · rw [h]
            cases q with
            | commit tx => exact .nothing _ (tx.retains_commit _)
            | deleteBroadcastById id => exact .withdrawn id
            | _ => exact .nothing _ (.refl _)
  | inr c =>
      cases c with
      | touchOperatorTokenLastUsed tokenId at_ => exact .nothing _ (.refl _)
      | randomBytes => exact .nothing _ (.refl _)
      | query q =>
          have hcases : (performApi x (.inr (.query q)) D).2 = D ∨
              (performApi x (.inr (.query q)) D).2 = (q.run D).2 := by
            rcases performApi_query_cases x q D with ⟨h, -⟩ | ⟨e, -, h⟩
            · exact Or.inr (congrArg Prod.snd h)
            · exact h
          rcases hcases with h | h
          · rw [h]
            exact .nothing _ (.refl _)
          · rw [h]
            cases q with
            | insertChannelToken input label =>
                exact .nothing _ (retains_insertChannelToken D input label)
            | write statement =>
                rcases statement with ⟨statement, hprune⟩
                cases statement with
                | createChannel body id now =>
                    exact .nothing _
                      (sameBelowChannels_insertChannel _ _).retains
                | patchChannel id body now =>
                    exact .nothing _
                      (sameBelowChannels_updateChannel _ _ _ _).retains
                | deleteChannel id now =>
                    exact .nothing _
                      (sameBelowChannels_softDeleteChannel _ _ _).retains
                | createEndpoint body id channelId now =>
                    obtain ⟨hbroadcasts, hdeliveries⟩ := tables_insertEndpoint
                      D.world.db (body.toRow id channelId now)
                    exact .nothing _ (.of_eq hbroadcasts hdeliveries)
                | patchEndpoint channelId id body now =>
                    obtain ⟨hbroadcasts, hdeliveries, -⟩ :=
                      tables_updateEndpoint D.world.db channelId id
                        (body.toPatch now)
                    exact .nothing _ (.of_eq hbroadcasts hdeliveries)
                | deleteEndpoint channelId id =>
                    exact .endpointDeleted channelId id
                | prune cutoff => exact absurd rfl (hprune cutoff)
            | _ => exact .nothing _ (.of_eq rfl rfl)

/-! ## Events -/

/-- The event is a sweep whose window begins after the Broadcast was
received. -/
def Sweeps (e : ApiEvent) (b : BroadcastRow) : Prop :=
  ∃ retentionDays now, e = .background (.sweep retentionDays now) ∧
    b.receivedAt < retentionCutoff retentionDays now

/-- The event is a step at which some run makes this call. -/
def Performs (P : ApiPool) (e : ApiEvent) (c : ApiEffects.Call) : Prop :=
  ∃ i x t, e = .step i x ∧ P.Makes i t c

section Events

variable {hashToken : String → String} {config : OperatorAuthConfig}
  {dateParse : String → Option Instant} {P : ApiPool} {e : ApiEvent}

variable (hashToken config dateParse) in
/-- A Broadcast that is gone was swept, or withdrawn by a run. -/
theorem broadcast_removed {b : BroadcastRow}
    (hb : b ∈ P.state.world.db.broadcasts) :
    b ∈ ((api hashToken config dateParse).apply P e).state.world.db.broadcasts ∨
      Sweeps e b ∨ Performs P e (withdrawCall b.id) := by
  cases e with
  | start t => exact Or.inl hb
  | background event =>
      cases event with
      | settleTouch n carriedOut =>
          refine Or.inl ?_
          change b ∈ ((Housekeeping.settleTouch n carriedOut).run
            P.state).world.db.broadcasts
          rwa [world_settleTouch]
      | sweep retentionDays now =>
          by_cases hold : b.receivedAt < retentionCutoff retentionDays now
          · exact Or.inr (Or.inl ⟨retentionDays, now, rfl, hold⟩)
          · exact Or.inl (Table.mem_delete.mpr ⟨hb, by simpa using hold⟩)
  | step i x =>
      rcases api_step_cases hashToken config dateParse (P := P) i x with
        h | ⟨t, c, hmakes, h⟩
      · rw [h]
        exact Or.inl hb
      · rw [h]
        have hremoves := callRemoves_performApi x c P.state
        generalize (performApi x c P.state).2.world.db = db' at hremoves ⊢
        cases hremoves with
        | nothing _ hretains => exact Or.inl (hretains.broadcasts b hb)
        | withdrawn broadcastId =>
            by_cases hid : b.id = broadcastId
            · subst hid
              exact Or.inr (Or.inr ⟨i, x, t, rfl, hmakes⟩)
            · exact Or.inl (Table.mem_delete.mpr ⟨hb, by simpa using hid⟩)
        | endpointDeleted channelId endpointId => exact Or.inl hb

variable (hashToken config dateParse) in
/-- A Delivery that is gone went with its Broadcast or with its Endpoint. -/
theorem delivery_removed {b : BroadcastRow}
    (hb : b ∈ P.state.world.db.broadcasts) {d : DeliveryRow}
    (hd : d ∈ P.state.world.db.deliveries) (hown : d.broadcastId = b.id) :
    (∃ d' ∈ ((api hashToken config dateParse).apply P
        e).state.world.db.deliveries, d'.identity = d.identity) ∨
      Sweeps e b ∨ Performs P e (withdrawCall b.id) ∨
      ∃ channelId, Performs P e (deleteEndpointCall channelId d.endpointId) := by
  -- a Delivery goes with the rows that it refers to only
  have hcascade {p : BroadcastRow → Bool} (hp : p b = false) :
      d ∈ (P.state.world.db.deleteBroadcasts p).deliveries := by
    refine Table.mem_delete.mpr ⟨hd, decide_eq_false fun hgone => ?_⟩
    obtain ⟨b', hb', hid⟩ := List.mem_map.mp hgone
    obtain ⟨hb', hp'⟩ := Table.mem_select.mp hb'
    rw [Table.eq_of_key_eq _ hb' hb (hid.trans hown), hp] at hp'
    cases hp'
  cases e with
  | start t => exact Or.inl ⟨d, hd, rfl⟩
  | background event =>
      cases event with
      | settleTouch n carriedOut =>
          refine Or.inl ⟨d, ?_, rfl⟩
          change d ∈ ((Housekeeping.settleTouch n carriedOut).run
            P.state).world.db.deliveries
          rwa [world_settleTouch]
      | sweep retentionDays now =>
          by_cases hold : b.receivedAt < retentionCutoff retentionDays now
          · exact Or.inr (Or.inl ⟨retentionDays, now, rfl, hold⟩)
          · exact Or.inl ⟨d, hcascade (by simpa using hold), rfl⟩
  | step i x =>
      rcases api_step_cases hashToken config dateParse (P := P) i x with
        h | ⟨t, c, hmakes, h⟩
      · rw [h]
        exact Or.inl ⟨d, hd, rfl⟩
      · rw [h]
        have hremoves := callRemoves_performApi x c P.state
        generalize (performApi x c P.state).2.world.db = db' at hremoves ⊢
        cases hremoves with
        | nothing _ hretains =>
            obtain ⟨d', hd', hidentity⟩ := hretains.deliveries d hd
            exact Or.inl ⟨d', hd', hidentity.symm⟩
        | withdrawn broadcastId =>
            by_cases hid : b.id = broadcastId
            · subst hid
              exact Or.inr (Or.inr (Or.inl ⟨i, x, t, rfl, hmakes⟩))
            · exact Or.inl ⟨d, hcascade (by simpa using hid), rfl⟩
        | endpointDeleted channelId endpointId =>
            by_cases hid : d.endpointId = endpointId
            · subst hid
              exact Or.inr (Or.inr (Or.inr
                ⟨channelId, i, x, t, rfl, hmakes⟩))
            · refine Or.inl ⟨d, Table.mem_delete.mpr ⟨hd,
                decide_eq_false fun hgone => ?_⟩, rfl⟩
              obtain ⟨endpoint, hendpoint, hsame⟩ := List.mem_map.mp hgone
              have hselected := (Table.mem_select.mp hendpoint).2
              simp only [Bool.and_eq_true, decide_eq_true_eq] at hselected
              exact hid (hsame.symm.trans hselected.2)

end Events

end WebhookBroadcast
