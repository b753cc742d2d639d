import WebhookBroadcast.Interaction.Embedding
import WebhookBroadcast.Lifecycle.History
import WebhookBroadcast.Retention.Removals

/-!
# Deliveries in the deployment

What the worker guarantees of a Delivery holds in the whole deployment.  Ingest,
replay, the admin routes, the guard and the runs of other Deliveries leave the
timeline alone, reopen it as an operator retry does, or end it with its
Broadcast or Endpoint.
-/

namespace WebhookBroadcast

open Interaction Relational Timeline

/-! ## The discipline -/

/-- The timeline evolves, with operator retries. -/
def Database.EvolvesTo (d : Uuid) (db db' : Database) : Prop :=
  Evolves Set.univ True (db.timeline? d) (db'.timeline? d)

/-- The commit is not that of a Delivery with this id. -/
def OtherIds (d : Uuid) (tx : Transaction) : Prop :=
  ∀ r ∈ tx.deliveries, r.id ≠ d

/-- The discipline of a Delivery among the calls of ingest and replay.  No
Delivery is created under its id: `crypto.randomUUID` does not repeat itself. -/
def acceptDiscipline (d : Uuid) : Discipline AcceptEffects Choice World where
  handler := performAccept
  permits _ c _ := ∀ tx, c = .inr (.query (.commit tx)) → OtherIds d tx
  invariant w := w.db.Consistent d
  rely w w' := w.db.EvolvesTo d w'.db
  guarantee w w' := w.db.EvolvesTo d w'.db

/-- The discipline of a Delivery in the deployment. -/
def apiDiscipline (d : Uuid) : Discipline ApiEffects ApiChoice Deployment where
  handler := performApi
  permits _ c _ := ∀ tx, c = commitCall tx → OtherIds d tx
  invariant D := D.world.db.Consistent d
  rely D D' := D.world.db.EvolvesTo d D'.world.db
  guarantee D D' := D.world.db.EvolvesTo d D'.world.db

theorem worker_extends (d : Uuid) :
    (Regime.any.discipline d).Extends (acceptDiscipline d) id id where
  answer _ _ _ := rfl
  state _ _ _ := rfl
  permits _ _ _ _ := Or.inl trivial
  invariant _ h := h
  rely _ _ h := h
  keeps _ _ _ _ hinv hchange := ⟨hinv, .change hchange⟩

theorem accept_extends (d : Uuid) :
    (acceptDiscipline d).Extends (apiDiscipline d) ApiChoice.toChoice
      Deployment.world where
  answer _ _ _ := rfl
  state _ _ _ := rfl
  permits _ _ _ h tx hc := h tx (congrArg Sum.inl hc)
  invariant _ h := h
  rely _ _ h := h
  keeps _ _ _ _ hinv hevolves := ⟨hinv, hevolves⟩

/-- A program of the worker ensures in the deployment what it ensures under its
own discipline. -/
theorem ensures_worker {d : Uuid} {α : Type}
    {post : Except Thrown α → World → Prop} {p : Action α} {D : Deployment}
    (hp : (Regime.any.discipline d).Ensures post p D.world) :
    (apiDiscipline d).Ensures (fun r t => post r t.world)
      ((p.inl (T := IngestEffects)).inl (T := AdminEffects)) D :=
  (accept_extends d).ensures ((worker_extends d).ensures hp)

/-! ## Calls of others -/

section Frames

variable {d : Uuid} {db db' : Database}

/-- The row and the log of the Delivery are as they were, or it is gone. -/
def Database.LeavesOrEnds (d : Uuid) (db db' : Database) : Prop :=
  db'.delivery? d = none ∨
    db'.delivery? d = db.delivery? d ∧ db'.attemptLog d = db.attemptLog d

theorem Database.LeavesOrEnds.keeps (h : db.LeavesOrEnds d db')
    (hdb : db.Consistent d) : db'.Consistent d ∧ db.EvolvesTo d db' := by
  rcases h with hnone | ⟨hrow, hlog⟩
  · refine ⟨.of_none hnone, ?_⟩
    rw [EvolvesTo, timeline?_eq_none_iff.mpr hnone]
    exact .vanish _
  · obtain ⟨hcons, hchange⟩ := hdb.frame hrow hlog Set.univ
    exact ⟨hcons, .change hchange⟩

theorem Database.LeavesOrEnds.of_eq (hdeliveries : db'.deliveries = db.deliveries)
    (hattempts : db'.attempts = db.attempts) : db.LeavesOrEnds d db' := by
  refine Or.inr ⟨?_, ?_⟩
  · rw [delivery?, delivery?, hdeliveries]
  · rw [attemptLog, attemptLog, hattempts]

theorem Database.LeavesOrEnds.refl (db : Database) : db.LeavesOrEnds d db :=
  .of_eq rfl rfl

/-- Deleting Deliveries takes their Attempts along and no others. -/
theorem leavesOrEnds_deleteDeliveries (db : Database) (p : DeliveryRow → Bool)
    (d : Uuid) : db.LeavesOrEnds d (db.deleteDeliveries p) := by
  have hfind : (db.deleteDeliveries p).delivery? d =
      (db.delivery? d).filter fun row => !p row := Table.find?_delete _ _ _
  cases hrow : db.delivery? d with
  | none =>
      refine Or.inl ?_
      rw [hfind, hrow, Option.filter_none]
  | some row =>
      rw [hrow, Option.filter_some] at hfind
      cases hp : p row with
      | true =>
          rw [hp] at hfind
          exact Or.inl hfind
      | false =>
          rw [hp] at hfind
          refine Or.inr ⟨hfind.trans hrow.symm, ?_⟩
          have hkept : d ∉ (db.deliveries.select p).map DeliveryRow.id := by
            intro hgone
            obtain ⟨other, hother, hid⟩ := List.mem_map.mp hgone
            obtain ⟨hother, hpo⟩ := Table.mem_select.mp hother
            have hsame : other = row := Table.eq_of_key_eq _ hother
              (Database.mem_of_delivery? hrow)
              (hid.trans (Database.id_of_delivery? hrow).symm)
            rw [hsame, hp] at hpo
            cases hpo
          rw [Database.attemptLog, Database.attemptLog, Table.select,
            Table.select]
          change ((db.attempts.rows.filter _).filter _) = _
          rw [List.filter_filter]
          apply List.filter_congr
          intro a ha
          by_cases hid : a.deliveryId = d
          · simp [hid, hkept]
          · simp [hid]

theorem leavesOrEnds_deleteEndpoint (db : Database) (channelId id d : Uuid) :
    db.LeavesOrEnds d (deleteEndpoint db channelId id).2 :=
  leavesOrEnds_deleteDeliveries db _ d

theorem leavesOrEnds_deleteBroadcasts (db : Database) (p : BroadcastRow → Bool)
    (d : Uuid) : db.LeavesOrEnds d (db.deleteBroadcasts p) :=
  db.delivery?_deleteBroadcasts p d

/-- A commit of other Deliveries. -/
theorem leavesOrEnds_commit {tx : Transaction} (htx : OtherIds d tx)
    (db : Database) : db.LeavesOrEnds d (tx.commit db) := by
  by_cases h : tx.check db = .ok ()
  · have hgrows := Transaction.grows_commit h
    refine Or.inr ⟨?_, hgrows.attemptLog d⟩
    rcases hgrows.delivery?_cases d with hsame | ⟨-, row, hrow, hid, -⟩
    · exact hsame
    · exact absurd hid (htx row hrow)
  · rw [Transaction.commit_of_check_ne h]
    exact .refl db

theorem SameBelowChannels.leavesOrEnds (h : db.SameBelowChannels db') :
    db.LeavesOrEnds d db' := .of_eq h.deliveries h.attempts

end Frames

theorem attempts_insertEndpoint (db : Database) (input : EndpointRow) :
    (insertEndpoint db input).2.attempts = db.attempts := by
  unfold insertEndpoint
  split
  next db' h =>
    unfold Database.insertEndpoint? at h
    split at h
    next =>
      split at h
      · cases h
      next =>
        cases h
        rfl
    next => cases h
  next => split <;> rfl

theorem leavesOrEnds_statement (statement : Statement) (w : World) (d : Uuid) :
    w.db.LeavesOrEnds d (statement.run w).db := by
  cases statement with
  | createChannel body id now =>
      exact SameBelowChannels.leavesOrEnds (sameBelowChannels_insertChannel _ _)
  | patchChannel id body now =>
      exact SameBelowChannels.leavesOrEnds
        (sameBelowChannels_updateChannel _ _ _ _)
  | deleteChannel id now =>
      exact SameBelowChannels.leavesOrEnds
        (sameBelowChannels_softDeleteChannel _ _ _)
  | createEndpoint body id channelId now =>
      exact .of_eq (tables_insertEndpoint w.db _).2 (attempts_insertEndpoint _ _)
  | patchEndpoint channelId id body now =>
      obtain ⟨-, hdeliveries, hattempts⟩ :=
        tables_updateEndpoint w.db channelId id (body.toPatch now)
      exact .of_eq hdeliveries hattempts
  | deleteEndpoint channelId id =>
      exact leavesOrEnds_deleteEndpoint w.db channelId id d
  | prune cutoff => exact leavesOrEnds_deleteBroadcasts w.db _ d

theorem leavesOrEnds_insertChannelToken (D : Deployment)
    (input : ChannelTokenRow) (label : ChannelTokenLabel) (d : Uuid) :
    D.world.db.LeavesOrEnds d
      (D.insertChannelToken input label).2.world.db := by
  simp only [Deployment.insertChannelToken]
  split
  next row h =>
    simp only [WebhookBroadcast.insertChannelToken] at h ⊢
    split at h
    next db' hins =>
      unfold Database.insertChannelToken? at hins
      split at hins
      next =>
        split at hins
        · cases hins
        · cases hins
          exact .of_eq rfl rfl
      next => cases hins
    next => cases h
  · exact .refl _

/-- The call does not write the Delivery, unless it is an operator retry. -/
def Foreign (d : Uuid) : ApiEffects.Call → Prop
  | .inl (.inl c) => c.writes ≠ some d ∨
      ∃ updatedAt, c = .query (.retryDeadLetteredDelivery d updatedAt)
  | _ => True

section Calls

variable {d : Uuid}

/-- A call that does not write the Delivery leaves it alone or deletes it. -/
theorem leavesOrEnds_performApi {c : ApiEffects.Call} {D : Deployment}
    (hwrites : ∀ c', c = .inl (.inl c') → c'.writes ≠ some d)
    (hcommit : ∀ tx, c = commitCall tx → OtherIds d tx) (x : ApiChoice) :
    D.world.db.LeavesOrEnds d (performApi x c D).2.world.db := by
  cases c with
  | inl c =>
      cases c with
      | inl c => exact Or.inr (perform_frame (hwrites c rfl) x.toChoice D.world)
      | inr c =>
          have hcases : (performApi x (.inl (.inr c)) D).2.world.db =
                D.world.db ∨ ∃ q, c = .query q ∧
              (performApi x (.inl (.inr c)) D).2.world.db =
                (q.run D.world.db).2 := performIngest_db x.toChoice c D.world
          rcases hcases with h | ⟨q, rfl, h⟩
          · rw [h]
            exact .refl _
          · rw [h]
            cases q with
            | commit tx => exact leavesOrEnds_commit (hcommit tx rfl) _
            | deleteBroadcastById id =>
                exact leavesOrEnds_deleteBroadcasts _ _ d
            | _ => exact .refl _
  | inr c =>
      cases c with
      | touchOperatorTokenLastUsed tokenId at_ => exact .refl _
      | randomBytes => exact .refl _
      | query q =>
          have hcases : (performApi x (.inr (.query q)) D).2 = D ∨
              (performApi x (.inr (.query q)) D).2 = (q.run D).2 := by
            rcases performApi_query_cases x q D with ⟨h, -⟩ | ⟨e, -, h⟩
            · exact Or.inr (congrArg Prod.snd h)
            · exact h
          rcases hcases with h | h
          · rw [h]
            exact .refl _
          · rw [h]
            cases q with
            | insertChannelToken input label =>
                exact leavesOrEnds_insertChannelToken D input label d
            | write statement =>
                exact leavesOrEnds_statement statement.val D.world d
            | _ => exact .of_eq rfl rfl

/-- A foreign call keeps the discipline of the Delivery. -/
theorem keeps_foreign {c : ApiEffects.Call} (hc : Foreign d c) {D : Deployment}
    (hD : D.world.db.Consistent d)
    (hcommit : ∀ tx, c = commitCall tx → OtherIds d tx) (x : ApiChoice) :
    (performApi x c D).2.world.db.Consistent d ∧
      D.world.db.EvolvesTo d (performApi x c D).2.world.db := by
  by_cases hretry : ∃ updatedAt, c =
      .inl (.inl (.query (.retryDeadLetteredDelivery d updatedAt)))
  · obtain ⟨updatedAt, rfl⟩ := hretry
    have hcases : (performApi x (.inl (.inl (.query
          (.retryDeadLetteredDelivery d updatedAt)))) D).2.world.db =
            D.world.db ∨
        (performApi x (.inl (.inl (.query
          (.retryDeadLetteredDelivery d updatedAt)))) D).2.world.db =
            (retryDeadLetteredDelivery D.world.db d updatedAt).2 :=
      perform_query_db x.toChoice _ D.world
    rcases hcases with h | h
    · rw [h]
      exact ⟨hD, .change (.stay _)⟩
    · rw [h]
      exact ⟨hD.moveStatus, evolves_retryDeadLetteredDelivery trivial⟩
  · refine (leavesOrEnds_performApi ?_ hcommit x).keeps hD
    rintro c' rfl
    rcases hc with hc | ⟨updatedAt, rfl⟩
    · exact hc
    · exact absurd ⟨updatedAt, rfl⟩ hretry

end Calls

end WebhookBroadcast
