import WebhookBroadcast.Service.Changes

/-!
# A Delivery belongs to the Channel of its Endpoint

Deliveries carry a Channel of their own besides that of their Endpoint, and no
constraint ties the two together.  They agree because an Endpoint never changes
its Channel and a Delivery gets the Channel whose snapshot it comes from.  In
between the Endpoint may be deleted; that nobody else gets its id is what makes
the argument go through, so the created ids are required to be different.
-/

namespace WebhookBroadcast

open Interaction Relational

/-- The id and Channel of the Endpoint that an event asks for. -/
def askedEndpoint : ServiceEvent → List (Uuid × Uuid)
  | .background (.createEndpoint _ id channelId _) => [(id, channelId)]
  | _ => []

def askedEndpoints (history : ServiceHistory) : List (Uuid × Uuid) :=
  history.flatMap askedEndpoint

/-- No two Endpoints are asked for under one id, as `randomUUID` promises. -/
def FreshEndpoints (history : ServiceHistory) : Prop :=
  ((askedEndpoints history).map Prod.fst).Nodup

instance (history : ServiceHistory) : Decidable (FreshEndpoints history) :=
  inferInstanceAs (Decidable (List.Nodup _))

theorem askedEndpoints_append (first second : ServiceHistory) :
    askedEndpoints (first ++ second) =
      askedEndpoints first ++ askedEndpoints second :=
  List.flatMap_append

/-- The Channel that an Endpoint has been asked for is unique. -/
theorem FreshEndpoints.unique {history : ServiceHistory}
    (h : FreshEndpoints history) {id channelId channelId' : Uuid}
    (hid : (id, channelId) ∈ askedEndpoints history)
    (hid' : (id, channelId') ∈ askedEndpoints history) :
    channelId = channelId' :=
  congrArg Prod.snd (List.inj_on_of_nodup_map h hid hid' rfl)

/-! ## Endpoints -/

theorem EndpointChange.asked {event : ServiceEvent} {id : Uuid}
    {before after : Option EndpointRow}
    (h : EndpointChange event id before after) {e : EndpointRow}
    (he : e ∈ after) :
    (∃ old ∈ before, e.channelId = old.channelId) ∨
      (id, e.channelId) ∈ askedEndpoint event := by
  cases h with
  | kept row => exact Or.inl ⟨e, he, rfl⟩
  | created h =>
      cases he
      rw [h]
      exact Or.inr List.mem_cons_self
  | patched h row =>
      cases he
      exact Or.inl ⟨row, rfl, rfl⟩
  | @stamped row h now =>
      cases he
      exact Or.inl ⟨row, rfl, rfl⟩
  | deleted row => cases he

section Serve

variable {dateParse : String → Option Instant} {w : World}

/-- Every Endpoint has been asked for, with its Channel. -/
theorem asked_of_endpoint (hw : w.db.endpoints.rows = [])
    (history : ServiceHistory) :
    ∀ e ∈ (serve dateParse w history).state.db.endpoints,
      (e.id, e.channelId) ∈ askedEndpoints history := by
  induction history using List.reverseRecOn with
  | nil =>
      intro e he
      have hnone : e ∈ w.db.endpoints.rows := he
      rw [hw] at hnone
      cases hnone
  | append_singleton history event ih =>
      intro e he
      rw [serve_concat] at he
      have hchange := endpointChange dateParse (serve dateParse w history)
        event e.id
      rw [(Table.find?_eq_some_iff _).mpr ⟨he, rfl⟩] at hchange
      rw [askedEndpoints_append, List.mem_append]
      rcases hchange.asked rfl with ⟨old, hold, hchannel⟩ | hasked
      · left
        have hasked := ih old (Table.mem_of_find? hold)
        rwa [Table.key_of_find? hold, ← hchannel] at hasked
      · right
        simpa [askedEndpoints] using hasked

/-! ## Deliveries -/

/-- The Endpoint of every Delivery has been asked for, with the Channel of the
Delivery. -/
theorem asked_of_delivery (hw : w.db.endpoints.rows = [])
    (history : ServiceHistory) :
    ∀ d ∈ (serve dateParse w history).state.db.deliveries,
      (d.endpointId, d.channelId) ∈ askedEndpoints history := by
  induction history using List.reverseRecOn with
  | nil =>
      intro d hd
      obtain ⟨e, he, -⟩ := w.db.delivery_endpoint d hd
      rw [Table.mem_def, hw] at he
      cases he
  | append_singleton history event ih =>
      intro d hd
      rw [serve_concat] at hd
      rw [askedEndpoints_append, List.mem_append]
      left
      rcases deliveryChange dateParse _ _ hd with
        ⟨old, hold, hidentity⟩ | ⟨-, i, hcommit⟩
      · simp only [DeliveryRow.identity, Prod.mk.injEq] at hidentity
        obtain ⟨-, -, hendpoint, hchannel⟩ := hidentity
        rw [hendpoint, hchannel]
        exact ih old hold
      · obtain ⟨⟨s, hs, htakes⟩, htargets⟩ := hcommit.surveyed
        obtain ⟨e, he, hchannel, -⟩ := htargets s hs htakes
        obtain ⟨before, later, task, rfl, -, hfound⟩ :=
          (service dateParse).makes_of_mem_madeBy hs
        rw [hfound] at he
        -- the snapshot has found the Endpoint in an earlier state
        have hbefore : ∀ e ∈ (serve dateParse w before).state.db.endpoints,
            (e.id, e.channelId) ∈ askedEndpoints before :=
          asked_of_endpoint hw before
        have hasked := hbefore e (Table.mem_of_find? he)
        rw [Table.key_of_find? he, hchannel] at hasked
        rw [askedEndpoints_append]
        exact List.mem_append_left _ hasked

end Serve

/-- Every Delivery has the Channel of its Endpoint. -/
def Database.DeliveriesOwned (db : Database) : Prop :=
  ∀ d ∈ db.deliveries, ∀ e ∈ db.endpoints, e.id = d.endpointId →
    e.channelId = d.channelId

theorem deliveriesOwned_serve {dateParse : String → Option Instant}
    {w : World} (hw : w.db.endpoints.rows = []) {history : ServiceHistory}
    (hfresh : FreshEndpoints history) :
    (serve dateParse w history).state.db.DeliveriesOwned := by
  intro d hd e he hid
  have hendpoint := asked_of_endpoint hw history e he
  rw [hid] at hendpoint
  exact hfresh.unique hendpoint (asked_of_delivery hw history d hd)

end WebhookBroadcast
