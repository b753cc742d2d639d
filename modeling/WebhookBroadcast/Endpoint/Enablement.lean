import WebhookBroadcast.Service.Changes

/-!
# Auto-disabled means off

An auto-disabled Endpoint is off until an operator says otherwise: in every
history of the service `autoDisabledAt` implies that the Endpoint is not
enabled, a stamp stays as it is until a PATCH enables the Endpoint or the
Endpoint goes, and no run creates a Delivery to an Endpoint that its snapshot
has found off.
-/

namespace WebhookBroadcast

open Interaction Relational

/-- No Endpoint is both auto-disabled and enabled. -/
def Database.OffWhenAutoDisabled (db : Database) : Prop :=
  ∀ e ∈ db.endpoints, e.autoDisabledAt ≠ none → e.enabled = false

/-- From one database to the next a stamp stays, or goes with its Endpoint, or
is cleared by a PATCH with `enabled: true`. -/
def KeepsStamps (event : ServiceEvent) (db db' : Database) : Prop :=
  ∀ e ∈ db.endpoints, ∀ stamp, e.autoDisabledAt = some stamp →
    db'.endpoints.find? e.id = none ∨
    ∃ e', db'.endpoints.find? e.id = some e' ∧
      (e'.autoDisabledAt = some stamp ∨
        e'.autoDisabledAt = none ∧ ∃ channelId body now,
          event = .background (.patchEndpoint channelId e.id body now) ∧
            body.enabled = some true)

/-- The next step of the run creates no Delivery to an Endpoint that a snapshot
of the run has found off. -/
def SkipsDisabled (dateParse : String → Option Instant) (w : World)
    (history : ServiceHistory) : Prop :=
  ∀ i x, ∀ s ∈ (service dateParse).madeBy i (Pool.idle w) history,
    TakesSnapshot s → ∀ e ∈ s.found.db.endpoints, ¬ e.On →
      ∀ d ∈ (serve dateParse w (history ++ [.step i x])).state.db.deliveries,
        (serve dateParse w history).state.db.delivery? d.id = none →
          d.endpointId ≠ e.id

/-! ## One event -/

/-- The row has no stamp, or is not enabled. -/
def EndpointRow.Coherent (e : EndpointRow) : Prop :=
  e.autoDisabledAt ≠ none → e.enabled = false

namespace EndpointChange

variable {event : ServiceEvent} {id : Uuid}

theorem coherent {before after : Option EndpointRow}
    (h : EndpointChange event id before after)
    (hbefore : ∀ e ∈ before, e.Coherent) : ∀ e ∈ after, e.Coherent := by
  cases h with
  | kept row => exact hbefore
  | created h =>
      rintro _ ⟨⟩ hstamp
      exact absurd rfl hstamp
  | @patched channelId body now h row =>
      rintro _ ⟨⟩ hstamp
      have hrow : row.Coherent := hbefore row rfl
      simp only [EndpointPatch.set, EndpointUpdate.toPatch] at hstamp ⊢
      -- the body enables the Endpoint, disables it or says nothing about it
      cases henabled : body.enabled with
      | none => exact hrow (by simpa [henabled] using hstamp)
      | some enabled =>
          cases enabled with
          | true => exact absurd (by simp [henabled]) hstamp
          | false => rfl
  | stamped h now =>
      rintro _ ⟨⟩ -
      rfl
  | deleted row =>
      rintro _ ⟨⟩

theorem stamp {e : EndpointRow} {after : Option EndpointRow}
    (h : EndpointChange event id (some e) after) {stamp : Instant}
    (hstamp : e.autoDisabledAt = some stamp) :
    after = none ∨ ∃ e', after = some e' ∧
      (e'.autoDisabledAt = some stamp ∨
        e'.autoDisabledAt = none ∧ ∃ channelId body now,
          event = .background (.patchEndpoint channelId id body now) ∧
            body.enabled = some true) := by
  cases h with
  | kept row => exact Or.inr ⟨e, rfl, Or.inl hstamp⟩
  | @patched channelId body now h row =>
      refine Or.inr ⟨_, rfl, ?_⟩
      by_cases henabled : body.enabled = some true
      · refine Or.inr ⟨?_, channelId, body, now, h, henabled⟩
        simp [EndpointPatch.set, EndpointUpdate.toPatch, henabled]
      · left
        simp [EndpointPatch.set, EndpointUpdate.toPatch, henabled, hstamp]
  | stamped hnone now =>
      rw [hstamp] at hnone
      cases hnone
  | deleted row => exact Or.inl rfl

end EndpointChange

variable {dateParse : String → Option Instant}

theorem offWhenAutoDisabled_iff {db : Database} :
    db.OffWhenAutoDisabled ↔
      ∀ id, ∀ e ∈ db.endpoints.find? id, e.Coherent := by
  constructor
  · exact fun h id e he => h e (Table.mem_of_find? he)
  · exact fun h e he => h e.id e (db.endpoints.find?_eq_some_iff.mpr ⟨he, rfl⟩)

theorem offWhenAutoDisabled_apply {P : ServicePool}
    (h : P.state.db.OffWhenAutoDisabled) (event : ServiceEvent) :
    ((service dateParse).apply P event).state.db.OffWhenAutoDisabled := by
  rw [offWhenAutoDisabled_iff] at h ⊢
  exact fun id => (endpointChange dateParse P event id).coherent (h id)

theorem keepsStamps_apply (P : ServicePool) (event : ServiceEvent) :
    KeepsStamps event P.state.db
      ((service dateParse).apply P event).state.db := by
  intro e he stamp hstamp
  have hchange := endpointChange dateParse P event e.id
  rw [P.state.db.endpoints.find?_eq_some_iff.mpr ⟨he, rfl⟩] at hchange
  exact hchange.stamp hstamp

/-! ## All histories -/

theorem offWhenAutoDisabled_serve {w : World}
    (hw : w.db.OffWhenAutoDisabled) (history : ServiceHistory) :
    (serve dateParse w history).state.db.OffWhenAutoDisabled := by
  induction history using List.reverseRecOn with
  | nil => exact hw
  | append_singleton history event ih =>
      rw [serve_concat]
      exact offWhenAutoDisabled_apply ih event

theorem skipsDisabled_serve (w : World) (history : ServiceHistory) :
    SkipsDisabled dateParse w history := by
  intro i x s hs htakes e he hoff d hd hnew heq
  rw [serve_concat] at hd
  rcases deliveryChange dateParse _ _ hd with
    ⟨old, hold, hidentity⟩ | ⟨-, j, hcommit⟩
  · have hid : d.id = old.id := congrArg Prod.fst hidentity
    rw [hid] at hnew
    exact (Table.find?_eq_none_iff _).mp hnew old hold rfl
  · obtain rfl : i = j := by
      obtain ⟨_, _, _, hevent, -⟩ := hcommit
      cases hevent
      rfl
    obtain ⟨e', he', -, hon⟩ := hcommit.surveyed.2 s hs htakes
    obtain rfl : e = e' := s.found.db.endpoints.eq_of_key_eq he
      (Table.mem_of_find? he') (heq.symm.trans (Table.key_of_find? he').symm)
    exact hoff hon

/-- In every history that begins without Endpoints, auto-disabled means off
until an operator says otherwise. -/
theorem autoDisabled_means_off (dateParse : String → Option Instant)
    {w : World} (hw : w.db.endpoints.rows = []) (history : ServiceHistory) :
    (serve dateParse w history).state.db.OffWhenAutoDisabled ∧
      (∀ event, KeepsStamps event (serve dateParse w history).state.db
        (serve dateParse w (history ++ [event])).state.db) ∧
      SkipsDisabled dateParse w history := by
  refine ⟨offWhenAutoDisabled_serve ?_ history, fun event => ?_,
    skipsDisabled_serve w history⟩
  · intro e he
    rw [Table.mem_def, hw] at he
    cases he
  · rw [serve_concat]
    exact keepsStamps_apply _ event

/-- A Channel without Endpoints. -/
def channelWorld : World where
  db := .withEndpoints ⟨0, "orders", none, true, [], false, none, none, 0, 0⟩ []
  jobs := fun _ => none

/-- Steps of one run at which no call fails and the remote refuses for good. -/
def refusedSteps (i n : ℕ) : ServiceHistory :=
  List.replicate n (.step i { uuid := 8, reply := .response 400 none })

/-- The only Delivery to a new Endpoint fails, which disables the Endpoint, and
another Broadcast is fanned out. -/
def disabledMidTraffic : ServiceHistory :=
  [.background (.createEndpoint { url := "https://a.example" } 1 0 0),
    .start (.fanOut 3 ⟨⟨7, 0, 0, "text/plain", [], .empty⟩, some 5⟩)] ++
  refusedSteps 0 5 ++
  [.start (.process ⟨⟨1000, none, none, none, some 0⟩, 8⟩)] ++
  refusedSteps 1 13 ++
  [.start (.fanOut 3 ⟨⟨9, 0, 0, "text/plain", [], .empty⟩, some 5⟩)] ++
  refusedSteps 2 3

theorem autoDisabled_means_off_disabledMidTraffic :
    let P := serve (fun _ => none) channelWorld disabledMidTraffic
    P.state.db.endpoints.rows.map EndpointRow.autoDisabledAt = [some 0] ∧
      P.state.db.broadcasts.rows.length = 2 ∧
      P.state.db.deliveries.rows.length = 1 ∧
      P.state.db.OffWhenAutoDisabled :=
  ⟨by decide, by decide, by decide, (autoDisabled_means_off (fun _ => none)
    (w := channelWorld) rfl disabledMidTraffic).1⟩

end WebhookBroadcast
