import WebhookBroadcast.Ingest.Commits

/-!
# The fan-out snapshot

Every Delivery that is committed on the accept path goes to an Endpoint that the
snapshot of the same run has found on: enabled, not auto-disabled and of the
Channel of the Delivery.
-/

namespace WebhookBroadcast

open Interaction

/-- The call takes the snapshot of a Channel. -/
def TakesSnapshot (m : Made AcceptEffects Choice World) : Prop :=
  ∃ channelId, m.call =
    .inr (.query (.listEnabledEndpointsByChannel channelId))

/-- The Endpoint takes Deliveries. -/
def EndpointRow.On (e : EndpointRow) : Prop :=
  e.enabled = true ∧ e.autoDisabledAt = none

instance (e : EndpointRow) : Decidable e.On :=
  inferInstanceAs (Decidable (_ ∧ _))

/-- In this database the Delivery goes to an Endpoint of its Channel that is
on. -/
def Database.Targets (db : Database) (d : DeliveryRow) : Prop :=
  ∃ e, db.endpoints.find? d.endpointId = some e ∧
    e.channelId = d.channelId ∧ e.On

/-- The run has taken a snapshot when it commits a Delivery, and each that it
takes finds the Endpoint of the Delivery on. -/
def CommitsSnapshot (trace : List (Made AcceptEffects Choice World)) : Prop :=
  ∀ m ∈ trace, ∀ tx, m.call = .inr (.query (.commit tx)) →
    ∀ d ∈ tx.deliveries, (∃ s ∈ trace, TakesSnapshot s) ∧
      ∀ s ∈ trace, TakesSnapshot s → s.found.db.Targets d

/-- The call is neither a snapshot nor a commit. -/
def Aside : AcceptEffects.Call → Prop
  | .inr (.query (.listEnabledEndpointsByChannel _)) => False
  | .inr (.query (.commit _)) => False
  | _ => True

section Trace

variable {first rest trace : List (Made AcceptEffects Choice World)}

theorem not_takesSnapshot_of_aside {m : Made AcceptEffects Choice World}
    (h : Aside m.call) : ¬ TakesSnapshot m := by
  rintro ⟨channelId, hcall⟩
  rw [hcall] at h
  exact h

theorem CommitsSnapshot.of_aside (h : ∀ m ∈ trace, Aside m.call) :
    CommitsSnapshot trace := by
  intro m hm tx hcommit
  have haside := h m hm
  rw [hcommit] at haside
  exact haside.elim

theorem CommitsSnapshot.aside_append (hfirst : ∀ m ∈ first, Aside m.call)
    (hrest : CommitsSnapshot rest) : CommitsSnapshot (first ++ rest) := by
  intro m hm tx hcommit d hd
  rcases List.mem_append.mp hm with hm | hm
  · have haside := hfirst m hm
    rw [hcommit] at haside
    exact haside.elim
  · obtain ⟨⟨s, hs, htakes⟩, hall⟩ := hrest m hm tx hcommit d hd
    refine ⟨⟨s, List.mem_append_right _ hs, htakes⟩, fun s' hs' htakes' => ?_⟩
    rcases List.mem_append.mp hs' with hs' | hs'
    · exact absurd htakes' (not_takesSnapshot_of_aside (hfirst s' hs'))
    · exact hall s' hs' htakes'

theorem CommitsSnapshot.append_aside (hfirst : CommitsSnapshot first)
    (hrest : ∀ m ∈ rest, Aside m.call) : CommitsSnapshot (first ++ rest) := by
  intro m hm tx hcommit d hd
  rcases List.mem_append.mp hm with hm | hm
  · obtain ⟨⟨s, hs, htakes⟩, hall⟩ := hfirst m hm tx hcommit d hd
    refine ⟨⟨s, List.mem_append_left _ hs, htakes⟩, fun s' hs' htakes' => ?_⟩
    rcases List.mem_append.mp hs' with hs' | hs'
    · exact hall s' hs' htakes'
    · exact absurd htakes' (not_takesSnapshot_of_aside (hrest s' hs'))
  · have haside := hrest m hm
    rw [hcommit] at haside
    exact haside.elim

end Trace

/-! ## Programs -/

/-- Every run of the program commits what its snapshot says. -/
def Surveys {α : Type} (p : AcceptAction α) : Prop :=
  ∀ trace, p.Observes performAccept trace → CommitsSnapshot trace

namespace Surveys

variable {α β : Type}

theorem of_aside {p : AcceptAction α}
    (hp : p.Amid performAccept Aside fun _ => True) : Surveys p :=
  fun _ htrace => .of_aside (hp.observes htrace)

theorem aside_bind {p : AcceptAction α} {f : α → AcceptAction β}
    (hp : p.Amid performAccept Aside fun _ => True)
    (hf : ∀ a, Surveys (f a)) : Surveys (p >>= f) := by
  intro trace htrace
  rcases htrace.of_bind hp with hfirst | ⟨first, a, rest, rfl, hfirst, -, hrest⟩
  · exact .of_aside (hp.observes hfirst)
  · exact .aside_append (hp.observes hfirst) (hf a rest hrest)

theorem bind_aside {p : AcceptAction α} {f : α → AcceptAction β}
    (hp : Surveys p)
    (hf : ∀ a, (f a).Amid performAccept Aside fun _ => True) :
    Surveys (p >>= f) := by
  intro trace htrace
  rcases htrace.of_bind (Program.amid_trivial p) with
    hfirst | ⟨first, a, rest, rfl, hfirst, -, hrest⟩
  · exact hp trace hfirst
  · exact .append_aside (hp first hfirst) ((hf a).observes hrest)

/-- The transaction from its snapshot on. -/
theorem listEnabledEndpointsByChannel (broadcast : BroadcastRow)
    (now : Instant) :
    Surveys (ingestQuery
      (.listEnabledEndpointsByChannel broadcast.channelId) >>=
        commitSnapshot broadcast now) := by
  intro trace htrace
  rcases observes_ingestQuery htrace with rfl | ⟨x, w, rest, rfl, hrest⟩
  · exact .of_aside (by simp)
  · rcases hrest with rfl | ⟨enabledEndpoints, hresult, hrest⟩
    · intro m hm tx hcommit
      rw [List.mem_singleton.mp hm] at hcommit
      cases hcommit
    · let φ : AcceptEffects.Call → Prop
        | .inr (.query (.listEnabledEndpointsByChannel _)) => False
        | .inr (.query (.commit tx)) => ∀ d ∈ tx.deliveries,
            d.channelId = broadcast.channelId ∧
              d.endpointId ∈ enabledEndpoints.map EndpointRow.id
        | _ => True
      have hcalls : ∀ m ∈ rest, φ m.call :=
        (amid_commitSnapshot (φ := φ) (fun _ => trivial) (fun _ => trivial)
          broadcast now enabledEndpoints fun _ h d hd => (h d hd).2).observes
          hrest
      have hafter : ∀ s ∈ rest, ¬ TakesSnapshot s := by
        rintro s hs ⟨channelId, hcall⟩
        have hφ := hcalls s hs
        rw [hcall] at hφ
        exact hφ
      intro m hm tx hcommit d hd
      rcases List.mem_cons.mp hm with rfl | hm
      · cases hcommit
      · have hφ := hcalls m hm
        rw [hcommit] at hφ
        obtain ⟨hchannel, hendpoint⟩ := hφ d hd
        refine ⟨⟨_, List.mem_cons_self, _, rfl⟩, fun s hs htakes => ?_⟩
        rcases List.mem_cons.mp hs with rfl | hs
        · obtain ⟨e, he, hid⟩ := List.mem_map.mp hendpoint
          cases Except.ok.inj hresult
          rw [WebhookBroadcast.listEnabledEndpointsByChannel,
            Relational.Table.mem_select] at he
          simp only [Bool.and_eq_true, decide_eq_true_eq] at he
          refine ⟨e, ?_, he.2.1.1.trans hchannel.symm, he.2.1.2, he.2.2⟩
          exact w.db.endpoints.find?_eq_some_iff.mpr ⟨he.1, hid⟩
        · exact absurd htakes (hafter s hs)

theorem fanOutBroadcast (maxAttempts : ℕ) (input : FanOutBroadcastInput) :
    Surveys (fanOutBroadcast maxAttempts input) := by
  rw [fanOutBroadcast_eq, acceptBroadcast_eq]
  refine aside_bind (amid_requestIdOf (fun _ => trivial) input)
    fun requestId => bind_aside ?_ fun accepted => ?_
  · exact aside_bind (amid_statement trivial)
      fun broadcast => listEnabledEndpointsByChannel broadcast _
  · exact amid_enqueueAccepted (fun _ => trivial) (fun _ => trivial)
      (fun _ => trivial) _ _ _

theorem replayOf (maxAttempts : ℕ) (original : BroadcastRow) :
    Surveys (replayOf maxAttempts original) := by
  refine aside_bind (amid_action (fun _ => trivial) _) fun now => ?_
  refine aside_bind (amid_action (fun _ => trivial) _) fun id => ?_
  exact bind_aside (fanOutBroadcast _ _) fun _ => trivial

theorem replayBroadcast (maxAttempts : ℕ) (channelId broadcastId : Uuid) :
    Surveys (replayBroadcast maxAttempts channelId broadcastId) := by
  refine aside_bind (amid_statement trivial) fun channel => ?_
  cases channel with
  | none => exact of_aside trivial
  | some channel =>
      refine aside_bind (amid_statement trivial) fun original => ?_
      cases original with
      | none => exact of_aside trivial
      | some original => exact replayOf maxAttempts original

theorem acceptRequest (config : IngestRouteConfig) (channel : ChannelRow)
    (request : IngestRequest) :
    Surveys (acceptRequest config channel request) := by
  unfold WebhookBroadcast.acceptRequest
  split
  · exact of_aside trivial
  · split
    · exact of_aside trivial
    · exact of_aside trivial
    · refine aside_bind (amid_action (fun _ => trivial) _) fun id => ?_
      refine aside_bind (amid_action (fun _ => trivial) _) fun now => ?_
      exact bind_aside (fanOutBroadcast _ _) fun _ => trivial

theorem ingest (hashToken : String → String) (config : IngestRouteConfig)
    (slug : String) (request : IngestRequest) :
    Surveys (ingest hashToken config slug request) := by
  refine aside_bind (amid_statement trivial) fun channel => ?_
  cases channel with
  | none => exact of_aside trivial
  | some channel =>
      refine aside_bind (amid_checkIngestToken (fun _ _ => trivial) _ _ _)
        fun refused => ?_
      cases refused with
      | some response => exact of_aside trivial
      | none => exact acceptRequest config channel request

end Surveys

end WebhookBroadcast
