import WebhookBroadcast.Credentials.ClosedChannels
import WebhookBroadcast.Ingest.BodyLimit
import WebhookBroadcast.Interaction.Monitor

/-!
# What a run commits and withdraws

A run that accepts a Broadcast has had its commit acknowledged and has not
withdrawn it.  A run that withdraws a Broadcast has had the commit of this very
Broadcast acknowledged, and accepts nothing.  A Broadcast is committed with
Deliveries of its own only.
-/

namespace WebhookBroadcast

open Interaction

/-- What a run has had acknowledged, and whether it has sent a compensating
deletion. -/
structure Commitments where
  committed : List Transaction
  withdrawn : Bool

namespace Commitments

def none : Commitments := ⟨[], false⟩

def add (tx : Transaction) (s : Commitments) : Commitments :=
  { s with committed := tx :: s.committed }

end Commitments

/-- The monitor of a run that may only withdraw what it has committed. -/
def commitments : Monitor AcceptEffects Commitments where
  next
    | .inr (.query (.commit tx)), .ok (), s => s.add tx
    | .inr (.query (.deleteBroadcastById _)), _, s => { s with withdrawn := true }
    | _, _, s => s
  allows
    | _, .inr (.query (.commit tx)) => tx.Own
    | s, .inr (.query (.deleteBroadcastById id)) =>
        ∃ tx ∈ s.committed, tx.broadcast.id = id
    | _, _ => True

section Rules

variable {α : Type} {post : Commitments → Except Thrown α → Prop}
  {s : Commitments}

theorem ignores_inl (c : Call) : commitments.Ignores (.inl c) :=
  ⟨fun _ => trivial, fun _ _ => rfl⟩

theorem ignores_addBulk (jobs : List BulkJob) :
    commitments.Ignores (.inr (.addBulk jobs)) :=
  ⟨fun _ => trivial, fun _ _ => rfl⟩

/-- Only commits and deletions of Broadcasts matter. -/
theorem ignores_query {q : IngestQuery} (hcommit : ∀ tx, q ≠ .commit tx)
    (hdelete : ∀ id, q ≠ .deleteBroadcastById id) :
    commitments.Ignores (.inr (.query q)) := by
  cases q with
  | commit tx => exact absurd rfl (hcommit tx)
  | deleteBroadcastById id => exact absurd rfl (hdelete id)
  | _ => exact ⟨fun _ => trivial, fun _ _ => rfl⟩

theorem accepts_commit {tx : Transaction} {f : Unit → AcceptAction α}
    (hown : tx.Own) (hok : commitments.Accepts performAccept post (f ()) (s.add tx))
    (herror : ∀ e, post s (.error e)) :
    commitments.Accepts performAccept post
      (ingestQuery (.commit tx) >>= f) s := by
  refine ⟨hown, fun x w => ?_⟩
  rcases performAccept_query_cases x (.commit tx) w with
    ⟨result, -, hrun⟩ | ⟨e, t, hrun, -⟩
  · rw [hrun]
    exact hok
  · rw [hrun]
    exact herror _

theorem accepts_withdraw {id : Uuid} {f : Bool → AcceptAction α}
    (hid : ∃ tx ∈ s.committed, tx.broadcast.id = id)
    (hok : ∀ deleted, commitments.Accepts performAccept post (f deleted)
      { s with withdrawn := true })
    (herror : ∀ e, post { s with withdrawn := true } (.error e)) :
    commitments.Accepts performAccept post
      (ingestQuery (.deleteBroadcastById id) >>= f) s := by
  refine ⟨hid, fun x w => ?_⟩
  rcases performAccept_query_cases x (.deleteBroadcastById id) w with
    ⟨result, -, hrun⟩ | ⟨e, t, hrun, -⟩
  · rw [hrun]
    exact hok result
  · rw [hrun]
    exact herror _

end Rules

/-! ## Fan-out -/

/-- If there is a value, nothing was withdrawn and a Broadcast was committed
that it names. -/
def Stands {α : Type} (broadcastId? : α → Option Uuid) (s : Commitments)
    (r : Except Thrown α) : Prop :=
  ∀ a, r = .ok a → ∀ id, broadcastId? a = some id →
    s.withdrawn = false ∧ ∃ tx ∈ s.committed, tx.broadcast.id = id

theorem stands_error {α : Type} {broadcastId? : α → Option Uuid}
    {s : Commitments} (e : Thrown) : Stands broadcastId? s (.error e) := by
  intro a h
  cases h

theorem accepts_enqueueAccepted (maxAttempts : ℕ) (requestId : Uuid)
    (tx : Transaction) :
    commitments.Accepts performAccept
      (Stands fun result => some result.broadcast.id)
      (enqueueAccepted maxAttempts requestId (tx.broadcast, tx.deliveries))
      (Commitments.none.add tx) := by
  have hstands (result : FanOutBroadcastResult)
      (hresult : result.broadcast = tx.broadcast) :
      Stands (fun result => some result.broadcast.id)
        (Commitments.none.add tx) (.ok result) := by
    intro _ h id hid
    cases h
    cases hid
    exact ⟨rfl, tx, List.mem_cons_self, by rw [hresult]⟩
  change Monitor.Accepts _ _ _ (if tx.deliveries.length = 0 then _ else _) _
  split
  · exact hstands _ rfl
  · refine Monitor.accepts_seq ((amid_enqueueBulk ignores_inl ignores_addBulk _
      _).settle fun _ _ => trivial) (fun enqueued => ?_) stands_error
    cases enqueued with
    | ok _ => exact hstands _ rfl
    | error e =>
        exact accepts_withdraw ⟨tx, List.mem_cons_self, rfl⟩
          (fun _ => stands_error _) stands_error

/-- The Deliveries of the snapshot are those of the Broadcast. -/
theorem amid_snapshot (broadcast : BroadcastRow)
    (enabledEndpoints : List EndpointRow) (now : Instant) :
    (if enabledEndpoints.length > 0 then
      createDeliveriesForBroadcast broadcast
        (enabledEndpoints.map EndpointRow.id) now
    else pure [] : AcceptAction (List DeliveryRow)).Amid performAccept
      commitments.Ignores fun r => ∀ rows, r = .ok rows →
        Transaction.Own ⟨broadcast, rows⟩ := by
  split
  · refine (amid_createDeliveriesForBroadcast ignores_inl
      (fun tx => ignores_query nofun nofun) _ _ _).consequence
        (fun _ h => h) fun r hr rows hrows d hd => ?_
    exact (hr rows hrows d hd).1
  · rintro _ ⟨⟩
    simp [Transaction.Own]

theorem accepts_fanOutBroadcast (maxAttempts : ℕ)
    (input : FanOutBroadcastInput) :
    commitments.Accepts performAccept
      (Stands fun result => some result.broadcast.id)
      (fanOutBroadcast maxAttempts input) .none := by
  rw [fanOutBroadcast_eq, acceptBroadcast_eq]
  refine Monitor.accepts_seq (amid_requestIdOf ignores_inl input)
    (fun requestId => ?_) stands_error
  rw [Program.bind_assoc]
  refine Monitor.accepts_seq (amid_statement (ignores_query nofun nofun))
    (fun broadcast => ?_) stands_error
  rw [Program.bind_assoc]
  refine Monitor.accepts_seq (amid_statement (ignores_query nofun nofun))
    (fun enabledEndpoints => ?_) stands_error
  unfold commitSnapshot
  rw [Program.bind_assoc]
  refine (Monitor.accepts_of_amid (amid_snapshot broadcast enabledEndpoints
    input.broadcast.receivedAt) _).bind (fun deliveries t h => ?_)
    fun e _ _ => stands_error e
  obtain ⟨rfl, hown⟩ := h
  rw [Program.bind_assoc]
  exact accepts_commit (hown deliveries rfl) (accepts_enqueueAccepted
    maxAttempts requestId ⟨broadcast, deliveries⟩) stands_error

/-! ## The two routes -/

/-- The value of a sequence names a Broadcast only where that of its first part
does. -/
theorem Stands.map {α β : Type} {first? : α → Option Uuid}
    {second? : β → Option Uuid} {s : Commitments} {a : α} {b : β}
    (h : Stands first? s (.ok a)) (hsame : second? b = first? a) :
    Stands second? s (.ok b) := by
  intro _ hb id hid
  cases hb
  exact h a rfl id (hsame ▸ hid)

theorem stands_of_none {α : Type} {broadcastId? : α → Option Uuid}
    {s : Commitments} {a : α} (h : broadcastId? a = none) :
    Stands broadcastId? s (.ok a) := by
  intro _ ha id hid
  cases ha
  rw [h] at hid
  cases hid

/-- The Broadcast that a response says was accepted. -/
def AcceptResponse.acceptedId? (response : AcceptResponse) : Option Uuid :=
  match response.body with
  | .accepted id => some id
  | .error _ _ => none

def IngestOutcome.acceptedId? : IngestOutcome → Option Uuid
  | responded response => response.acceptedId?
  | threw _ => none

theorem accepts_acceptRequest (config : IngestRouteConfig)
    (channel : ChannelRow) (request : IngestRequest) :
    commitments.Accepts performAccept (Stands IngestOutcome.acceptedId?)
      (acceptRequest config channel request) .none := by
  unfold acceptRequest
  split
  · exact stands_of_none rfl
  · split
    · exact stands_of_none rfl
    · exact stands_of_none rfl
    · -- the id and the time are drawn before the fan-out
      refine ⟨trivial, fun x w => ⟨trivial, fun y v => ?_⟩⟩
      exact (accepts_fanOutBroadcast config.maxAttempts _).bind
        (fun result _ h => h.map rfl) fun e _ _ => stands_error e

theorem everyCall_checkIngestToken (hashToken : String → String)
    (channel : ChannelRow) (request : IngestRequest) :
    (checkIngestToken hashToken channel request).EveryCall fun c _ =>
      commitments.Ignores c := by
  unfold checkIngestToken
  split
  · trivial
  · split
    · trivial
    · refine ⟨ignores_query nofun nofun, ?_⟩
      rintro (e | channelToken)
      · trivial
      · cases channelToken <;> trivial

theorem accepts_ingest (hashToken : String → String)
    (config : IngestRouteConfig) (slug : String) (request : IngestRequest) :
    commitments.Accepts performAccept (Stands IngestOutcome.acceptedId?)
      (ingest hashToken config slug request) .none := by
  refine Monitor.accepts_seq (amid_statement (ignores_query nofun nofun))
    (fun channel => ?_) stands_error
  cases channel with
  | none => exact stands_of_none rfl
  | some channel =>
      have hcheck := Monitor.accepts_of_every (h := performAccept)
        (everyCall_checkIngestToken hashToken channel request)
        (everyEnd_checkIngestToken hashToken channel request) .none
      refine hcheck.bind (fun refused s h => ?_) fun e _ _ => stands_error e
      obtain ⟨rfl, hrefused⟩ := h
      cases refused with
      | some response =>
          obtain ⟨message, rfl⟩ := hrefused response rfl
          exact stands_of_none rfl
      | none => exact accepts_acceptRequest config channel request

theorem accepts_replayOf (maxAttempts : ℕ) (original : BroadcastRow) :
    commitments.Accepts performAccept (Stands AcceptResponse.acceptedId?)
      (replayOf maxAttempts original) .none := by
  refine ⟨trivial, fun x w => ⟨trivial, fun y v => ?_⟩⟩
  exact (accepts_fanOutBroadcast maxAttempts _).bind
    (fun result _ h => h.map rfl) fun e _ _ => stands_error e

theorem accepts_replayBroadcast (maxAttempts : ℕ)
    (channelId broadcastId : Uuid) :
    commitments.Accepts performAccept (Stands AcceptResponse.acceptedId?)
      (replayBroadcast maxAttempts channelId broadcastId) .none := by
  refine Monitor.accepts_seq (amid_statement (ignores_query nofun nofun))
    (fun channel => ?_) stands_error
  cases channel with
  | none => exact stands_of_none rfl
  | some channel =>
      refine Monitor.accepts_seq (amid_statement (ignores_query nofun nofun))
        (fun original => ?_) stands_error
      cases original with
      | none => exact stands_of_none rfl
      | some original => exact accepts_replayOf maxAttempts original

/-! ## Every task -/

def ApiReply.acceptedId? : ApiReply → Option Uuid
  | ingest outcome => outcome.acceptedId?
  | accepted response => response.acceptedId?
  | _ => none

/-- The same monitor among the calls of the deployment. -/
def apiCommitments : Monitor ApiEffects Commitments := commitments.inl

theorem ignores_admin (c : AdminCall) :
    apiCommitments.Ignores (.inr c) :=
  ⟨fun _ => trivial, fun _ _ => rfl⟩

theorem ignores_worker (c : Call) : apiCommitments.Ignores (.inl (.inl c)) :=
  ⟨fun _ => trivial, fun _ _ => rfl⟩

theorem ignores_lookup {q : IngestQuery} (hcommit : ∀ tx, q ≠ .commit tx)
    (hdelete : ∀ id, q ≠ .deleteBroadcastById id) :
    apiCommitments.Ignores (.inl (.inr (.query q))) :=
  ignores_query hcommit hdelete

/-- The program neither commits nor withdraws. -/
def CommitsNothing {α : Type} (p : ApiAction α) : Prop :=
  p.EveryCall fun c _ => apiCommitments.Ignores c

/-- Nor does it name a Broadcast in its reply. -/
def NamesNothing (p : ApiAction ApiReply) : Prop :=
  CommitsNothing p ∧ p.EveryEnd fun r => ∀ reply, r = .ok reply →
    reply.acceptedId? = none

theorem NamesNothing.after {α : Type} {p : ApiAction α}
    {f : α → ApiAction ApiReply} (hp : CommitsNothing p)
    (hf : ∀ a, NamesNothing (f a)) : NamesNothing (p >>= f) :=
  ⟨Program.EveryCall.bind (fun _ _ h => h) (fun a _ => (hf a).1) hp
      Program.EveryEnd.trivial,
    Program.EveryEnd.bind (fun a _ => (hf a).2) (fun e _ _ h => by cases h)
      Program.EveryEnd.trivial⟩

theorem namesNothing_done {reply : ApiReply} (h : reply.acceptedId? = none) :
    NamesNothing (Program.done reply) := by
  refine ⟨trivial, ?_⟩
  rintro _ ⟨⟩
  exact h

theorem commitsNothing_worker {α : Type} (p : Action α) :
    CommitsNothing ((p.inl (T := IngestEffects)).inl (T := AdminEffects)) := by
  induction p with
  | done a => trivial
  | fail e => trivial
  | call c k ih => exact ⟨ignores_worker c, ih⟩

theorem commitsNothing_adminQuery (q : AdminQuery) :
    CommitsNothing (adminQuery q) := by
  refine ⟨ignores_admin _, ?_⟩
  rintro (e | result) <;> trivial

theorem commitsNothing_randomBytes : CommitsNothing randomBytes :=
  ⟨ignores_admin _, fun _ => trivial⟩

theorem commitsNothing_getChannelById (channelId : Uuid) :
    CommitsNothing ((ingestQuery (.getChannelById channelId)).inl
      (T := AdminEffects)) := by
  refine ⟨ignores_lookup nofun nofun, ?_⟩
  rintro (e | result) <;> trivial

section Routes

variable (hashToken : String → String)

theorem namesNothing_createChannelToken (channelId : Uuid) :
    NamesNothing (createChannelToken hashToken channelId) := by
  refine .after (commitsNothing_getChannelById channelId) fun channel => ?_
  cases channel with
  | none => exact namesNothing_done rfl
  | some channel =>
      refine .after commitsNothing_randomBytes fun random => ?_
      refine .after (commitsNothing_worker randomUUID) fun id => ?_
      refine .after (commitsNothing_worker now) fun createdAt => ?_
      exact .after (commitsNothing_adminQuery _) fun row =>
        namesNothing_done rfl

theorem namesNothing_createOperatorToken (body : Option Js.Json) :
    NamesNothing (createOperatorToken hashToken body) := by
  unfold createOperatorToken
  split
  · exact namesNothing_done rfl
  · refine .after commitsNothing_randomBytes fun random => ?_
    refine .after (commitsNothing_worker randomUUID) fun id => ?_
    refine .after (commitsNothing_worker now) fun createdAt => ?_
    exact .after (commitsNothing_adminQuery _) fun row =>
      namesNothing_done rfl

/-- What a handler that names no Broadcast is accepted for. -/
theorem NamesNothing.accepts {p : ApiAction ApiReply} (hp : NamesNothing p) :
    apiCommitments.Accepts performApi (Stands ApiReply.acceptedId?) p
      .none := by
  refine (Monitor.accepts_of_every hp.1 hp.2 .none).consequence ?_
  rintro _ r ⟨rfl, hr⟩ reply hreply id hid
  rw [hr reply hreply] at hid
  cases hid

theorem accepts_adminAction (action : AdminAction) :
    apiCommitments.Accepts performApi (Stands ApiReply.acceptedId?)
      (action.program hashToken) .none := by
  cases action with
  | session => exact stands_of_none rfl
  | replay maxAttempts channelId broadcastId =>
      exact (accepts_replayBroadcast maxAttempts channelId broadcastId).inl.bind
        (fun response _ h => h.map rfl) fun e _ _ => stands_error e
  | retry maxAttempts deliveryId =>
      exact (NamesNothing.after (commitsNothing_worker _) fun response =>
        namesNothing_done rfl).accepts
  | write method statement =>
      exact (NamesNothing.after (commitsNothing_adminQuery _) fun _ =>
        namesNothing_done rfl).accepts
  | mintChannelToken channelId =>
      exact (namesNothing_createChannelToken hashToken channelId).accepts
  | revokeChannelToken channelId tokenId =>
      refine (NamesNothing.after (commitsNothing_adminQuery _) fun revoked =>
        namesNothing_done ?_).accepts
      cases revoked <;> rfl
  | listOperatorTokens =>
      exact (NamesNothing.after (commitsNothing_adminQuery _) fun rows =>
        namesNothing_done rfl).accepts
  | mintOperatorToken body =>
      exact (namesNothing_createOperatorToken hashToken body).accepts
  | revokeOperatorToken tokenId =>
      refine (NamesNothing.after (commitsNothing_adminQuery _) fun revoked =>
        namesNothing_done ?_).accepts
      cases revoked <;> rfl

/-- The Broadcast that a request was told is accepted. -/
def Handled.acceptedId? (handled : Handled) : Option Uuid :=
  handled.reply.acceptedId?

theorem accepts_operatorAuth {config : OperatorAuthConfig}
    {credentials : OperatorCredentials} {next : String → ApiAction Handled}
    (hnext : ∀ label, apiCommitments.Accepts performApi
      (Stands Handled.acceptedId?) (next label) .none) :
    apiCommitments.Accepts performApi (Stands Handled.acceptedId?)
      (operatorAuth hashToken config credentials next) .none := by
  unfold operatorAuth
  split
  · split
    · exact hnext _
    · refine Monitor.accepts_seq
        (Program.Amid.of_everyCall (commitsNothing_adminQuery _))
        (fun row => ?_) stands_error
      cases row with
      | none => exact stands_of_none rfl
      | some row =>
          -- reading the clock and sending the touch
          refine ⟨trivial, fun x D => ⟨trivial, fun y E => ?_⟩⟩
          exact hnext row.label
  · split
    · split
      · exact hnext _
      · exact stands_of_none rfl
    · exact stands_of_none rfl

/-- A run that ends with the id of a Broadcast has had its commit acknowledged
and has not withdrawn it; and a run withdraws only what it has committed. -/
theorem accepts_program (config : OperatorAuthConfig)
    (dateParse : String → Option Instant) (t : ApiTask) :
    apiCommitments.Accepts performApi (Stands Handled.acceptedId?)
      (t.program hashToken config dateParse) .none := by
  have hworker {α : Type} (p : Action α) (f : α → Handled)
      (hf : ∀ a, (f a).acceptedId? = none) :
      apiCommitments.Accepts performApi (Stands Handled.acceptedId?)
        ((p.inl (T := IngestEffects)).inl (T := AdminEffects) >>=
          fun a => Program.done (f a)) .none :=
    Monitor.accepts_seq (Program.Amid.of_everyCall (commitsNothing_worker p))
      (fun a => stands_of_none (hf a)) stands_error
  cases t with
  | ingest routeConfig slug request =>
      exact (accepts_ingest hashToken routeConfig slug request).inl.bind
        (fun outcome _ h => h.map rfl) fun e _ _ => stands_error e
  | process task => exact hworker _ _ fun _ => rfl
  | autoDisable endpointId autoDisableAfterMs now =>
      exact hworker _ _ fun _ => rfl
  | admin credentials path action =>
      refine accepts_operatorAuth hashToken fun label => ?_
      exact (accepts_adminAction hashToken action).bind
        (fun reply _ h => h.map rfl) fun e _ _ => stands_error e

end Routes

end WebhookBroadcast
