import WebhookBroadcast.Ingest.Routes

/-!
# What is committed

The transactions that accepting a Broadcast can commit, whatever else goes on:
they carry the contents of the request or of the original, and their Deliveries
go to Endpoints of the snapshot.
-/

namespace WebhookBroadcast

open Interaction

/-- If the call is a commit, then of a transaction that satisfies `ρ`. -/
def CommitsOnly (ρ : Transaction → Prop) : AcceptEffects.Call → Prop
  | .inr (.query (.commit tx)) => ρ tx
  | _ => True

/-- The call is one of fan-out, with the same condition on a commit. -/
def FansOut (ρ : Transaction → Prop) : AcceptEffects.Call → Prop
  | .inr (.query (.getActiveChannelBySlug _)) => False
  | .inr (.query (.findChannelTokenByHash _ _)) => False
  | .inr (.query (.getChannelById _)) => False
  | .inr (.query (.getBroadcastById _ _)) => False
  | c => CommitsOnly ρ c

theorem CommitsOnly.imp {ρ ρ' : Transaction → Prop} {c : AcceptEffects.Call}
    (h : CommitsOnly ρ c) (hρ : ∀ tx, ρ tx → ρ' tx) : CommitsOnly ρ' c := by
  unfold CommitsOnly at h ⊢
  split
  · exact hρ _ h
  · trivial

theorem FansOut.commitsOnly {ρ : Transaction → Prop} {c : AcceptEffects.Call}
    (h : FansOut ρ c) : CommitsOnly ρ c := by
  unfold FansOut at h
  split at h
  · trivial
  · trivial
  · trivial
  · trivial
  · exact h

theorem FansOut.imp {ρ ρ' : Transaction → Prop} {c : AcceptEffects.Call}
    (h : FansOut ρ c) (hρ : ∀ tx, ρ tx → ρ' tx) : FansOut ρ' c := by
  unfold FansOut at h ⊢
  split at h
  · exact h
  · exact h
  · exact h
  · exact h
  · exact CommitsOnly.imp h hρ

/-! ## Calls -/

section Calls

variable {φ : AcceptEffects.Call → Prop} {α : Type}

theorem amid_ingestQuery {q : IngestQuery}
    {post : Except Thrown q.Result → Prop} (hq : φ (.inr (.query q)))
    (hok : ∀ db result, (q.run db).1 = .ok result → post (.ok result))
    (herror : ∀ e, post (.error e)) :
    (ingestQuery q).Amid performAccept φ post := by
  refine ⟨hq, fun x w => ?_⟩
  rcases performAccept_query_cases x q w with
    ⟨result, hresult, hrun⟩ | ⟨e, t, hrun, -⟩
  · rw [hrun]
    exact hok w.db result hresult
  · rw [hrun]
    exact herror _

theorem amid_statement {q : IngestQuery} (hq : φ (.inr (.query q))) :
    (ingestQuery q).Amid performAccept φ fun _ => True :=
  amid_ingestQuery hq (fun _ _ _ => trivial) fun _ => trivial

/-- A run that begins with a statement is rejected there, or goes on with what
the statement found. -/
theorem observes_ingestQuery {q : IngestQuery} {f : q.Result → AcceptAction α}
    {trace : List (Made AcceptEffects Choice World)}
    (htrace : (ingestQuery q >>= f).Observes performAccept trace) :
    trace = [] ∨ ∃ x w rest, trace = ⟨.inr (.query q), x, w⟩ :: rest ∧
      (rest = [] ∨ ∃ result, (q.run w.db).1 = .ok result ∧
        (f result).Observes performAccept rest) := by
  cases htrace with
  | nil _ => exact Or.inl rfl
  | @cons _ _ x w rest hrest =>
      refine Or.inr ⟨x, w, rest, rfl, ?_⟩
      rcases performAccept_query_cases x q w with
        ⟨result, hresult, hrun⟩ | ⟨e, t, hrun, -⟩
      · rw [hrun] at hrest
        exact Or.inr ⟨result, hresult, hrest⟩
      · rw [hrun] at hrest
        cases hrest
        exact Or.inl rfl

theorem amid_action (hφ : ∀ c, φ (.inl c)) (p : Action α) :
    (p.inl (T := IngestEffects)).Amid performAccept φ fun _ => True :=
  Program.amid_inl hφ p

theorem amid_addBulk {jobs : List BulkJob} (hbulk : φ (.inr (.addBulk jobs))) :
    (addBulk jobs).Amid performAccept φ fun _ => True := by
  refine ⟨hbulk, fun x w => ?_⟩
  rcases performAccept_addBulk_cases x jobs w with hrun | ⟨e, t, hrun, -⟩
  · rw [hrun]
    trivial
  · rw [hrun]
    trivial

theorem amid_enqueueBulk (hφ : ∀ c, φ (.inl c))
    (hbulk : ∀ jobs, φ (.inr (.addBulk jobs))) (maxAttempts : ℕ)
    (workItems : List DeliveryWorkItem) :
    (enqueueBulk maxAttempts workItems).Amid performAccept φ
      fun _ => True := by
  unfold enqueueBulk
  split
  · trivial
  · refine (Program.Amid.all ?_).seq fun _ => amid_addBulk (hbulk _)
    intro p hp
    obtain ⟨item, -, rfl⟩ := List.mem_map.mp hp
    exact amid_action hφ _

end Calls

/-! ## Fan-out -/

section FanOut

variable {φ : AcceptEffects.Call → Prop}

theorem amid_newDeliveries (hφ : ∀ c, φ (.inl c)) (broadcastId channelId : Uuid)
    (now : Instant) (endpointIds : List Uuid) :
    (newDeliveries broadcastId channelId now endpointIds).Amid performAccept φ
      fun r => ∀ rows, r = .ok rows → ∀ d ∈ rows,
        d.broadcastId = broadcastId ∧ d.channelId = channelId ∧
          d.endpointId ∈ endpointIds := by
  induction endpointIds with
  | nil =>
      rintro _ ⟨⟩
      simp
  | cons endpointId endpointIds ih =>
      refine ⟨hφ _, fun x w => ?_⟩
      change Program.Amid _ _ _
        (newDeliveries broadcastId channelId now endpointIds >>= fun rest =>
          .done (DeliveryRow.created x.uuid broadcastId endpointId channelId
            now :: rest))
      refine Program.Amid.bind (fun rest hrest => ?_) ?_ ih
      · rintro _ ⟨⟩ d hd
        rcases List.mem_cons.mp hd with rfl | hd
        · exact ⟨rfl, rfl, List.mem_cons_self⟩
        · obtain ⟨hbroadcast, hchannel, hendpoint⟩ := hrest rest rfl d hd
          exact ⟨hbroadcast, hchannel, List.mem_cons_of_mem _ hendpoint⟩
      · rintro e - _ ⟨⟩

theorem amid_createDeliveriesForBroadcast (hφ : ∀ c, φ (.inl c))
    (hinsert : ∀ tx, φ (.inr (.query (.insertDeliveries tx))))
    (broadcast : BroadcastRow) (endpointIds : List Uuid) (now : Instant) :
    (createDeliveriesForBroadcast broadcast endpointIds now).Amid performAccept
      φ fun r => ∀ rows, r = .ok rows → ∀ d ∈ rows,
        d.broadcastId = broadcast.id ∧ d.channelId = broadcast.channelId ∧
          d.endpointId ∈ endpointIds := by
  unfold createDeliveriesForBroadcast
  split
  · rintro _ ⟨⟩
    simp
  · refine (amid_newDeliveries hφ _ _ _ _).bind (fun rows hrows => ?_) ?_
    · refine amid_ingestQuery (hinsert _) ?_ (by rintro e _ ⟨⟩)
      rintro db result hresult _ ⟨⟩
      rw [result_insertDeliveries hresult]
      exact hrows rows rfl
    · rintro e - _ ⟨⟩

/-- The transaction after the snapshot. -/
def commitSnapshot (broadcast : BroadcastRow) (now : Instant)
    (enabledEndpoints : List EndpointRow) :
    AcceptAction (BroadcastRow × List DeliveryRow) := do
  let deliveries ←
    (if enabledEndpoints.length > 0 then
      createDeliveriesForBroadcast broadcast
        (enabledEndpoints.map EndpointRow.id) now
    else pure [] : AcceptAction (List DeliveryRow))
  ingestQuery (.commit ⟨broadcast, deliveries⟩)
  return (broadcast, deliveries)

/-- It commits the Broadcast with Deliveries to Endpoints of the snapshot. -/
theorem amid_commitSnapshot (hφ : ∀ c, φ (.inl c))
    (hinsert : ∀ tx, φ (.inr (.query (.insertDeliveries tx))))
    (broadcast : BroadcastRow) (now : Instant)
    (enabledEndpoints : List EndpointRow)
    (hcommit : ∀ deliveries : List DeliveryRow,
      (∀ d ∈ deliveries, d.broadcastId = broadcast.id ∧
        d.channelId = broadcast.channelId ∧
        d.endpointId ∈ enabledEndpoints.map EndpointRow.id) →
      φ (.inr (.query (.commit ⟨broadcast, deliveries⟩)))) :
    (commitSnapshot broadcast now enabledEndpoints).Amid performAccept φ
      fun _ => True := by
  have hrows : (if enabledEndpoints.length > 0 then
      createDeliveriesForBroadcast broadcast
        (enabledEndpoints.map EndpointRow.id) now
    else pure [] : AcceptAction (List DeliveryRow)).Amid performAccept φ
      fun r => ∀ rows, r = .ok rows → ∀ d ∈ rows,
        d.broadcastId = broadcast.id ∧ d.channelId = broadcast.channelId ∧
          d.endpointId ∈ enabledEndpoints.map EndpointRow.id := by
    split
    · exact amid_createDeliveriesForBroadcast hφ hinsert _ _ _
    · rintro _ ⟨⟩
      simp
  refine hrows.bind (fun rows hrows => ?_) fun _ _ => trivial
  exact (amid_statement (hcommit rows (hrows rows rfl))).seq fun _ => trivial

/-- What follows the transaction. -/
def enqueueAccepted (maxAttempts : ℕ) (requestId : Uuid) :
    BroadcastRow × List DeliveryRow → AcceptAction FanOutBroadcastResult
  | (broadcast, deliveries) =>
      if deliveries.length = 0 then
        return ⟨broadcast, requestId, 0⟩
      else do
        let enqueued ← (enqueueBulk maxAttempts
          (deliveries.map fun delivery =>
            delivery.workItem requestId broadcast)).settle
        match enqueued with
        | .ok () => return ⟨broadcast, requestId, deliveries.length⟩
        | .error error =>
            let _ ← ingestQuery (.deleteBroadcastById broadcast.id)
            Program.fail error

/-- The request id of a fan-out. -/
def requestIdOf (input : FanOutBroadcastInput) : AcceptAction Uuid :=
  match input.requestId? with
  | some requestId => pure requestId
  | none => newRequestId

theorem acceptBroadcast_eq (input : BroadcastRow) (now : Instant) :
    acceptBroadcast input now =
      (ingestQuery (.insertBroadcast input) >>= fun broadcast =>
        ingestQuery (.listEnabledEndpointsByChannel broadcast.channelId) >>=
          commitSnapshot broadcast now) := rfl

theorem fanOutBroadcast_eq (maxAttempts : ℕ) (input : FanOutBroadcastInput) :
    fanOutBroadcast maxAttempts input =
      (requestIdOf input >>= fun requestId =>
        acceptBroadcast input.broadcast input.broadcast.receivedAt >>=
          enqueueAccepted maxAttempts requestId) := rfl

theorem amid_enqueueAccepted (hφ : ∀ c, φ (.inl c))
    (hbulk : ∀ jobs, φ (.inr (.addBulk jobs)))
    (hdelete : ∀ id, φ (.inr (.query (.deleteBroadcastById id))))
    (maxAttempts : ℕ) (requestId : Uuid)
    (accepted : BroadcastRow × List DeliveryRow) :
    (enqueueAccepted maxAttempts requestId accepted).Amid performAccept φ
      fun _ => True := by
  rcases accepted with ⟨broadcast, deliveries⟩
  change Program.Amid _ _ _ (if deliveries.length = 0 then _ else _)
  split
  · trivial
  · have henqueued : (enqueueBulk maxAttempts (deliveries.map fun delivery =>
        delivery.workItem requestId broadcast)).settle.Amid performAccept φ
        fun _ => True :=
      (amid_enqueueBulk hφ hbulk _ _).settle fun _ _ => trivial
    refine henqueued.seq fun enqueued => ?_
    rcases enqueued with error | _
    · exact (amid_statement (hdelete _)).seq fun _ => trivial
    · trivial

theorem amid_requestIdOf (hφ : ∀ c, φ (.inl c))
    (input : FanOutBroadcastInput) :
    (requestIdOf input).Amid performAccept φ fun _ => True := by
  unfold requestIdOf
  split
  · trivial
  · exact amid_action hφ _

/-- The insert of a Broadcast returns its row. -/
theorem amid_insertBroadcast {row : BroadcastRow}
    (hφ : φ (.inr (.query (.insertBroadcast row)))) :
    (ingestQuery (.insertBroadcast row)).Amid performAccept φ
      fun r => ∀ result, r = .ok result → result = row := by
  refine amid_ingestQuery hφ ?_ (by rintro e _ ⟨⟩)
  rintro db result hresult _ ⟨⟩
  exact result_insertBroadcast hresult

/-- The Deliveries of the transaction are those of its Broadcast. -/
def Transaction.Own (tx : Transaction) : Prop :=
  ∀ d ∈ tx.deliveries, d.broadcastId = tx.broadcast.id

/-- A fan-out commits the Broadcast that it is given, with Deliveries of its
own. -/
theorem amid_fanOutBroadcast (maxAttempts : ℕ) (input : FanOutBroadcastInput) :
    (fanOutBroadcast maxAttempts input).Amid performAccept
      (FansOut fun tx => tx.broadcast = input.broadcast ∧ tx.Own)
      fun _ => True := by
  rw [fanOutBroadcast_eq, acceptBroadcast_eq]
  refine (amid_requestIdOf (fun _ => trivial) input).seq fun requestId => ?_
  have haccept : (ingestQuery (.insertBroadcast input.broadcast) >>=
      fun broadcast =>
        ingestQuery (.listEnabledEndpointsByChannel broadcast.channelId) >>=
          commitSnapshot broadcast input.broadcast.receivedAt).Amid
      performAccept (FansOut fun tx => tx.broadcast = input.broadcast ∧ tx.Own)
      fun _ => True := by
    refine (amid_insertBroadcast trivial).bind (fun broadcast h => ?_)
      fun _ _ => trivial
    refine (amid_statement trivial).seq fun enabledEndpoints => ?_
    exact amid_commitSnapshot (fun _ => trivial) (fun _ => trivial) broadcast _
      enabledEndpoints fun _ hrows => ⟨h broadcast rfl, fun d hd =>
        (hrows d hd).1⟩
  exact haccept.seq fun accepted => amid_enqueueAccepted
    (fun _ => trivial) (fun _ => trivial) (fun _ => trivial) _ _ _

end FanOut

/-! ## The two routes -/

/-- The Broadcast has the contents of the request, as the filter leaves them. -/
structure IngestRouteConfig.Stores (config : IngestRouteConfig)
    (request : IngestRequest) (broadcast : BroadcastRow) : Prop where
  contentType : broadcast.contentType = request.contentType
  body : readLimitedBody request.body config.maxBodyBytes = .ok broadcast.body
  headers : broadcast.headers = filterHeaders request.headers
    config.headerAllowlist config.headerDenylist

/-- The Broadcast has the contents of the original. -/
def BroadcastRow.Replays (broadcast original : BroadcastRow) : Prop :=
  broadcast.contentType = original.contentType ∧
    broadcast.body = original.body ∧ broadcast.headers = original.headers

/-- A fan-out commits only what holds of the Broadcast that it is given. -/
theorem amid_fanOutBroadcast_of {ρ : BroadcastRow → Prop} {maxAttempts : ℕ}
    {input : FanOutBroadcastInput} (hρ : ρ input.broadcast) :
    (fanOutBroadcast maxAttempts input).Amid performAccept
      (FansOut fun tx => ρ tx.broadcast ∧ tx.Own) fun _ => True := by
  refine (amid_fanOutBroadcast maxAttempts input).consequence
    (fun c hc => hc.imp fun tx ⟨hbroadcast, hown⟩ => ⟨?_, hown⟩)
    fun _ _ => trivial
  rw [hbroadcast]
  exact hρ

theorem amid_checkIngestToken {φ : AcceptEffects.Call → Prop}
    (hφ : ∀ channelId tokenHash,
      φ (.inr (.query (.findChannelTokenByHash channelId tokenHash))))
    (hashToken : String → String) (channel : ChannelRow)
    (request : IngestRequest) :
    (checkIngestToken hashToken channel request).Amid performAccept φ
      fun _ => True := by
  unfold checkIngestToken
  split
  · trivial
  · split
    · trivial
    · refine (amid_statement (hφ _ _)).seq fun channelToken => ?_
      cases channelToken <;> trivial

theorem amid_acceptRequest (config : IngestRouteConfig) (channel : ChannelRow)
    (request : IngestRequest) :
    (acceptRequest config channel request).Amid performAccept
      (CommitsOnly fun tx => config.Stores request tx.broadcast ∧ tx.Own)
      fun _ => True := by
  unfold acceptRequest
  split
  · trivial
  · split
    · trivial
    · trivial
    next body hbody =>
      refine ⟨trivial, fun x w => ⟨trivial, fun y v => ?_⟩⟩
      have hstores (b : BroadcastRow) (hb : config.Stores request b) :
          (fanOutBroadcast config.maxAttempts { broadcast := b }).Amid
            performAccept
            (CommitsOnly fun tx => config.Stores request tx.broadcast ∧ tx.Own)
            fun _ => True :=
        (amid_fanOutBroadcast_of hb).consequence
          (fun _ => FansOut.commitsOnly) fun _ => id
      exact (hstores _ ⟨rfl, hbody, rfl⟩).seq fun _ => trivial

/-- An ingest request is stored with its contents or not at all. -/
theorem amid_ingest (hashToken : String → String) (config : IngestRouteConfig)
    (slug : String) (request : IngestRequest) :
    (ingest hashToken config slug request).Amid performAccept
      (CommitsOnly fun tx => config.Stores request tx.broadcast ∧ tx.Own)
      fun _ => True := by
  refine (amid_statement trivial).seq fun channel => ?_
  cases channel with
  | none => trivial
  | some channel =>
      refine (amid_checkIngestToken (fun _ _ => trivial) hashToken channel
        request).seq fun refused => ?_
      cases refused with
      | some response => trivial
      | none => exact amid_acceptRequest config channel request

theorem amid_replayOf (maxAttempts : ℕ) (original : BroadcastRow) :
    (replayOf maxAttempts original).Amid performAccept
      (FansOut fun tx => tx.broadcast.Replays original ∧ tx.Own)
      fun _ => True := by
  refine ⟨trivial, fun x w => ⟨trivial, fun y v => ?_⟩⟩
  refine (amid_fanOutBroadcast_of
    (ρ := fun broadcast => broadcast.Replays original) ?_).seq
    fun _ => trivial
  exact ⟨rfl, rfl, rfl⟩

/-- A replay commits nothing but the Deliveries of its Broadcast. -/
theorem amid_replayBroadcast (maxAttempts : ℕ) (channelId broadcastId : Uuid) :
    (replayBroadcast maxAttempts channelId broadcastId).Amid performAccept
      (CommitsOnly Transaction.Own) fun _ => True := by
  refine (amid_statement trivial).seq fun channel => ?_
  cases channel with
  | none => trivial
  | some channel =>
      refine (amid_statement trivial).seq fun original => ?_
      cases original with
      | none => trivial
      | some original =>
          exact (amid_replayOf maxAttempts original).consequence
            (fun _ hc => (hc.imp fun _ htx => htx.2).commitsOnly) fun _ => id

end WebhookBroadcast
