import WebhookBroadcast.Ingest.Store
import WebhookBroadcast.Queue.DeliveryQueue

/-!
# Fan-out

`fanOutBroadcast` of `apps/api/src/fanOutBroadcast.ts`, which ingest and replay
share: persist a Broadcast and a Delivery for every Endpoint that takes
Deliveries in one transaction, then enqueue the Deliveries, and delete the
Broadcast again when that fails.
-/

namespace WebhookBroadcast

open Interaction Relational

/-- `enqueueBulk`. -/
def enqueueBulk (maxAttempts : ℕ) (workItems : List DeliveryWorkItem) :
    AcceptAction Unit :=
  if workItems = [] then return ()
  else do
    Program.all (workItems.map fun workItem =>
      (removeFinishedJob workItem.deliveryId).inl)
    addBulk (workItems.map fun workItem =>
      { jobId := workItem.deliveryId
        attempts := maxAttempts
        data := workItem })

structure FanOutBroadcastInput where
  broadcast : BroadcastRow
  requestId? : Option Uuid := none

structure FanOutBroadcastResult where
  broadcast : BroadcastRow
  requestId : Uuid
  deliveryCount : ℕ

/-- `newRequestId`. -/
def newRequestId : AcceptAction Uuid := randomUUID.inl

/-- The rows of `createDeliveriesForBroadcast`, each under a fresh id. -/
def newDeliveries (broadcastId channelId : Uuid) (now : Instant) :
    List Uuid → AcceptAction (List DeliveryRow)
  | [] => return []
  | endpointId :: endpointIds => do
      let id ← randomUUID
      let rest ← newDeliveries broadcastId channelId now endpointIds
      return DeliveryRow.created id broadcastId endpointId channelId now :: rest

/-- One Delivery for each of the Endpoints, inserted by one statement of the
transaction that has inserted the Broadcast. -/
def createDeliveriesForBroadcast (broadcast : BroadcastRow)
    (endpointIds : List Uuid) (now : Instant) :
    AcceptAction (List DeliveryRow) :=
  if endpointIds = [] then return []
  else do
    let rows ← newDeliveries broadcast.id broadcast.channelId now endpointIds
    ingestQuery (.insertDeliveries ⟨broadcast, rows⟩)

/-- The transaction of `fanOutBroadcast`. -/
def acceptBroadcast (input : BroadcastRow) (now : Instant) :
    AcceptAction (BroadcastRow × List DeliveryRow) := do
  let broadcast ← ingestQuery (.insertBroadcast input)
  let enabledEndpoints ←
    ingestQuery (.listEnabledEndpointsByChannel broadcast.channelId)
  let deliveries ←
    (if enabledEndpoints.length > 0 then
      createDeliveriesForBroadcast broadcast
        (enabledEndpoints.map EndpointRow.id) now
    else pure [] : AcceptAction (List DeliveryRow))
  ingestQuery (.commit ⟨broadcast, deliveries⟩)
  return (broadcast, deliveries)

/-- The work item of a Delivery. -/
def DeliveryRow.workItem (delivery : DeliveryRow) (requestId : Uuid)
    (broadcast : BroadcastRow) : DeliveryWorkItem where
  deliveryId := delivery.id
  requestId := requestId
  channelId := broadcast.channelId
  broadcastId := broadcast.id
  endpointId := delivery.endpointId

/-- Accept a Broadcast. -/
def fanOutBroadcast (maxAttempts : ℕ) (input : FanOutBroadcastInput) :
    AcceptAction FanOutBroadcastResult := do
  let requestId ←
    (match input.requestId? with
    | some requestId => pure requestId
    | none => newRequestId : AcceptAction Uuid)
  let now := input.broadcast.receivedAt
  let (broadcast, deliveries) ← acceptBroadcast input.broadcast now
  if deliveries.length = 0 then
    return ⟨broadcast, requestId, 0⟩
  else
    let enqueued ← (enqueueBulk maxAttempts
      (deliveries.map fun delivery =>
        delivery.workItem requestId broadcast)).settle
    match enqueued with
    | .ok () => return ⟨broadcast, requestId, deliveries.length⟩
    | .error error =>
        let _ ← ingestQuery (.deleteBroadcastById broadcast.id)
        Program.fail error

/-! ## All or nothing -/

/-- What the environment of a fan-out is taken to do: a call that rejects has
not been carried out, the compensating deletion succeeds, and no job is stored
under a fresh id. -/
def FanOutAssumes (w : World) (c : AcceptEffects.Call) (x : Choice) : Prop :=
  (∀ fault ∈ x.fault, fault.applied = false) ∧
  (∀ id, c = .inr (.query (.deleteBroadcastById id)) → x.fault = none) ∧
  (c = .inl .randomUUID → w.jobs x.uuid = none)

/-- The discipline of a fan-out that runs alone. -/
def fanningOut : Discipline AcceptEffects Choice World :=
  .alone performAccept FanOutAssumes

/-- The Deliveries of a Broadcast. -/
def Database.deliveriesOf (db : Database) (broadcastId : Uuid) :
    List DeliveryRow :=
  db.deliveries.select fun d => d.broadcastId = broadcastId

/-- The Broadcast is stored, each Endpoint of the snapshot has one new Delivery
and each of these has one job. -/
structure FannedOut (maxAttempts : ℕ) (input : FanOutBroadcastInput)
    (before after : World) (result : FanOutBroadcastResult) : Prop where
  broadcast : result.broadcast = input.broadcast
  requestId : ∀ id ∈ input.requestId?, result.requestId = id
  stored : input.broadcast ∈ after.db.broadcasts
  covered : ∀ e ∈ before.db.endpoints,
    (∃ d ∈ after.db.deliveriesOf input.broadcast.id, d.endpointId = e.id) ↔
      e.channelId = input.broadcast.channelId ∧ e.enabled = true ∧
        e.autoDisabledAt = none
  known : ∀ d ∈ after.db.deliveriesOf input.broadcast.id,
    ∃ e ∈ before.db.endpoints, e.id = d.endpointId
  distinct : ((after.db.deliveriesOf input.broadcast.id).map
    DeliveryRow.endpointId).Nodup
  created : ∀ d ∈ after.db.deliveriesOf input.broadcast.id,
    d.status = .pending ∧ d.attemptCount = 0 ∧
      d.channelId = input.broadcast.channelId
  jobs : ∀ d ∈ after.db.deliveriesOf input.broadcast.id,
    before.jobs d.id = none ∧ after.jobs d.id = some (Job.added maxAttempts
      { deliveryId := d.id
        requestId := result.requestId
        channelId := input.broadcast.channelId
        broadcastId := input.broadcast.id
        endpointId := d.endpointId })
  otherJobs : ∀ id, (∀ d ∈ after.db.deliveriesOf input.broadcast.id,
    d.id ≠ id) → after.jobs id = before.jobs id
  deliveryCount :
    result.deliveryCount = (after.db.deliveriesOf input.broadcast.id).length

/-- A fan-out that resolves has done all of its work; one that rejects has left
both stores as they were. -/
def FanOutAllOrNothing (maxAttempts : ℕ) (input : FanOutBroadcastInput)
    (before : World) : Except Thrown FanOutBroadcastResult → World → Prop
  | .ok result, after => FannedOut maxAttempts input before after result
  | .error _, after => after = before

section Calls

variable {w : World} {α : Type}

theorem ensures_ingestQuery {q : IngestQuery}
    {post : Except Thrown q.Result → World → Prop}
    (hok : ∀ result, (q.run w.db).1 = .ok result →
      post (.ok result) { w with db := (q.run w.db).2 })
    (herror : ∀ e, post (.error (.database e)) w) :
    fanningOut.Ensures post (ingestQuery q) w := by
  refine Discipline.ensures_alone_call.mpr ?_
  rintro x ⟨hfault, _⟩
  rcases performAccept_query_cases x q w with
    ⟨result, hresult, hrun⟩ | ⟨e, t, hrun, hsame⟩
  · rw [hrun]
    exact Discipline.ensures_alone_done.mpr (hok result hresult)
  · rw [hrun, hsame hfault]
    exact Discipline.ensures_alone_fail.mpr (herror e)

theorem ensures_deleteBroadcastById {id : Uuid}
    {post : Except Thrown Bool → World → Prop}
    (hok : ∀ deleted, post (.ok deleted)
      { w with db := (deleteBroadcastById w.db id).2 }) :
    fanningOut.Ensures post (ingestQuery (.deleteBroadcastById id)) w := by
  refine Discipline.ensures_alone_call.mpr ?_
  rintro x ⟨_, hx, _⟩
  have hrun : performAccept x (.inr (.query (.deleteBroadcastById id))) w =
      (.ok (deleteBroadcastById w.db id).1,
        { w with db := (deleteBroadcastById w.db id).2 }) :=
    performIngest_query_of_none (hx id rfl) _ w
  rw [hrun]
  exact Discipline.ensures_alone_done.mpr (hok _)

theorem ensures_addBulk {bulk : List BulkJob}
    {post : Except Thrown Unit → World → Prop}
    (hok : post (.ok ()) { w with jobs := w.jobs.addBulk bulk })
    (herror : ∀ e, post (.error e) w) :
    fanningOut.Ensures post (addBulk bulk) w := by
  refine Discipline.ensures_alone_call.mpr ?_
  rintro x ⟨hfault, _⟩
  rcases performAccept_addBulk_cases x bulk w with
    hrun | ⟨message, t, hrun, hsame⟩
  · rw [hrun]
    exact Discipline.ensures_alone_done.mpr hok
  · rw [hrun, hsame hfault]
    exact Discipline.ensures_alone_fail.mpr (herror _)

/-- A job id that is free has no finished job to remove. -/
theorem ensures_removeFinishedJob {deliveryId : Uuid}
    (h : w.jobs deliveryId = none) :
    fanningOut.Ensures (fun _ t => t = w)
      ((removeFinishedJob deliveryId).inl (T := IngestEffects)) w := by
  refine Discipline.ensures_alone_call.mpr ?_
  rintro x ⟨hfault, _⟩
  cases hx : x.fault with
  | none =>
      have hrun : performAccept x (.inl (.queue (.getJob deliveryId))) w =
          (.ok false, w) := by
        refine (perform_queue_of_none hx (.getJob deliveryId) w).trans ?_
        rw [QueueCall.run, h]
        rfl
      rw [hrun]
      exact Discipline.ensures_alone_done.mpr rfl
  | some fault =>
      have hrun : performAccept x (.inl (.queue (.getJob deliveryId))) w =
          (.error fault.message, w) := by
        refine (perform_queue_of_some hx (.getJob deliveryId) w).trans ?_
        rw [hfault fault hx]
        rfl
      rw [hrun]
      exact Discipline.ensures_alone_fail.mpr rfl

end Calls

section FanOut

variable {w : World} {maxAttempts : ℕ}

/-- The rows are one new Delivery for each of the Endpoints, in order, under an
id that no job has. -/
structure CreatedFor (jobs : JobStore) (broadcast : BroadcastRow)
    (endpointIds : List Uuid) (rows : List DeliveryRow) : Prop where
  endpoints : rows.map DeliveryRow.endpointId = endpointIds
  created : ∀ d ∈ rows, d.broadcastId = broadcast.id ∧
    d.channelId = broadcast.channelId ∧ d.status = .pending ∧
      d.attemptCount = 0
  free : ∀ d ∈ rows, jobs d.id = none

theorem ensures_newDeliveries {broadcast : BroadcastRow} {now : Instant}
    {endpointIds : List Uuid} :
    fanningOut.Ensures
      (fun r t => t = w ∧ ∃ rows, r = .ok rows ∧
        CreatedFor w.jobs broadcast endpointIds rows)
      (newDeliveries broadcast.id broadcast.channelId now endpointIds) w := by
  induction endpointIds with
  | nil =>
      exact Discipline.ensures_alone_done.mpr
        ⟨rfl, [], rfl, rfl, by simp, by simp⟩
  | cons endpointId endpointIds ih =>
      refine Discipline.ensures_alone_call.mpr ?_
      rintro x ⟨_, _, hfree⟩
      change fanningOut.Ensures _
        (newDeliveries broadcast.id broadcast.channelId now endpointIds >>=
          fun rest => .done (DeliveryRow.created x.uuid broadcast.id endpointId
            broadcast.channelId now :: rest)) w
      refine Discipline.Ensures.bind ?_ ?_ ih
      · rintro rows t ⟨rfl, _, hok, hrows⟩
        cases hok
        refine Discipline.ensures_alone_done.mpr ⟨rfl, _, rfl, ?_, ?_, ?_⟩
        · exact congrArg (endpointId :: ·) hrows.endpoints
        · intro d hd
          rcases List.mem_cons.mp hd with rfl | hd
          · exact ⟨rfl, rfl, rfl, rfl⟩
          · exact hrows.created d hd
        · intro d hd
          rcases List.mem_cons.mp hd with rfl | hd
          · exact hfree rfl
          · exact hrows.free d hd
      · rintro e t ⟨_, _, herror, _⟩
        cases herror

/-- What the transaction of a fan-out leaves. -/
def Accepted (input : BroadcastRow) (before : World) :
    Except Thrown (BroadcastRow × List DeliveryRow) → World → Prop
  | .ok (broadcast, deliveries), after =>
      broadcast = input ∧ after.jobs = before.jobs ∧
        Database.Grows before.db after.db [input] deliveries ∧
        CreatedFor before.jobs input
          ((listEnabledEndpointsByChannel before.db input.channelId).map
            EndpointRow.id) deliveries
  | .error _, after => after = before

theorem ensures_createDeliveriesForBroadcast {broadcast : BroadcastRow}
    {endpointIds : List Uuid} {now : Instant} :
    fanningOut.Ensures
      (fun r t => t = w ∧ ∀ rows, r = .ok rows →
        CreatedFor w.jobs broadcast endpointIds rows)
      (createDeliveriesForBroadcast broadcast endpointIds now) w := by
  unfold createDeliveriesForBroadcast
  split
  next hnil =>
    refine Discipline.ensures_alone_done.mpr ⟨rfl, ?_⟩
    rintro _ ⟨⟩
    exact ⟨hnil.symm, by simp, by simp⟩
  next =>
    refine Discipline.Ensures.bind ?_ ?_ ensures_newDeliveries
    · rintro rows t ⟨rfl, _, hok, hrows⟩
      cases hok
      apply ensures_ingestQuery
      · rintro result hresult
        refine ⟨rfl, ?_⟩
        rintro _ ⟨⟩
        rw [result_insertDeliveries hresult]
        exact hrows
      · exact fun e => ⟨rfl, fun _ h => by cases h⟩
    · rintro e t ⟨_, _, herror, _⟩
      cases herror

theorem ensures_insertBroadcast {input : BroadcastRow} :
    fanningOut.Ensures
      (fun r t => t = w ∧ ∀ broadcast, r = .ok broadcast → broadcast = input)
      (ingestQuery (.insertBroadcast input)) w := by
  apply ensures_ingestQuery
  · intro result hresult
    refine ⟨rfl, ?_⟩
    rintro _ ⟨⟩
    exact result_insertBroadcast hresult
  · exact fun e => ⟨rfl, fun _ h => by cases h⟩

theorem ensures_listEnabledEndpointsByChannel {channelId : Uuid} :
    fanningOut.Ensures
      (fun r t => t = w ∧ ∀ endpoints, r = .ok endpoints →
        endpoints = listEnabledEndpointsByChannel w.db channelId)
      (ingestQuery (.listEnabledEndpointsByChannel channelId)) w := by
  apply ensures_ingestQuery
  · rintro result ⟨⟩
    exact ⟨rfl, fun _ h => by cases h; rfl⟩
  · exact fun e => ⟨rfl, fun _ h => by cases h⟩

theorem ensures_commit {tx : Transaction} :
    fanningOut.Ensures
      (fun r t =>
        match r with
        | .ok () => t.jobs = w.jobs ∧
            Database.Grows w.db t.db [tx.broadcast] tx.deliveries
        | .error _ => t = w)
      (ingestQuery (.commit tx)) w := by
  apply ensures_ingestQuery
  · exact fun result hresult => ⟨rfl, Transaction.grows_commit hresult⟩
  · exact fun e => rfl

/-- The Deliveries of the snapshot, also of an empty one. -/
theorem ensures_snapshot {broadcast : BroadcastRow}
    {endpoints : List EndpointRow} {now : Instant} :
    fanningOut.Ensures
      (fun r t => t = w ∧ ∀ rows, r = .ok rows →
        CreatedFor w.jobs broadcast (endpoints.map EndpointRow.id) rows)
      (if endpoints.length > 0 then
        createDeliveriesForBroadcast broadcast (endpoints.map EndpointRow.id)
          now
      else pure []) w := by
  split
  · exact ensures_createDeliveriesForBroadcast
  next hempty =>
    refine Discipline.ensures_alone_done.mpr ⟨rfl, ?_⟩
    rintro _ ⟨⟩
    have hnil : endpoints = [] := by simpa using hempty
    rw [hnil]
    exact ⟨rfl, by simp, by simp⟩

theorem ensures_acceptBroadcast {input : BroadcastRow} {now : Instant} :
    fanningOut.Ensures (Accepted input w) (acceptBroadcast input now) w := by
  refine Discipline.Ensures.bind ?_ ?_ ensures_insertBroadcast
  · rintro broadcast t ⟨ht, hbroadcast⟩
    rw [hbroadcast broadcast rfl, ht]
    refine Discipline.Ensures.bind ?_ ?_ ensures_listEnabledEndpointsByChannel
    · rintro endpoints t ⟨ht, hendpoints⟩
      rw [hendpoints endpoints rfl, ht]
      refine Discipline.Ensures.bind ?_ ?_ ensures_snapshot
      · rintro rows t ⟨ht, hrows⟩
        rw [ht]
        refine Discipline.Ensures.bind ?_ ?_ ensures_commit
        · rintro ⟨⟩ s ⟨hjobs, hgrows⟩
          exact Discipline.ensures_alone_done.mpr
            ⟨rfl, hjobs, hgrows, hrows rows rfl⟩
        · exact fun e t ht => ht
      · exact fun e t ht => ht.1
    · exact fun e t ht => ht.1
  · exact fun e t ht => ht.1

/-- What a bulk enqueue leaves. -/
def Enqueued (maxAttempts : ℕ) (workItems : List DeliveryWorkItem)
    (before : World) : Except Thrown Unit → World → Prop
  | .ok (), after =>
      let bulk := workItems.map fun workItem =>
        ⟨workItem.deliveryId, maxAttempts, workItem⟩
      after = { before with jobs := before.jobs.addBulk bulk }
  | .error _, after => after = before

/-- Queue work for new Deliveries is added completely or not at all. -/
theorem ensures_enqueueBulk {workItems : List DeliveryWorkItem}
    (hfree : ∀ item ∈ workItems, w.jobs item.deliveryId = none) :
    fanningOut.Ensures (Enqueued maxAttempts workItems w)
      (enqueueBulk maxAttempts workItems) w := by
  have hremoved : fanningOut.Ensures (fun _ t => t = w)
      (Program.all (workItems.map fun item =>
        (removeFinishedJob item.deliveryId).inl (T := IngestEffects))) w := by
    refine Discipline.Ensures.all (fun _ _ => False.elim) ?_ rfl
    intro p hp s hs
    obtain ⟨item, hitem, rfl⟩ := List.mem_map.mp hp
    rw [hs]
    exact ensures_removeFinishedJob (hfree item hitem)
  unfold enqueueBulk
  split
  next hnil =>
    refine Discipline.ensures_alone_done.mpr ?_
    rw [hnil]
    rfl
  next =>
    refine Discipline.Ensures.bind ?_ ?_ hremoved
    · intro _ t ht
      rw [ht]
      exact ensures_addBulk rfl fun e => rfl
    · exact fun e t ht => ht

theorem deliveriesOf_of_grows {input : BroadcastRow} {db db' : Database}
    {rows : List DeliveryRow} (hgrows : Database.Grows db db' [input] rows)
    (hrows : ∀ d ∈ rows, d.broadcastId = input.id) :
    db'.deliveriesOf input.id = rows := by
  rw [Database.deliveriesOf, Table.select, hgrows.deliveries,
    List.filter_append, List.filter_eq_nil_iff.mpr, List.nil_append,
    List.filter_eq_self.mpr]
  · simpa using hrows
  · simpa [Table.mem_def] using hgrows.broadcast_fresh

/-- A committed transaction whose Deliveries all have their job is a complete
fan-out. -/
theorem fannedOut {input : FanOutBroadcastInput} {after : World}
    {rows : List DeliveryRow} {requestId : Uuid}
    (hrequest : ∀ id ∈ input.requestId?, requestId = id)
    (hgrows : Database.Grows w.db after.db [input.broadcast] rows)
    (hrows : CreatedFor w.jobs input.broadcast
      ((listEnabledEndpointsByChannel w.db input.broadcast.channelId).map
        EndpointRow.id) rows)
    (hjobs : after.jobs = w.jobs.addBulk (rows.map fun d =>
      ⟨d.id, maxAttempts, d.workItem requestId input.broadcast⟩)) :
    FannedOut maxAttempts input w after
      ⟨input.broadcast, requestId, rows.length⟩ := by
  have hof := deliveriesOf_of_grows hgrows fun d hd => (hrows.created d hd).1
  have hids : (rows.map DeliveryRow.id).Nodup := by
    have hnodup := after.db.deliveries.nodup
    rw [hgrows.deliveries, List.map_append] at hnodup
    exact (List.nodup_append.mp hnodup).2.1
  have hcovers : ∀ id, (∃ d ∈ rows, d.endpointId = id) ↔
      ∃ e ∈ listEnabledEndpointsByChannel w.db input.broadcast.channelId,
        e.id = id := by
    intro id
    rw [← List.mem_map, ← List.mem_map, hrows.endpoints]
  constructor
  · rfl
  · exact hrequest
  · rw [Table.mem_def, hgrows.broadcasts]
    simp
  · intro e he
    rw [hof, hcovers]
    constructor
    · rintro ⟨other, hother, hid⟩
      obtain ⟨hmem, hp⟩ := Table.mem_select.mp hother
      rw [w.db.endpoints.eq_of_key_eq hmem he hid] at hp
      simpa [and_assoc] using hp
    · rintro ⟨hchannel, henabled, hauto⟩
      exact ⟨e, Table.mem_select.mpr
        ⟨he, by simp [hchannel, henabled, hauto]⟩, rfl⟩
  · intro d hd
    rw [hof] at hd
    obtain ⟨e, he, hid⟩ := (hcovers d.endpointId).mp ⟨d, hd, rfl⟩
    exact ⟨e, (Table.mem_select.mp he).1, hid⟩
  · rw [hof, hrows.endpoints]
    exact w.db.endpoints.nodup.sublist (List.filter_sublist.map _)
  · intro d hd
    rw [hof] at hd
    obtain ⟨_, hchannel, hstatus, hcount⟩ := hrows.created d hd
    exact ⟨hstatus, hcount, hchannel⟩
  · intro d hd
    rw [hof] at hd
    refine ⟨hrows.free d hd, ?_⟩
    rw [hjobs]
    refine JobStore.addBulk_of_mem ?_ ?_ ⟨d.id, maxAttempts, _⟩
      (List.mem_map_of_mem hd)
    · rw [List.map_map]
      exact hids
    · intro job hjob
      obtain ⟨other, hother, rfl⟩ := List.mem_map.mp hjob
      exact hrows.free other hother
  · intro id hne
    rw [hof] at hne
    rw [hjobs]
    refine JobStore.addBulk_of_ne ?_
    intro job hjob
    obtain ⟨d, hd, rfl⟩ := List.mem_map.mp hjob
    exact hne d hd
  · rw [hof]

theorem ensures_requestId {input : FanOutBroadcastInput} :
    fanningOut.Ensures
      (fun r t => t = w ∧ ∃ requestId, r = .ok requestId ∧
        ∀ id ∈ input.requestId?, requestId = id)
      (match input.requestId? with
        | some requestId => pure requestId
        | none => newRequestId) w := by
  cases hgiven : input.requestId? with
  | some given =>
      refine Discipline.ensures_alone_done.mpr ⟨rfl, given, rfl, ?_⟩
      rintro _ ⟨⟩
      rfl
  | none =>
      refine Discipline.ensures_alone_call.mpr fun x _ => ?_
      exact Discipline.ensures_alone_done.mpr ⟨rfl, x.uuid, rfl, by simp⟩

/-- Once the transaction is committed, the Deliveries are enqueued or the
Broadcast is deleted again. -/
theorem ensures_enqueueAccepted {input : FanOutBroadcastInput} {t : World}
    {rows : List DeliveryRow} {requestId : Uuid}
    (hrequest : ∀ id ∈ input.requestId?, requestId = id)
    (haccepted : Accepted input.broadcast w (.ok (input.broadcast, rows)) t) :
    fanningOut.Ensures (FanOutAllOrNothing maxAttempts input w)
      (do
        let enqueued ← (enqueueBulk maxAttempts
          (rows.map fun delivery =>
            delivery.workItem requestId input.broadcast)).settle
        match enqueued with
        | .ok () => return ⟨input.broadcast, requestId, rows.length⟩
        | .error error =>
            let _ ← ingestQuery (.deleteBroadcastById input.broadcast.id)
            Program.fail error) t := by
  obtain ⟨_, hjobs, hgrows, hrows⟩ := haccepted
  have hfree : ∀ item ∈ rows.map fun d =>
      d.workItem requestId input.broadcast, t.jobs item.deliveryId = none := by
    intro item hitem
    obtain ⟨d, hd, rfl⟩ := List.mem_map.mp hitem
    rw [hjobs]
    exact hrows.free d hd
  refine Discipline.Ensures.bind ?_ ?_ (ensures_enqueueBulk hfree).settle
  · rintro enqueued s ⟨settled, hsettled, hs⟩
    cases hsettled
    cases enqueued with
    | ok _ =>
        obtain rfl := hs
        refine Discipline.ensures_alone_done.mpr ?_
        refine fannedOut hrequest hgrows hrows ?_
        simp only [hjobs, List.map_map]
        rfl
    | error e =>
        obtain rfl := hs
        have hdeleted : fanningOut.Ensures
            (fun r after => (∃ deleted, r = .ok deleted) ∧ after = w)
            (ingestQuery (.deleteBroadcastById input.broadcast.id)) s := by
          apply ensures_deleteBroadcastById
          intro deleted
          refine ⟨⟨deleted, rfl⟩, ?_⟩
          have hback := hgrows.deleteBroadcasts fun d hd =>
            (hrows.created d hd).1
          rw [deleteBroadcastById, hback, hjobs]
        refine Discipline.Ensures.bind ?_ ?_ hdeleted
        · rintro _ after ⟨_, rfl⟩
          exact Discipline.ensures_alone_fail.mpr rfl
        · rintro _ after ⟨⟨_, h⟩, _⟩
          cases h
  · rintro e s ⟨settled, hsettled, _⟩
    cases hsettled

theorem ensures_fanOutBroadcast {input : FanOutBroadcastInput} :
    fanningOut.Ensures (FanOutAllOrNothing maxAttempts input w)
      (fanOutBroadcast maxAttempts input) w := by
  refine Discipline.Ensures.bind ?_ ?_ ensures_requestId
  · rintro requestId t ⟨ht, _, hok, hrequest⟩
    cases hok
    rw [ht]
    refine Discipline.Ensures.bind ?_ ?_ ensures_acceptBroadcast
    · rintro ⟨broadcast, rows⟩ t haccepted
      obtain rfl : broadcast = input.broadcast := haccepted.1
      dsimp only
      split
      next hempty =>
        obtain ⟨_, hjobs, hgrows, hrows⟩ := haccepted
        have hnil : rows = [] := List.length_eq_zero_iff.mp hempty
        rw [hnil] at hgrows hrows
        exact Discipline.ensures_alone_done.mpr
          (fannedOut hrequest hgrows hrows hjobs)
      next => exact ensures_enqueueAccepted hrequest haccepted
    · exact fun e t ht => ht
  · rintro e t ⟨_, _, h, _⟩
    cases h

end FanOut

/-- A fan-out delivers to the whole snapshot or leaves no trace. -/
theorem fanOutBroadcast_allOrNothing (maxAttempts : ℕ)
    (input : FanOutBroadcastInput) (choices : ℕ → Choice) (w : World)
    (h : fanningOut.Permits choices 0 (fanOutBroadcast maxAttempts input) w) :
    FanOutAllOrNothing maxAttempts input w
      ((fanOutBroadcast maxAttempts input).eval performAccept choices 0 w).1
      ((fanOutBroadcast maxAttempts input).eval performAccept choices 0 w).2 :=
  ensures_fanOutBroadcast.eval trivial h

/-- A Channel with an enabled and a disabled Endpoint. -/
def acceptingWorld : World where
  db := .withEndpoints ⟨0, "orders", none, true, [], false, none, none, 0, 0⟩
    [⟨1, 0, none, "https://a.example", none, .empty, true, none, 0, 0⟩,
      ⟨2, 0, none, "https://b.example", none, .empty, false, none, 0, 0⟩]
  jobs := fun _ => none

def acceptedInput : FanOutBroadcastInput where
  broadcast := ⟨7, 0, 10, "application/json", [123, 125], .empty⟩

/-- No call fails and every drawn id is new. -/
def smoothly (i : ℕ) : Choice := { uuid := 100 + BitVec.ofNat 128 i }

theorem permits_smoothly : fanningOut.Permits smoothly 0
    (fanOutBroadcast 3 acceptedInput) acceptingWorld := by
  have hsmooth : ∀ {i : ℕ} {c : AcceptEffects.Call} {w : World},
      w.jobs (smoothly i).uuid = none → FanOutAssumes w c (smoothly i) :=
    fun hfree => ⟨fun _ h => (by cases h), fun _ _ => rfl, fun _ => hfree⟩
  -- the request id, the four statements of the transaction with the one new
  -- Delivery id, the look for a finished job and the bulk add
  refine .call (hsmooth rfl) ?_
  refine .call (hsmooth rfl) ?_
  refine .call (hsmooth rfl) ?_
  refine .call (hsmooth rfl) ?_
  refine .call (hsmooth rfl) ?_
  refine .call (hsmooth rfl) ?_
  refine .call (hsmooth rfl) ?_
  refine .call (hsmooth rfl) ?_
  trivial

theorem fanOutBroadcast_allOrNothing_smoothly :
    ((fanOutBroadcast 3 acceptedInput).eval performAccept smoothly 0
      acceptingWorld).1.toOption.map FanOutBroadcastResult.deliveryCount =
        some 1 ∧
    FanOutAllOrNothing 3 acceptedInput acceptingWorld
      ((fanOutBroadcast 3 acceptedInput).eval performAccept smoothly 0
        acceptingWorld).1
      ((fanOutBroadcast 3 acceptedInput).eval performAccept smoothly 0
        acceptingWorld).2 :=
  ⟨by decide, fanOutBroadcast_allOrNothing 3 acceptedInput smoothly
    acceptingWorld permits_smoothly⟩

end WebhookBroadcast
