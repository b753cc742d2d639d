import WebhookBroadcast.Ingest.Credentials
import WebhookBroadcast.Service.Broadcasts
import WebhookBroadcast.Worker.OutboundHeaders

/-!
# Payload fidelity

An ingested Broadcast with its replays, the replays of these and so on is a
tree that grows while anything else goes on in the service.  Ingest, every
replay and every Attempt copy the payload anew, each from a row that the run has
read; stored rows never change, so all copies are those of the root.
-/

namespace WebhookBroadcast

open Interaction Relational

/-! ## The tree -/

/-- The event stores a Broadcast under an id that was free. -/
structure Appears (dateParse : String → Option Instant) (w : World)
    (history : ServiceHistory) (event : ServiceEvent) (id : Uuid) : Prop where
  absent : stored? dateParse w history id = none
  present : stored? dateParse w (history ++ [event]) id ≠ none

/-- After this history the Broadcast under this id is stored, and it is the one
that was stored under `rootId` after `origin`, or a replay of one in the tree.
A replay is a Broadcast that appears at a step of a replay run, and its original
is the Broadcast that the run has read. -/
inductive ReplayTree (dateParse : String → Option Instant) (w : World)
    (origin : ServiceHistory) (rootId : Uuid) : ServiceHistory → Uuid → Prop
  | root : ReplayTree dateParse w origin rootId origin rootId
  | stays {history : ServiceHistory} {id : Uuid} (event : ServiceEvent)
      (h : ReplayTree dateParse w origin rootId history id)
      (hstored : stored? dateParse w (history ++ [event]) id ≠ none) :
      ReplayTree dateParse w origin rootId (history ++ [event]) id
  | replayed {before between : ServiceHistory} {originalId id : Uuid} {i : ℕ}
      {y x : Choice} {maxAttempts : ℕ} {channelId : Uuid}
      (horiginal : ReplayTree dateParse w origin rootId before originalId)
      (hread : (serve dateParse w before).Makes i
        (.replay maxAttempts channelId originalId)
        (.inr (.query (.getBroadcastById channelId originalId))))
      (happears : Appears dateParse w (before ++ .step i y :: between)
        (.step i x) id) :
      ReplayTree dateParse w origin rootId
        (before ++ .step i y :: between ++ [.step i x]) id

/-- The worker sends the request in an Attempt at a Delivery of the Broadcast
which is stored under this id after the history, when the run reads them. -/
inductive Attempts (dateParse : String → Option Instant) (w : World)
    (before : ServiceHistory) (id : Uuid) : OutboundRequest → Prop
  | sent {i : ℕ} {y : Choice} {between : ServiceHistory} {task : Task}
      {d : DeliveryRow} {request : OutboundRequest}
      (hread : (serve dateParse w before).Makes i (.process task)
        (.inl (.query (.getDeliveryForProcessing task.deliveryId))))
      (hdelivery : (serve dateParse w before).state.db.delivery?
        task.deliveryId = some d)
      (hid : d.broadcastId = id)
      (hsent : (serve dateParse w (before ++ .step i y :: between)).Makes i
        (.process task) (.inl (.fetch request))) :
      Attempts dateParse w before id request

section Serve

variable {dateParse : String → Option Instant} {w : World}
  {history : ServiceHistory} {id : Uuid}

/-! ## What is stored -/

theorem idle_runs (i : ℕ) : (Pool.idle w : ServicePool).runs[i]? = none := rfl

/-- What appears is the Broadcast of a transaction that a run commits. -/
theorem Appears.committed {event : ServiceEvent}
    (h : Appears dateParse w history event id) :
    ∃ i x task tx, event = .step i x ∧
      (serve dateParse w history).Makes i task (.inr (.query (.commit tx))) ∧
      stored? dateParse w (history ++ [event]) id = some tx.broadcast := by
  have hchange : BroadcastChange (serve dateParse w history) event id
      (stored? dateParse w history id)
      (stored? dateParse w (history ++ [event]) id) := stored?_concat
  have hpresent := h.present
  rw [h.absent] at hchange
  generalize stored? dateParse w (history ++ [event]) id = after at *
  cases hchange with
  | kept _ => exact absurd rfl hpresent
  | committed hevent hmakes _ => exact ⟨_, _, _, _, hevent, hmakes, rfl⟩

/-- What an ingest run stores has the contents of its request. -/
theorem Appears.stores {i : ℕ} {x : Choice} {hashToken : String → String}
    {config : IngestRouteConfig} {slug : String} {request : IngestRequest}
    (h : Appears dateParse w history (.step i x) id)
    (hrun : (serve dateParse w history).WorksOn i
      (.ingest hashToken config slug request)) :
    ∃ root, stored? dateParse w (history ++ [.step i x]) id = some root ∧
      config.Stores request root := by
  obtain ⟨_, _, task, tx, hevent, hmakes, hstored⟩ := h.committed
  cases hevent
  obtain rfl := hmakes.worksOn.unique hrun
  have htrace := ((service dateParse).observes_makes (idle_runs i) hmakes
    x).of_bind_done
  have hcalls := (amid_ingest hashToken config slug request).observes htrace
  have hstores := hcalls _ (List.mem_append_right _ List.mem_cons_self)
  exact ⟨tx.broadcast, hstored, hstores.1⟩

/-- A replay run stores the contents of the Broadcast that it has read. -/
theorem Appears.replays {before between : ServiceHistory} {originalId : Uuid}
    {i : ℕ} {y x : Choice} {maxAttempts : ℕ} {channelId : Uuid}
    (hread : (serve dateParse w before).Makes i
      (.replay maxAttempts channelId originalId)
      (.inr (.query (.getBroadcastById channelId originalId))))
    (h : Appears dateParse w (before ++ .step i y :: between) (.step i x) id) :
    ∃ original b, stored? dateParse w before originalId = some original ∧
      stored? dateParse w (before ++ .step i y :: between ++ [.step i x]) id =
        some b ∧ b.Replays original := by
  obtain ⟨_, _, task, tx, hevent, hmakes, hstored⟩ := h.committed
  cases hevent
  have hworks := (service dateParse).worksOn_append hread.worksOn
    (.step i y :: between)
  obtain rfl := hmakes.worksOn.unique hworks
  have htrace := ((service dateParse).observes_makes (idle_runs i) hmakes
    x).of_bind_done
  have hmem := (service dateParse).mem_madeBy_of_makes hread y between
  obtain ⟨original, hfound, hreplays⟩ := replays_of_observes htrace
    (List.mem_append_left _ hmem) rfl
    (List.mem_append_right _ List.mem_cons_self) rfl
  refine ⟨original, tx.broadcast, ?_, hstored, hreplays⟩
  exact (Option.filter_eq_some_iff.mp hfound).1

theorem BroadcastRow.Replays.refl (b : BroadcastRow) : b.Replays b :=
  ⟨rfl, rfl, rfl⟩

theorem BroadcastRow.Replays.trans {b b' b'' : BroadcastRow}
    (h : b.Replays b') (h' : b'.Replays b'') : b.Replays b'' := by
  obtain ⟨hcontentType, hbody, hheaders⟩ := h
  obtain ⟨hcontentType', hbody', hheaders'⟩ := h'
  exact ⟨hcontentType.trans hcontentType', hbody.trans hbody',
    hheaders.trans hheaders'⟩

/-- Every Broadcast of the tree has the contents of the root. -/
theorem ReplayTree.replays {origin : ServiceHistory} {rootId : Uuid}
    {root : BroadcastRow} (hroot : stored? dateParse w origin rootId = some root)
    (h : ReplayTree dateParse w origin rootId history id) :
    ∃ b, stored? dateParse w history id = some b ∧ b.Replays root := by
  induction h with
  | root => exact ⟨root, hroot, .refl root⟩
  | stays event _ hstored ih =>
      obtain ⟨b, hb, hreplays⟩ := ih
      exact ⟨b, stored?_of_kept hb hstored, hreplays⟩
  | replayed _ hread happears ih =>
      obtain ⟨original, horiginal, hroot⟩ := ih
      obtain ⟨found, b, hfound, hb, hreplays⟩ := happears.replays hread
      rw [horiginal] at hfound
      cases hfound
      exact ⟨b, hb, hreplays.trans hroot⟩

/-! ## What is sent -/

/-- A run that dials out has read its Delivery exactly once. -/
theorem read_of_fetch {i : ℕ} {task : Task} {request : OutboundRequest}
    (hsent : (serve dateParse w history).Makes i (.process task)
      (.inl (.fetch request))) :
    ∃ read record timeoutMs,
      (∀ m : Made AcceptEffects Choice World,
        m ∈ (service dateParse).madeBy i (Pool.idle w) history ∧ m.call =
          .inl (.query (.getDeliveryForProcessing task.deliveryId)) ↔
        m = read) ∧
      getDeliveryForProcessing read.found.db task.deliveryId = some record ∧
      request = outboundRequest record timeoutMs := by
  let fetched : Made AcceptEffects Choice World :=
    ⟨.inl (.fetch request), {}, (serve dateParse w history).state⟩
  have htrace := (service dateParse).observes_makes (idle_runs i) hsent {}
  obtain ⟨calls, hcalls, hmap⟩ := Program.Observes.of_inl htrace
  have hmem (m : Made AcceptEffects Choice World) :
      m ∈ (service dateParse).madeBy i (Pool.idle w) history ∨ m = fetched ↔
        ∃ c ∈ calls, c.inl = m := by
    rw [← List.mem_map, ← hmap, List.mem_append, List.mem_singleton]
    rfl
  obtain ⟨sent, hcalled, hsame⟩ := (hmem fetched).mp (Or.inr rfl)
  obtain ⟨first, rest, record, timeoutMs, rfl, hfirst, honce, hrecord,
    hrequest⟩ := exists_read_of_observes hcalls hcalled
      (Sum.inl.inj (congrArg Made.call hsame))
  refine ⟨first.inl, record, timeoutMs, fun m => ⟨?_, ?_⟩, hrecord, hrequest⟩
  · rintro ⟨hm, hread⟩
    obtain ⟨c, hc, rfl⟩ := (hmem m).mp (Or.inl hm)
    rcases List.mem_cons.mp hc with rfl | hc
    · rfl
    · exact absurd (Sum.inl.inj hread) (honce c hc)
  · rintro rfl
    refine ⟨?_, congrArg Sum.inl hfirst⟩
    rcases (hmem first.inl).mpr ⟨first, List.mem_cons_self, rfl⟩ with hm | hm
    · exact hm
    · have hcall : first.call = .fetch request :=
        Sum.inl.inj (congrArg Made.call hm)
      rw [hfirst] at hcall
      cases hcall

/-- The request of an Attempt has the payload of the Broadcast. -/
theorem Attempts.payload {request : OutboundRequest}
    (h : Attempts dateParse w history id request) :
    ∃ b, stored? dateParse w history id = some b ∧ request.body = b.body ∧
      request.HasContentType b.contentType := by
  cases h with
  | @sent i y between task d _ hread hdelivery hid hsent =>
      obtain ⟨read, record, timeoutMs, honce, hrecord, rfl⟩ :=
        read_of_fetch hsent
      have hmem := (service dateParse).mem_madeBy_of_makes hread y between
      have hfound := congrArg Made.found ((honce _).mp ⟨hmem, rfl⟩)
      rw [← hfound] at hrecord
      obtain ⟨b, hb, hbroadcast⟩ :=
        broadcast_of_getDeliveryForProcessing hdelivery hrecord
      rw [hid] at hb
      have hcontentType :=
        OutboundHeaders.hasContentType_outboundRequest record timeoutMs
      rw [hbroadcast] at hcontentType
      refine ⟨b, hb, ?_, hcontentType⟩
      rw [outboundRequest, hbroadcast]

/-- Whatever the worker sends, it sends in an Attempt. -/
theorem attempts_of_fetch {i : ℕ} {task : Task} {request : OutboundRequest}
    (hsent : (serve dateParse w history).Makes i (.process task)
      (.inl (.fetch request))) :
    ∃ before later id, history = before ++ later ∧
      Attempts dateParse w before id request := by
  obtain ⟨read, record, timeoutMs, honce, hrecord, -⟩ := read_of_fetch hsent
  obtain ⟨hmem, hcall⟩ := (honce read).mpr rfl
  obtain ⟨before, later, task', rfl, hmakes, hfound⟩ :=
    (service dateParse).makes_of_mem_madeBy hmem
  have hworks := (service dateParse).worksOn_append hmakes.worksOn
    (.step i read.choice :: later)
  obtain rfl := hworks.unique hsent.worksOn
  rw [hcall] at hmakes
  rw [hfound] at hrecord
  obtain ⟨d, hdelivery, -⟩ := Option.bind_eq_some_iff.mp hrecord
  exact ⟨before, _, d.broadcastId, rfl, .sent hmakes hdelivery rfl hsent⟩

end Serve

/-! ## Fidelity -/

/-- What is stored is what a transaction has inserted and never changed;
everything that is made of the root carries its payload; and no Endpoint gets a
second Delivery of one Broadcast. -/
structure KeepsPayload (dateParse : String → Option Instant) (w : World)
    (origin : ServiceHistory) (rootId : Uuid) (root : BroadcastRow) : Prop where
  inserted : ∀ history event id, Appears dateParse w history event id →
    ∃ i x task tx, event = .step i x ∧
      (serve dateParse w history).Makes i task (.inr (.query (.commit tx))) ∧
      stored? dateParse w (history ++ [event]) id = some tx.broadcast
  unchanged : ∀ history later id b, stored? dateParse w history id = some b →
    StaysStored dateParse w history later id →
    stored? dateParse w (history ++ later) id = some b
  replays : ∀ history id, ReplayTree dateParse w origin rootId history id →
    ∃ b, stored? dateParse w history id = some b ∧ b.Replays root
  attempts : ∀ history id request,
    ReplayTree dateParse w origin rootId history id →
    Attempts dateParse w history id request →
    request.body = root.body ∧ request.HasContentType root.contentType
  fetches : ∀ history i task request,
    (serve dateParse w history).Makes i (.process task)
      (.inl (.fetch request)) →
    ∃ before later id, history = before ++ later ∧
      Attempts dateParse w before id request
  single : ∀ history, ∀ d ∈ (serve dateParse w history).state.db.deliveries,
    ∀ d' ∈ (serve dateParse w history).state.db.deliveries,
    d'.broadcastId = d.broadcastId → d'.endpointId = d.endpointId → d' = d
  once : ∀ history later,
    ∀ d ∈ (serve dateParse w history).state.db.deliveries,
    ∀ d' ∈ (serve dateParse w (history ++ later)).state.db.deliveries,
    d'.broadcastId = d.broadcastId → d'.endpointId = d.endpointId →
    StaysStored dateParse w history later d.broadcastId → d'.id = d.id

/-- Payload fidelity from the sender to every Endpoint. -/
theorem payloadFidelity {dateParse : String → Option Instant} {w : World}
    {before : ServiceHistory} {i : ℕ} {x : Choice} {rootId : Uuid}
    {hashToken : String → String} {config : IngestRouteConfig} {slug : String}
    {request : IngestRequest}
    (hrun : (serve dateParse w before).WorksOn i
      (.ingest hashToken config slug request))
    (hroot : Appears dateParse w before (.step i x) rootId) :
    ∃ root, stored? dateParse w (before ++ [.step i x]) rootId = some root ∧
      root.body = request.body.chunks.flatten ∧
      root.contentType = request.contentType ∧
      root.headers = filterHeaders request.headers config.headerAllowlist
        config.headerDenylist ∧
      KeepsPayload dateParse w (before ++ [.step i x]) rootId root := by
  obtain ⟨root, hstored, hcontents⟩ := hroot.stores hrun
  refine ⟨root, hstored, readLimitedBody_eq_ok hcontents.body,
    hcontents.contentType, hcontents.headers, ?_⟩
  exact
    { inserted := fun history event id h => h.committed
      unchanged := fun history later id b hb => stored?_unchanged hb
      replays := fun history id h => h.replays hstored
      attempts := by
        intro history id sent htree hattempts
        obtain ⟨b, hb, hcontentType, hbody, -⟩ := htree.replays hstored
        obtain ⟨found, hfound, hsent, hheader⟩ := hattempts.payload
        rw [hb] at hfound
        cases hfound
        rw [hcontentType] at hheader
        exact ⟨hsent.trans hbody, hheader⟩
      fetches := fun history i task sent => attempts_of_fetch
      single := fun history d hd d' hd' hbroadcast hendpoint =>
        List.inj_on_of_nodup_map
          (serve dateParse w history).state.db.delivery_pair hd' hd
          (Prod.ext hbroadcast hendpoint)
      once := fun history later d hd d' hd' => delivery_once hd hd' }

/-! ## A replay that is sent -/

/-- A request with a body in two chunks. -/
def chunkedRequest : IngestRequest where
  headers := Js.Record.empty.set "content-type" (some (.single "text/plain"))
  length := none
  body := ⟨[[104], [105]], none⟩

/-- Steps of one run, none of which fails. -/
def stepping (i first count : ℕ) : ServiceHistory :=
  (List.range' first count).map fun k => .step i (smoothly k)

/-- Ingest up to its commit, which is the ninth call. -/
def beforeIngested : ServiceHistory :=
  .start (.ingest id openEnv.routeConfig openChannel.slug chunkedRequest) ::
    stepping 0 0 8

def ingested : ServiceHistory := beforeIngested ++ [.step 0 (smoothly 8)]

/-- A replay of it up to the read of the original. -/
def beforeReplayRead : ServiceHistory :=
  ingested ++ [.start (.replay 3 0 101)] ++ [.step 1 (smoothly 20)]

/-- The same replay up to its commit. -/
def beforeReplayed : ServiceHistory :=
  beforeReplayRead ++ .step 1 (smoothly 21) :: stepping 1 22 7

/-- The Attempt at the Delivery of the replay. -/
def relayTask : Task := ⟨⟨1000, none, none, none, none⟩, 127⟩

/-- The worker takes it up once the replay is committed. -/
def beforeRelayed : ServiceHistory :=
  beforeReplayed ++ [.step 1 (smoothly 29)] ++ [.start (.process relayTask)]

theorem replayTree_relayed :
    ReplayTree (fun _ => none) openWorld ingested 101 beforeRelayed 123 := by
  refine .stays _ ?_ (Option.isSome_iff_ne_none.mp rfl)
  have hread : ReplayTree (fun _ => none) openWorld ingested 101
      beforeReplayRead 101 :=
    .stays _ (.stays _ .root (Option.isSome_iff_ne_none.mp rfl))
      (Option.isSome_iff_ne_none.mp rfl)
  have hmakes : (serve (fun _ => none) openWorld beforeReplayRead).Makes 1
      (.replay 3 0 101) (.inr (.query (.getBroadcastById 0 101))) :=
    ⟨_, rfl, rfl, rfl⟩
  exact .replayed hread hmakes ⟨rfl, Option.isSome_iff_ne_none.mp rfl⟩

theorem payloadFidelity_replayed :
    ∃ sent, Attempts (fun _ => none) openWorld beforeRelayed 123 sent ∧
      sent.body = [104, 105] ∧ sent.HasContentType "text/plain" := by
  have hrun : (serve (fun _ => none) openWorld beforeIngested).WorksOn 0
      (.ingest id openEnv.routeConfig openChannel.slug chunkedRequest) :=
    ⟨_, rfl, rfl⟩
  have hroot : Appears (fun _ => none) openWorld beforeIngested
      (.step 0 (smoothly 8)) 101 := ⟨rfl, Option.isSome_iff_ne_none.mp rfl⟩
  obtain ⟨root, -, hbody, hcontentType, -, hkeeps⟩ := payloadFidelity hrun hroot
  have hread : (serve (fun _ => none) openWorld beforeRelayed).Makes 2
      (.process relayTask) (.inl (.query (.getDeliveryForProcessing 127))) :=
    ⟨_, rfl, rfl, rfl⟩
  obtain ⟨request, hfetch⟩ : ∃ request, (serve (fun _ => none) openWorld
      (beforeRelayed ++ .step 2 (smoothly 30) :: stepping 2 31 3)).Makes 2
        (.process relayTask) (.inl (.fetch request)) :=
    ⟨_, _, rfl, rfl, rfl⟩
  have hsent : Attempts (fun _ => none) openWorld beforeRelayed 123 request :=
    .sent hread rfl rfl hfetch
  obtain ⟨hpayload, hheader⟩ :=
    hkeeps.attempts _ _ _ replayTree_relayed hsent
  rw [hbody] at hpayload
  rw [hcontentType] at hheader
  exact ⟨_, hsent, hpayload, hheader⟩

end WebhookBroadcast
