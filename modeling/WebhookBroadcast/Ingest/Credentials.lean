import WebhookBroadcast.Admin.Fingerprints
import WebhookBroadcast.Ingest.Commits
import WebhookBroadcast.Worker.Calls

/-!
# Sender credentials

Two ingest requests that differ in nothing but the headers which carry the
sender's credentials.  Whatever else goes on in the system, the Broadcasts that
stem from them, by ingest and by any number of replays, have the same contents;
so nothing that is made from a stored Broadcast, no outbound request and no
fingerprint, tells the two apart.
-/

namespace WebhookBroadcast

open Interaction

/-! ## What stems from a request -/

/-- The requests are the same but for sensitive headers. -/
structure IngestRequest.SameButCredentials
    (request request' : IngestRequest) : Prop where
  headers : AgreeExceptSensitive request.headers request'.headers
  length : request.length = request'.length
  body : request.body = request'.body

/-- The Broadcasts that ingest of the request commits, the replays of these,
the replays of those, and so on. -/
inductive StemsFrom (env : IngestEnv) (slug : String)
    (request : IngestRequest) : BroadcastRow → Prop
  | ingested {hashToken : String → String}
      {trace : List (Made AcceptEffects Choice World)}
      (htrace : (ingest hashToken env.routeConfig slug request).Observes
        performAccept trace)
      {m : Made AcceptEffects Choice World} (hm : m ∈ trace) {tx : Transaction}
      (hcommit : m.call = .inr (.query (.commit tx))) :
      StemsFrom env slug request tx.broadcast
  | replayed {original : BroadcastRow}
      (horiginal : StemsFrom env slug request original)
      {maxAttempts : ℕ} {channelId broadcastId : Uuid}
      {trace : List (Made AcceptEffects Choice World)}
      (htrace : (replayBroadcast maxAttempts channelId broadcastId).Observes
        performAccept trace)
      {read : Made AcceptEffects Choice World} (hread : read ∈ trace)
      (hcall : read.call =
        .inr (.query (.getBroadcastById channelId broadcastId)))
      (hfound : getBroadcastById read.found.db channelId broadcastId =
        some original)
      {m : Made AcceptEffects Choice World} (hm : m ∈ trace) {tx : Transaction}
      (hcommit : m.call = .inr (.query (.commit tx))) :
      StemsFrom env slug request tx.broadcast

/-- The rows that a run joins when it reads its Delivery. -/
def Database.Joins (db : Database) (deliveryId : Uuid)
    (broadcast : BroadcastRow) (endpoint : EndpointRow)
    (channel : ChannelRow) : Prop :=
  ∃ row, db.delivery? deliveryId = some row ∧
    db.broadcasts.find? row.broadcastId = some broadcast ∧
    db.endpoints.find? row.endpointId = some endpoint ∧
    db.channels.find? row.channelId = some channel

/-- The worker sends the request for a Delivery of the Broadcast to the
Endpoint. -/
inductive Sends (broadcast : BroadcastRow) (endpoint : EndpointRow)
    (channel : ChannelRow) : OutboundRequest → Prop
  | attempted {dateParse : String → Option Instant}
      {deps : ProcessDeliveryDeps} {deliveryId : Uuid}
      {trace : List (Made Effects Choice World)}
      (htrace : (processDelivery dateParse deps deliveryId).Observes
        perform trace)
      {read : Made Effects Choice World} (hread : read ∈ trace)
      (hcall : read.call = .query (.getDeliveryForProcessing deliveryId))
      (hjoins : read.found.db.Joins deliveryId broadcast endpoint channel)
      {sent : Made Effects Choice World} (hsent : sent ∈ trace)
      {request : OutboundRequest} (hfetch : sent.call = .fetch request) :
      Sends broadcast endpoint channel request

/-! ## Requests that agree -/

theorem Sensitive.not_contentType : ¬ Sensitive "content-type" := by
  decide

/-- A header that is not sensitive is looked up among those that are not. -/
theorem get?_eq_find?_insensitive {name : String} (h : ¬ Sensitive name)
    (headers : IncomingHttpHeaders) :
    headers.get? name = ((insensitive headers).find? fun entry =>
      entry.1 = name).map Prod.snd := by
  rw [insensitive, List.find?_filter, Js.Record.get?]
  congr 2
  funext entry
  by_cases hname : entry.1 = name
  · simp [hname, h]
  · simp [hname]

namespace IngestRequest.SameButCredentials

variable {request request' : IngestRequest}
  (h : request.SameButCredentials request')

include h

theorem contentType : request.contentType = request'.contentType := by
  have hget : request.get "content-type" = request'.get "content-type" := by
    rw [IngestRequest.get, IngestRequest.get,
      get?_eq_find?_insensitive Sensitive.not_contentType,
      get?_eq_find?_insensitive Sensitive.not_contentType, h.headers]
  rw [IngestRequest.contentType, IngestRequest.contentType, hget]

/-- What either request stores has the contents that the other stores. -/
theorem replays {env : IngestEnv} {b b' : BroadcastRow}
    (hb : env.routeConfig.Stores request b)
    (hb' : env.routeConfig.Stores request' b') : b.Replays b' := by
  refine ⟨?_, ?_, ?_⟩
  · rw [hb.contentType, hb'.contentType, h.contentType]
  · have hbody := hb.body
    rw [h.body, hb'.body] at hbody
    exact (Except.ok.inj hbody).symm
  · rw [hb.headers, hb'.headers]
    exact filterHeaders_congr h.headers _ _

end IngestRequest.SameButCredentials

/-! ## What is stored -/

/-- A replay commits the contents of the Broadcast that it reads. -/
theorem replays_of_observes {maxAttempts : ℕ} {channelId broadcastId : Uuid}
    {trace : List (Made AcceptEffects Choice World)}
    (htrace : (replayBroadcast maxAttempts channelId broadcastId).Observes
      performAccept trace)
    {read : Made AcceptEffects Choice World} (hread : read ∈ trace)
    (hcall : read.call =
      .inr (.query (.getBroadcastById channelId broadcastId)))
    {m : Made AcceptEffects Choice World} (hm : m ∈ trace) {tx : Transaction}
    (hcommit : m.call = .inr (.query (.commit tx))) :
    ∃ original, getBroadcastById read.found.db channelId broadcastId =
      some original ∧ tx.broadcast.Replays original := by
  rcases observes_ingestQuery htrace with
    rfl | ⟨x₁, w₁, rest₁, rfl, hrest₁⟩
  · simp at hm
  · have hm₁ : m ∈ rest₁ := by
      rcases List.mem_cons.mp hm with rfl | hm
      · cases hcommit
      · exact hm
    have hread₁ : read ∈ rest₁ := by
      rcases List.mem_cons.mp hread with rfl | hread
      · cases hcall
      · exact hread
    rcases hrest₁ with rfl | ⟨channel, -, hrest₁⟩
    · simp at hm₁
    · cases channel with
      | none =>
          cases hrest₁
          simp at hm₁
      | some channel =>
          rcases observes_ingestQuery hrest₁ with
            rfl | ⟨x₂, w₂, rest₂, rfl, hrest₂⟩
          · simp at hm₁
          · have hm₂ : m ∈ rest₂ := by
              rcases List.mem_cons.mp hm₁ with rfl | hm
              · cases hcommit
              · exact hm
            rcases hrest₂ with rfl | ⟨found, hresult, hrest₂⟩
            · simp at hm₂
            · cases found with
              | none =>
                  cases hrest₂
                  simp at hm₂
              | some found =>
                  have hcalls := (amid_replayOf maxAttempts found).observes
                    hrest₂
                  have hreplays := hcalls m hm₂
                  rw [hcommit] at hreplays
                  -- nothing after this statement reads a Broadcast
                  rcases List.mem_cons.mp hread₁ with rfl | hread₂
                  · exact ⟨found, Except.ok.inj hresult, hreplays.1⟩
                  · have hnone := hcalls read hread₂
                    rw [hcall] at hnone
                    exact hnone.elim

/-- Whatever stems from a request has its contents, as the filter leaves
them. -/
theorem StemsFrom.stores {env : IngestEnv} {slug : String}
    {request : IngestRequest} {b : BroadcastRow}
    (hb : StemsFrom env slug request b) :
    env.routeConfig.Stores request b := by
  induction hb with
  | ingested htrace hm hcommit =>
      have hstores := (amid_ingest _ _ _ _).observes htrace _ hm
      rw [hcommit] at hstores
      exact hstores.1
  | replayed _ htrace hread hcall hfound hm hcommit ih =>
      obtain ⟨found, hread, hcontentType, hbody, hheaders⟩ :=
        replays_of_observes htrace hread hcall hm hcommit
      obtain rfl : found = _ := Option.some.inj (hread.symm.trans hfound)
      exact ⟨hcontentType.trans ih.contentType, hbody ▸ ih.body,
        hheaders.trans ih.headers⟩

/-! ## What is sent -/

/-- If the call dials out, then with a request made from the record, and the
record is not read again. -/
def Call.Relays (record : DeliveryForProcessing) : Call → Prop
  | .fetch request => ∃ timeoutMs, request = outboundRequest record timeoutMs
  | .query (.getDeliveryForProcessing _) => False
  | _ => True

namespace MakesOnly

variable {record : DeliveryForProcessing}

theorem relays_markDeliveryInProgress (deliveryId : Uuid)
    (updatedAt : Instant) :
    MakesOnly (Call.Relays record)
      (markDeliveryInProgress deliveryId updatedAt) := by
  refine bind (query trivial) fun claimed => ?_
  split
  · exact done _
  · exact bind (query trivial) fun _ => done _

theorem relays_dialEndpoint (dateParse : String → Option Instant)
    (deps : ProcessDeliveryDeps) :
    MakesOnly (Call.Relays record)
      (WebhookBroadcast.dialEndpoint dateParse deps record) := by
  refine bind (call trivial) fun startedAt => bind (call ⟨_, rfl⟩) ?_
  intro reply
  cases reply with
  | failure aborted message => exact bind (call trivial) fun _ => done _
  | response status retryAfter =>
      have hretry : MakesOnly (Call.Relays record)
          (WebhookBroadcast.readRetryAfterMs dateParse status retryAfter) := by
        unfold WebhookBroadcast.readRetryAfterMs
        split
        · exact bind (call trivial) fun _ => done _
        · exact done _
      refine bind hretry fun retryAfterMs => ?_
      exact bind (call trivial) fun _ => bind (call trivial) fun _ => done _

theorem relays_computeBackoffDelayMs (input : BackoffInput) :
    MakesOnly (Call.Relays record)
      (WebhookBroadcast.computeBackoffDelayMs input) :=
  (computeBackoffDelayMs input).mono fun c _ h => by
    rw [h]
    trivial

theorem relays_maybeAutoDisableEndpoint (endpointId : Uuid) (ms : ℕ)
    (now : Instant) :
    MakesOnly (Call.Relays record)
      (WebhookBroadcast.maybeAutoDisableEndpoint endpointId ms now) :=
  (maybeAutoDisableEndpoint endpointId ms now).mono fun c _ h => by
    unfold Call.OnEndpoint at h
    split at h
    · trivial
    · trivial
    · trivial
    · trivial
    · exact h.elim

theorem relays_finishAttempt (deps : ProcessDeliveryDeps) (deliveryId : Uuid)
    (n : ℕ) (attempt : HttpAttempt) (at_ : Instant) (status : DeliveryStatus) :
    MakesOnly (Call.Relays record)
      (finishAttempt deps deliveryId n attempt at_ status) := by
  have htry (q : Query) (hq : (Call.query q).Relays record) :
      MakesOnly (Call.Relays record) (tryQuery q) := ⟨hq, fun _ => trivial⟩
  refine bind (htry _ trivial) fun completed => ?_
  cases completed with
  | ok _ => exact done _
  | error dbErr =>
      refine bind (query trivial) fun _ => ?_
      exact bind (relays_computeBackoffDelayMs _) fun _ => trivial

theorem relays_settleAttempt (deps : ProcessDeliveryDeps) (deliveryId : Uuid)
    (n : ℕ) (attempt : HttpAttempt) (at_ : Instant) :
    MakesOnly (Call.Relays record)
      (settleAttempt deps record deliveryId n attempt at_) := by
  unfold settleAttempt
  split
  · exact relays_finishAttempt _ _ _ _ _ _
  · split
    · refine bind (relays_finishAttempt _ _ _ _ _ _) fun _ => ?_
      exact bind (relays_maybeAutoDisableEndpoint _ _ _) fun _ => done _
    · split
      · refine bind (relays_finishAttempt _ _ _ _ _ _) fun _ => ?_
        exact bind (relays_maybeAutoDisableEndpoint _ _ _) fun _ => done _
      · refine bind (relays_finishAttempt _ _ _ _ _ _) fun _ => ?_
        exact bind (relays_computeBackoffDelayMs _) fun _ => trivial

end MakesOnly

/-- Once the record has been read, only its contents are sent. -/
theorem relays_afterRead {dateParse : String → Option Instant}
    {deps : ProcessDeliveryDeps} {deliveryId : Uuid}
    {k : Except DbError (Option DeliveryForProcessing) → Action Unit}
    (hk : processDelivery dateParse deps deliveryId =
      .call (.query (.getDeliveryForProcessing deliveryId)) k)
    (record : DeliveryForProcessing) :
    MakesOnly (Call.Relays record) (k (.ok (some record))) := by
  cases hk
  change MakesOnly _ (if record.status ≠ .pending ∧
    record.status ≠ .inProgress then _ else _)
  split
  · exact MakesOnly.done _
  · refine ⟨trivial, fun claimedAt => ?_⟩
    change MakesOnly _ (markDeliveryInProgress deliveryId claimedAt >>= _)
    refine MakesOnly.bind
      (MakesOnly.relays_markDeliveryInProgress deliveryId claimedAt)
      fun inProgress => ?_
    split
    · exact MakesOnly.done _
    · refine MakesOnly.bind (MakesOnly.relays_dialEndpoint dateParse deps)
        fun attempt => ⟨trivial, fun at_ => ?_⟩
      exact MakesOnly.relays_settleAttempt _ _ _ _ _

/-- A run that dials out has read its Delivery first, and never again, and its
request is made from what it has read. -/
theorem exists_read_of_observes {dateParse : String → Option Instant}
    {deps : ProcessDeliveryDeps} {deliveryId : Uuid}
    {trace : List (Made Effects Choice World)}
    (htrace : (processDelivery dateParse deps deliveryId).Observes perform
      trace)
    {sent : Made Effects Choice World} (hsent : sent ∈ trace)
    {request : OutboundRequest} (hfetch : sent.call = .fetch request) :
    ∃ read rest record timeoutMs, trace = read :: rest ∧
      read.call = .query (.getDeliveryForProcessing deliveryId) ∧
      (∀ m ∈ rest, m.call ≠ .query (.getDeliveryForProcessing deliveryId)) ∧
      getDeliveryForProcessing read.found.db deliveryId = some record ∧
      request = outboundRequest record timeoutMs := by
  cases htrace with
  | nil _ => simp at hsent
  | @cons _ _ x w rest hrest =>
      have hsent' : sent ∈ rest := by
        rcases List.mem_cons.mp hsent with rfl | hsent
        · cases hfetch
        · exact hsent
      rcases perform_read (x := x) (w := w)
          (q := .getDeliveryForProcessing deliveryId) rfl with
        ⟨hrun, -⟩ | ⟨e, hrun, -⟩
      · rw [hrun] at hrest
        cases hrecord : getDeliveryForProcessing w.db deliveryId with
        | none =>
            rw [Query.run, hrecord] at hrest
            cases hrest
            simp at hsent'
        | some record =>
            rw [Query.run, hrecord] at hrest
            have hcalls := (Program.Amid.of_everyCall
              (relays_afterRead rfl record)).observes hrest
            have hrequest := hcalls sent hsent'
            rw [hfetch] at hrequest
            obtain ⟨timeoutMs, hrequest⟩ := hrequest
            refine ⟨_, rest, record, timeoutMs, rfl, rfl, ?_, hrecord, hrequest⟩
            intro m hm hagain
            have hnone := hcalls m hm
            rw [hagain] at hnone
            exact hnone
      · rw [hrun] at hrest
        cases hrest
        simp at hsent'

/-- The request of an Attempt is made from the rows that the run has read. -/
theorem Sends.eq_outboundRequest {broadcast : BroadcastRow}
    {endpoint : EndpointRow} {channel : ChannelRow} {request : OutboundRequest}
    (h : Sends broadcast endpoint channel request) :
    ∃ record timeoutMs, request = outboundRequest record timeoutMs ∧
      record.broadcast =
        ⟨broadcast.contentType, broadcast.body, broadcast.headers⟩ ∧
      record.endpoint = ⟨endpoint.url, endpoint.headers, endpoint.timeoutMs⟩ ∧
      record.channel = ⟨channel.forwardHeaders⟩ := by
  cases h with
  | @attempted dateParse deps deliveryId trace htrace read hread hcall hjoins
      sent hsent _ hfetch =>
      obtain ⟨first, rest, record, timeoutMs, rfl, -, hlater, hrecord,
        hrequest⟩ := exists_read_of_observes htrace hsent hfetch
      refine ⟨record, timeoutMs, hrequest, ?_⟩
      rcases List.mem_cons.mp hread with rfl | hread
      · obtain ⟨row, hrow, hbroadcast, hendpoint, hchannel⟩ := hjoins
        simp [getDeliveryForProcessing, hrow, hbroadcast, hendpoint,
          hchannel] at hrecord
        rw [← hrecord]
        exact ⟨rfl, rfl, rfl⟩
      · exact absurd hcall (hlater read hread)

/-- Broadcasts with the same contents are sent alike: to Endpoints with the
same URL and headers, on Channels that forward the same headers. -/
theorem Sends.same {b b' : BroadcastRow} (hb : b.Replays b')
    {endpoint endpoint' : EndpointRow} {channel channel' : ChannelRow}
    (hurl : endpoint.url = endpoint'.url)
    (hheaders : endpoint.headers = endpoint'.headers)
    (hforward : channel.forwardHeaders = channel'.forwardHeaders)
    {request request' : OutboundRequest}
    (h : Sends b endpoint channel request)
    (h' : Sends b' endpoint' channel' request') :
    request.url = request'.url ∧ request.headers = request'.headers ∧
      request.body = request'.body := by
  obtain ⟨record, timeoutMs, rfl, hbroadcast, hendpoint, hchannel⟩ :=
    h.eq_outboundRequest
  obtain ⟨record', timeoutMs', rfl, hbroadcast', hendpoint', hchannel'⟩ :=
    h'.eq_outboundRequest
  obtain ⟨hcontentType, hbody, hstored⟩ := hb
  refine ⟨?_, ?_, ?_⟩
  · simp [outboundRequest, hendpoint, hendpoint', hurl]
  · simp [outboundRequest, hbroadcast, hbroadcast', hendpoint, hendpoint',
      hchannel, hchannel', hcontentType, hstored, hheaders, hforward]
  · simp [outboundRequest, hbroadcast, hbroadcast', hbody]

/-! ## No trace of the credentials -/

/-- Nobody who sees what is stored, sent or fingerprinted can tell which of the
two requests it stems from. -/
structure Indistinguishable (b b' : BroadcastRow) : Prop where
  headers : b.headers = b'.headers
  fingerprints : ∀ (sha256 : String → String)
    (localeCompare : String → String → Ordering) (forwardHeaders : List String),
    fingerprintForwardedHeaders sha256 localeCompare b.headers forwardHeaders =
      fingerprintForwardedHeaders sha256 localeCompare b'.headers
        forwardHeaders
  attempts : ∀ (endpoint endpoint' : EndpointRow)
    (channel channel' : ChannelRow) (request request' : OutboundRequest),
    endpoint.url = endpoint'.url → endpoint.headers = endpoint'.headers →
    channel.forwardHeaders = channel'.forwardHeaders →
    Sends b endpoint channel request → Sends b' endpoint' channel' request' →
    request.url = request'.url ∧ request.headers = request'.headers ∧
      request.body = request'.body

/-- Sender credentials never leave the ingest filter. -/
theorem indistinguishable_of_sameButCredentials {env : IngestEnv}
    {slug : String} {request request' : IngestRequest}
    (h : request.SameButCredentials request') {b b' : BroadcastRow}
    (hb : StemsFrom env slug request b)
    (hb' : StemsFrom env slug request' b') : Indistinguishable b b' := by
  have hreplays := h.replays hb.stores hb'.stores
  refine ⟨hreplays.2.2, fun sha256 localeCompare forwardHeaders => ?_, ?_⟩
  · rw [hreplays.2.2]
  · intro endpoint endpoint' channel channel' q q' hurl hheaders hforward hq hq'
    exact Sends.same hreplays hurl hheaders hforward hq hq'

/-! ## Two requests to an open Channel -/

def openEnv : IngestEnv where
  DELIVERY_MAX_ATTEMPTS := 3
  INGEST_MAX_BODY_BYTES := 1024
  INGEST_HEADER_ALLOWLIST := "authorization,x-trace"
  INGEST_HEADER_DENYLIST := ""
  INGEST_SUCCESS_STATUS := 202

def openChannel : ChannelRow where
  id := 0
  slug := "orders-of-the-open-channel"
  forwardHeaders := ["cookie", "x-trace"]
  allowUnauthenticatedIngest := true
  createdAt := 0
  updatedAt := 0

def openEndpoint : EndpointRow :=
  ⟨1, 0, none, "https://a.example", none, .empty, true, none, 0, 0⟩

def openWorld : World where
  db := .withEndpoints openChannel [openEndpoint]
  jobs := fun _ => none

/-- A request with this header and nothing else. -/
def requestWith (name value : String) : IngestRequest where
  headers := Js.Record.empty.set name (some (.single value))
  length := none
  body := ⟨[], none⟩

theorem sameButCredentials_openly :
    (requestWith "Cookie" "session=1").SameButCredentials
      (requestWith "X-API-Key" "secret") where
  headers := by
    rw [AgreeExceptSensitive]
    decide
  length := rfl
  body := rfl

/-- What ingest stores of the request when no call fails. -/
def openBroadcast (name value : String) : BroadcastRow where
  id := 101
  channelId := 0
  receivedAt := 0
  contentType := (requestWith name value).contentType
  body := []
  headers := filterHeaders (requestWith name value).headers
    openEnv.routeConfig.headerAllowlist openEnv.routeConfig.headerDenylist

theorem stemsFrom_openly (name value : String) :
    StemsFrom openEnv openChannel.slug (requestWith name value)
      (openBroadcast name value) := by
  -- the ninth call of ingest is its commit
  have hcommit : ((ingest id openEnv.routeConfig openChannel.slug
      (requestWith name value)).callsAmid performAccept (fun _ w => w) smoothly
        0 openWorld)[8]?.map Made.call =
      some (Sum.inr (IngestCall.query (.commit
        ⟨openBroadcast name value, [.created 106 101 1 0 0]⟩))) := rfl
  obtain ⟨m, hm, hcall⟩ := Option.map_eq_some_iff.mp hcommit
  exact .ingested (Program.observes_callsAmid _ 0 openWorld)
    (List.mem_of_getElem? hm) hcall

/-- The world in which this has been committed. -/
def ingestedWorld (name value : String) : World where
  db := Transaction.commit ⟨openBroadcast name value,
    [.created 106 101 1 0 0]⟩ openWorld.db
  jobs := fun _ => none

/-- What the worker reads there. -/
def openRecord (name value : String) : DeliveryForProcessing where
  id := 106
  endpointId := 1
  status := .pending
  attemptCount := 0
  endpoint := ⟨openEndpoint.url, openEndpoint.headers, none⟩
  broadcast := ⟨(openBroadcast name value).contentType, [],
    (openBroadcast name value).headers⟩
  channel := ⟨openChannel.forwardHeaders⟩

theorem sends_openly (name value : String) :
    Sends (openBroadcast name value) openEndpoint openChannel
      (outboundRequest (openRecord name value) 1000) := by
  let calls := (processDelivery (fun _ => none) ⟨1000, none, none, none, none⟩
    106).callsAmid perform (fun _ w => w) smoothly 0 (ingestedWorld name value)
  have hread : calls[0]? = some
      ⟨.query (.getDeliveryForProcessing 106), smoothly 0,
        ingestedWorld name value⟩ := rfl
  have hfetch : calls[4]?.map Made.call = some (Call.fetch
      (outboundRequest (openRecord name value) 1000)) := rfl
  obtain ⟨sent, hsent, hcall⟩ := Option.map_eq_some_iff.mp hfetch
  exact .attempted (Program.observes_callsAmid _ 0 _)
    (List.mem_of_getElem? hread) rfl ⟨_, rfl, rfl, rfl, rfl⟩
    (List.mem_of_getElem? hsent) hcall

theorem indistinguishable_openly :
    Sends (openBroadcast "Cookie" "session=1") openEndpoint openChannel
      (outboundRequest (openRecord "Cookie" "session=1") 1000) ∧
    Indistinguishable (openBroadcast "Cookie" "session=1")
      (openBroadcast "X-API-Key" "secret") :=
  ⟨sends_openly _ _, indistinguishable_of_sameButCredentials
    sameButCredentials_openly (stemsFrom_openly _ _) (stemsFrom_openly _ _)⟩

end WebhookBroadcast
