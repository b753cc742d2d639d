import WebhookBroadcast.Ingest.Commits

/-!
# The ingest size limit

`readLimitedBody` of `apps/api/src/ingest/readLimitedBody.ts` as what it is, three
listeners on the request that share their variables, and the route around it,
which first looks at the declared length.  `Routes` takes the outcome of the
read from the chunks alone; here it is shown to be what the listeners settle
on, whatever is emitted afterwards.
-/

namespace WebhookBroadcast

open Interaction Relational

/-! ## The listeners -/

/-- What a request emits. -/
inductive BodyEvent where
  | data (chunk : List UInt8)
  | ended
  | error (message : String)

/-- The variables of one call of `readLimitedBody`, whether its listeners are
registered and the request is paused, and every settlement of its promise. -/
structure BodyReader where
  chunks : List (List UInt8) := []
  total : ℕ := 0
  settled : Bool := false
  listening : Bool := true
  paused : Bool := false
  settlements : List (Except BodyError (List UInt8)) := []

namespace BodyReader

def cleanup (r : BodyReader) : BodyReader := { r with listening := false }

def settle (r : BodyReader) (settlement : Except BodyError (List UInt8)) :
    BodyReader :=
  { r with settlements := r.settlements ++ [settlement] }

def fail (r : BodyReader) (error : BodyError) : BodyReader :=
  if r.settled then r
  else ({ r with settled := true } : BodyReader).cleanup.settle (.error error)

def onData (limitBytes : ℕ) (r : BodyReader) (chunk : List UInt8) :
    BodyReader :=
  let r := { r with total := r.total + chunk.length }
  if r.total > limitBytes then
    { r.fail (.payloadTooLarge limitBytes) with paused := true }
  else { r with chunks := r.chunks ++ [chunk] }

def onEnd (r : BodyReader) : BodyReader :=
  if r.settled then r
  else
    ({ r with settled := true } : BodyReader).cleanup.settle
      (.ok r.chunks.flatten)

def onError (r : BodyReader) (message : String) : BodyReader :=
  r.fail (.stream message)

/-- An event reaches the listeners while they are registered. -/
def emit (limitBytes : ℕ) (r : BodyReader) (event : BodyEvent) : BodyReader :=
  if r.listening then
    match event with
    | .data chunk => r.onData limitBytes chunk
    | .ended => r.onEnd
    | .error message => r.onError message
  else r

/-- The reader after these events. -/
def read (limitBytes : ℕ) (events : List BodyEvent) : BodyReader :=
  events.foldl (emit limitBytes) {}

/-- A reader that listens has kept everything so far and settled nothing; one
that does not has settled once. -/
structure Sound (limitBytes : ℕ) (r : BodyReader) : Prop where
  kept : r.chunks.flatten.length ≤ limitBytes
  counted : r.listening = true → r.total = r.chunks.flatten.length
  settled : r.settled = !r.listening
  settlements : r.settlements.length = if r.settled then 1 else 0

variable {limitBytes : ℕ} {r : BodyReader}

theorem Sound.not_settled (hr : r.Sound limitBytes)
    (hlistening : r.listening = true) : r.settled = false := by
  rw [hr.settled, hlistening, Bool.not_true]

theorem Sound.no_settlements (hr : r.Sound limitBytes)
    (hlistening : r.listening = true) : r.settlements = [] := by
  have hlength := hr.settlements
  rw [hr.not_settled hlistening] at hlength
  exact List.length_eq_zero_iff.mp hlength

/-- The reader once it has settled. -/
def closed (r : BodyReader) (settlement : Except BodyError (List UInt8)) :
    BodyReader :=
  { r with settled := true, listening := false, settlements := [settlement] }

/-- Counting and pausing make no difference to a reader that has settled. -/
theorem Sound.closed (hr : r.Sound limitBytes) (total : ℕ) (paused : Bool)
    (settlement : Except BodyError (List UInt8)) :
    ({ r with total := total, paused := paused } : BodyReader).closed
      settlement |>.Sound limitBytes where
  kept := hr.kept
  counted := by rintro ⟨⟩
  settled := rfl
  settlements := rfl

theorem fail_eq_closed (hr : r.Sound limitBytes)
    (hlistening : r.listening = true) (error : BodyError) :
    r.fail error = r.closed (.error error) := by
  simp [fail, hr.not_settled hlistening, settle, cleanup, BodyReader.closed,
    hr.no_settlements hlistening]

theorem onEnd_eq_closed (hr : r.Sound limitBytes)
    (hlistening : r.listening = true) :
    r.onEnd = r.closed (.ok r.chunks.flatten) := by
  simp [onEnd, hr.not_settled hlistening, settle, cleanup, BodyReader.closed,
    hr.no_settlements hlistening]

/-- A chunk beyond the limit is counted but not kept. -/
theorem onData_eq_closed (hr : r.Sound limitBytes)
    (hlistening : r.listening = true) {chunk : List UInt8}
    (hlarge : r.chunks.flatten.length + chunk.length > limitBytes) :
    r.onData limitBytes chunk =
      ({ r with total := r.total + chunk.length, paused := true } :
        BodyReader).closed (.error (.payloadTooLarge limitBytes)) := by
  rw [← hr.counted hlistening] at hlarge
  simp [onData, hlarge, fail, hr.not_settled hlistening, settle, cleanup,
    BodyReader.closed, hr.no_settlements hlistening]

theorem onData_eq_kept (hr : r.Sound limitBytes)
    (hlistening : r.listening = true) {chunk : List UInt8}
    (hsmall : ¬r.chunks.flatten.length + chunk.length > limitBytes) :
    r.onData limitBytes chunk =
      { r with
        total := r.total + chunk.length
        chunks := r.chunks ++ [chunk] } := by
  rw [← hr.counted hlistening] at hsmall
  simp only [onData, if_neg hsmall]

theorem sound_onData (hr : r.Sound limitBytes) (hlistening : r.listening = true)
    (chunk : List UInt8) : (r.onData limitBytes chunk).Sound limitBytes := by
  by_cases hlarge : r.chunks.flatten.length + chunk.length > limitBytes
  · rw [onData_eq_closed hr hlistening hlarge]
    exact hr.closed _ _ _
  · rw [onData_eq_kept hr hlistening hlarge]
    refine ⟨?_, fun _ => ?_, hr.settled, hr.settlements⟩
    · simp only [List.flatten_append, List.flatten_singleton,
        List.length_append]
      omega
    · simp [hr.counted hlistening]

theorem sound_emit (hr : r.Sound limitBytes) (event : BodyEvent) :
    (r.emit limitBytes event).Sound limitBytes := by
  unfold emit
  split
  next hlistening =>
    cases event with
    | data chunk => exact sound_onData hr hlistening chunk
    | ended =>
        dsimp only
        rw [onEnd_eq_closed hr hlistening]
        exact hr.closed r.total r.paused _
    | error message =>
        dsimp only [onError]
        rw [fail_eq_closed hr hlistening]
        exact hr.closed r.total r.paused _
  · exact hr

theorem sound_foldl (events : List BodyEvent) :
    ∀ {r : BodyReader}, r.Sound limitBytes →
      (events.foldl (emit limitBytes) r).Sound limitBytes := by
  induction events with
  | nil => exact fun hr => hr
  | cons event events ih => exact fun hr => ih (sound_emit hr event)

theorem sound_read (limitBytes : ℕ) (events : List BodyEvent) :
    (read limitBytes events).Sound limitBytes :=
  sound_foldl events ⟨by simp, fun _ => rfl, rfl, rfl⟩

theorem settlements_length_le (limitBytes : ℕ) (events : List BodyEvent) :
    (read limitBytes events).settlements.length ≤ 1 := by
  rw [(sound_read limitBytes events).settlements]
  split <;> omega

/-- Nothing reaches a reader that has settled. -/
theorem foldl_emit_closed (settlement : Except BodyError (List UInt8))
    (late : List BodyEvent) :
    late.foldl (emit limitBytes) (r.closed settlement) =
      r.closed settlement := by
  induction late with
  | nil => rfl
  | cons event late ih => exact ih

end BodyReader

/-! ## The read that the route awaits -/

/-- How the stream ends. -/
def BodyStream.ending (req : BodyStream) : BodyEvent :=
  match req.error with
  | none => .ended
  | some message => .error message

/-- The events of a body that comes off the socket. -/
def BodyStream.events (req : BodyStream) : List BodyEvent :=
  req.chunks.map .data ++ [req.ending]

/-- A reader that listens settles on what collecting the chunks gives. -/
theorem settlements_foldl_events {limitBytes : ℕ} {error : Option String}
    (late : List BodyEvent) {chunks : List (List UInt8)} :
    ∀ {r : BodyReader}, r.Sound limitBytes → r.listening = true →
      ((BodyStream.events ⟨chunks, error⟩ ++ late).foldl
        (BodyReader.emit limitBytes) r).settlements =
          [collectChunks limitBytes error r.chunks.flatten chunks] := by
  induction chunks with
  | nil =>
      intro r hr hlistening
      cases error with
      | none =>
          have hend : r.emit limitBytes .ended =
              r.closed (.ok r.chunks.flatten) := by
            rw [BodyReader.emit, if_pos hlistening]
            exact BodyReader.onEnd_eq_closed hr hlistening
          change (late.foldl _ (r.emit limitBytes .ended)).settlements = _
          rw [hend, BodyReader.foldl_emit_closed]
          rfl
      | some message =>
          have hend : r.emit limitBytes (.error message) =
              r.closed (.error (.stream message)) := by
            rw [BodyReader.emit, if_pos hlistening]
            exact BodyReader.fail_eq_closed hr hlistening _
          change (late.foldl _
            (r.emit limitBytes (.error message))).settlements = _
          rw [hend, BodyReader.foldl_emit_closed]
          rfl
  | cons chunk rest ih =>
      intro r hr hlistening
      have hdata : r.emit limitBytes (.data chunk) =
          r.onData limitBytes chunk := if_pos hlistening
      change ((BodyStream.events ⟨rest, error⟩ ++ late).foldl _
        (r.emit limitBytes (.data chunk))).settlements = _
      rw [hdata, collectChunks]
      split
      next hlarge =>
        rw [BodyReader.onData_eq_closed hr hlistening hlarge,
          BodyReader.foldl_emit_closed]
        rfl
      next hsmall =>
        have hkept := BodyReader.onData_eq_kept hr hlistening hsmall
        have hsound := BodyReader.sound_onData hr hlistening chunk
        rw [hkept] at hsound ⊢
        rw [ih hsound hlistening]
        simp

/-- The promise settles once the stream has ended, as the chunks say; what is
emitted later makes no difference. -/
theorem settlements_read (req : BodyStream) (limitBytes : ℕ)
    (late : List BodyEvent) :
    (BodyReader.read limitBytes (req.events ++ late)).settlements =
      [readLimitedBody req limitBytes] :=
  settlements_foldl_events late (BodyReader.sound_read limitBytes []) rfl

/-! ## The read and the declared length -/

namespace IngestRequest

/-- The bytes that the request carries. -/
def bytes (request : IngestRequest) : List UInt8 :=
  request.body.chunks.flatten

/-- What the server and the framework make of the length of a body: nothing
without a `Content-Length`, else the number of bytes that follow, as a signed
32-bit integer. -/
def Framed (request : IngestRequest) : Prop :=
  ∀ declared ∈ request.length, declared = Js.toInt32 request.bytes.length

end IngestRequest

/-- Collecting fits the limit, whatever the chunks, exactly if all bytes do. -/
theorem collectChunks_eq {limitBytes : ℕ} {error : Option String}
    {chunks : List (List UInt8)} :
    ∀ {body : List UInt8}, body.length ≤ limitBytes →
      collectChunks limitBytes error body chunks =
        if (body ++ chunks.flatten).length ≤ limitBytes then
          collectChunks limitBytes error (body ++ chunks.flatten) []
        else .error (.payloadTooLarge limitBytes) := by
  induction chunks with
  | nil =>
      intro body hbody
      rw [List.flatten_nil, List.append_nil, if_pos hbody]
  | cons chunk rest ih =>
      intro body hbody
      rw [collectChunks, List.flatten_cons, ← List.append_assoc]
      split
      next hlarge =>
        rw [if_neg]
        simp only [List.length_append]
        omega
      next hsmall =>
        refine ih ?_
        rw [List.length_append]
        omega

theorem readLimitedBody_of_lt {req : BodyStream} {limitBytes : ℕ}
    (h : limitBytes < req.chunks.flatten.length) :
    readLimitedBody req limitBytes = .error (.payloadTooLarge limitBytes) := by
  rw [readLimitedBody, collectChunks_eq (Nat.zero_le _), List.nil_append,
    if_neg (Nat.not_le.mpr h)]

theorem readLimitedBody_of_le {req : BodyStream} {limitBytes : ℕ}
    (h : req.chunks.flatten.length ≤ limitBytes) :
    readLimitedBody req limitBytes =
      collectChunks limitBytes req.error req.chunks.flatten [] := by
  rw [readLimitedBody, collectChunks_eq (Nat.zero_le _), List.nil_append,
    if_pos h]

/-! ## The route -/

section Route

variable {config : IngestRouteConfig} {channel : ChannelRow}
  {request : IngestRequest}

/-- What the route does with the body that it has read. -/
def acceptBody (config : IngestRouteConfig) (channel : ChannelRow)
    (request : IngestRequest) (body : List UInt8) :
    AcceptAction IngestOutcome := do
  let id ← randomUUID
  let receivedAt ← now
  let result ← fanOutBroadcast config.maxAttempts
    { broadcast :=
        { id := id
          channelId := channel.id
          receivedAt := receivedAt
          contentType := request.contentType
          body := body
          headers := filterHeaders request.headers
            config.headerAllowlist config.headerDenylist } }
  return .responded
    ⟨channel.ingestSuccessStatus.getD config.successStatus,
      .accepted result.broadcast.id⟩

/-- A body beyond the limit is refused, by its declared length or by its
chunks. -/
theorem acceptRequest_of_lt
    (hlarge : config.maxBodyBytes < request.bytes.length) :
    acceptRequest config channel request =
      return .responded
        (payloadTooLarge (payloadTooLargeMessage config.maxBodyBytes)) := by
  unfold acceptRequest
  split
  · rfl
  · rw [readLimitedBody_of_lt hlarge]

/-- The declared length of a body within the limit passes: wrapping makes it
only smaller. -/
theorem acceptRequest_of_le (hframed : request.Framed)
    (hsmall : request.bytes.length ≤ config.maxBodyBytes) :
    acceptRequest config channel request =
      match request.body.error with
      | none => acceptBody config channel request request.bytes
      | some message => return .threw message := by
  have hdeclared : (request.length.any fun declared =>
      (declared : ℤ) > config.maxBodyBytes) = false := by
    cases hlength : request.length with
    | none => rfl
    | some declared =>
        have hwrapped := Js.toInt32_le request.bytes.length
        rw [← hframed declared hlength] at hwrapped
        simp only [Option.any_some, decide_eq_false_iff_not]
        omega
  unfold acceptRequest
  rw [hdeclared, readLimitedBody_of_le hsmall]
  cases herror : request.body.error with
  | none => rfl
  | some message => rfl

/-! ## What an accepted request leaves -/

theorem always_ingestQuery (q : IngestQuery) {w : World}
    {post : Except Thrown q.Result → World → Prop}
    (hok : ∀ result, (q.run w.db).1 = .ok result →
      post (.ok result) { w with db := (q.run w.db).2 })
    (herror : ∀ e t, post (.error e) t) :
    (ingestQuery q).Always performAccept post w := by
  intro x
  rcases performAccept_query_cases x q w with
    ⟨result, hresult, hrun⟩ | ⟨e, t, hrun, -⟩
  · rw [hrun]
    exact hok result hresult
  · rw [hrun]
    exact herror _ _

/-- The Broadcast is stored. -/
def World.Stores (w : World) (broadcast : BroadcastRow) : Prop :=
  broadcast ∈ w.db.broadcasts

theorem always_commitSnapshot (broadcast : BroadcastRow) (now : Instant)
    (enabledEndpoints : List EndpointRow) (w : World) :
    (commitSnapshot broadcast now enabledEndpoints).Always performAccept
      (fun r t => ∀ accepted, r = .ok accepted →
        accepted.1 = broadcast ∧ t.Stores broadcast) w := by
  refine (Program.always_trivial _ w).bind (fun deliveries t _ => ?_)
    (by rintro e t - _ ⟨⟩)
  have hcommit : (ingestQuery (.commit ⟨broadcast, deliveries⟩)).Always
      performAccept (fun r t => r = .ok () → t.Stores broadcast) t := by
    refine always_ingestQuery (.commit ⟨broadcast, deliveries⟩) ?_ ?_
    · rintro _ hcheck -
      have hgrows := Transaction.grows_commit hcheck
      rw [World.Stores, Table.mem_def]
      exact hgrows.broadcasts ▸ List.mem_append_right _ List.mem_cons_self
    · rintro e s ⟨⟩
  refine hcommit.bind (fun _ s hs => ?_) (by rintro e s - _ ⟨⟩)
  rintro _ ⟨⟩
  exact ⟨rfl, hs rfl⟩

theorem always_acceptBroadcast (input : BroadcastRow) (now : Instant)
    (w : World) : (acceptBroadcast input now).Always performAccept
      (fun r t => ∀ accepted, r = .ok accepted →
        accepted.1 = input ∧ t.Stores input) w := by
  rw [acceptBroadcast_eq]
  have hinsert : (ingestQuery (.insertBroadcast input)).Always performAccept
      (fun r _ => ∀ broadcast, r = .ok broadcast → broadcast = input) w := by
    refine always_ingestQuery (.insertBroadcast input) ?_ ?_
    · rintro result hresult _ ⟨⟩
      exact result_insertBroadcast hresult
    · rintro e t _ ⟨⟩
  refine hinsert.bind (fun broadcast t hbroadcast => ?_) (by rintro e t - _ ⟨⟩)
  rw [hbroadcast broadcast rfl]
  exact (Program.always_trivial _ t).bind
    (fun enabledEndpoints s _ => always_commitSnapshot input now _ s)
    (by rintro e s - _ ⟨⟩)

/-- Neither the queue nor a statement of `Effects` touches the Broadcasts. -/
theorem stores_performAccept {broadcast : BroadcastRow}
    {c : AcceptEffects.Call} (hc : ∀ q, c ≠ .inr (.query q)) (x : Choice)
    (w : World) (hw : w.Stores broadcast) :
    (performAccept x c w).2.Stores broadcast := by
  rcases c with c | q | jobs
  · change broadcast ∈ (perform x c w).2.db.broadcasts
    rw [perform_broadcasts]
    exact hw
  · exact absurd rfl (hc q)
  · change broadcast ∈ (performIngest x (.addBulk jobs) w).2.db.broadcasts
    rcases performIngest_db x (.addBulk jobs) w with hsame | ⟨q, hq, -⟩
    · rw [hsame]
      exact hw
    · cases hq

/-- A fan-out that resolves leaves its Broadcast stored. -/
theorem always_enqueueAccepted {broadcast : BroadcastRow} {w : World}
    (hw : w.Stores broadcast) (maxAttempts : ℕ) (requestId : Uuid)
    (deliveries : List DeliveryRow) :
    (enqueueAccepted maxAttempts requestId (broadcast, deliveries)).Always
      performAccept (fun r t => ∀ result, r = .ok result →
        result.broadcast = broadcast ∧ t.Stores broadcast) w := by
  change Program.Always _ _ (if deliveries.length = 0 then _ else _) w
  split
  · rintro _ ⟨⟩
    exact ⟨rfl, hw⟩
  · have henqueued : (enqueueBulk maxAttempts (deliveries.map fun delivery =>
        delivery.workItem requestId broadcast)).settle.Amid performAccept
        (fun c => ∀ q, c ≠ .inr (.query q)) fun _ => True := by
      refine Program.Amid.settle (fun _ _ => trivial)
        (amid_enqueueBulk ?_ ?_ _ _)
      · rintro c q ⟨⟩
      · rintro jobs q ⟨⟩
    have hkept := henqueued.always (fun c hc x s =>
      stores_performAccept hc x s) hw
    refine hkept.bind ?_ (by rintro e t - _ ⟨⟩)
    rintro (error | _) t ⟨-, ht⟩
    · refine (Program.always_trivial _ t).bind (fun _ _ _ => ?_) ?_
      · rintro _ ⟨⟩
      · rintro e s - _ ⟨⟩
    · rintro _ ⟨⟩
      exact ⟨rfl, ht⟩

theorem always_fanOutBroadcast (maxAttempts : ℕ) (input : FanOutBroadcastInput)
    (w : World) : (fanOutBroadcast maxAttempts input).Always performAccept
      (fun r t => ∀ result, r = .ok result →
        result.broadcast = input.broadcast ∧ t.Stores input.broadcast) w := by
  rw [fanOutBroadcast_eq]
  refine (Program.always_trivial _ w).bind (fun requestId t _ => ?_)
    (by rintro e t - _ ⟨⟩)
  refine (always_acceptBroadcast input.broadcast _ t).bind ?_
    (by rintro e s - _ ⟨⟩)
  rintro ⟨broadcast, deliveries⟩ s haccepted
  obtain ⟨hsame, hs⟩ := haccepted _ rfl
  dsimp only at hsame
  rw [hsame]
  exact always_enqueueAccepted hs maxAttempts requestId deliveries

/-- The bytes of an accepted request are stored under the id that it is
answered with. -/
theorem always_acceptBody (config : IngestRouteConfig) (channel : ChannelRow)
    (request : IngestRequest) (body : List UInt8) (w : World) :
    (acceptBody config channel request body).Always performAccept
      (fun r t => ∀ status id,
        r = .ok (.responded ⟨status, .accepted id⟩) →
          ∃ broadcast, t.Stores broadcast ∧ broadcast.id = id ∧
            broadcast.body = body) w := by
  refine fun x y => (always_fanOutBroadcast _ _ _).bind ?_ ?_
  · rintro result t hresult status id hanswer
    obtain ⟨hbroadcast, ht⟩ := hresult result rfl
    cases hanswer
    refine ⟨_, ht, ?_, rfl⟩
    rw [hbroadcast]
  · rintro e t - status id ⟨⟩

/-! ## The limit is exact -/

/-- How a run at the limit of the configuration compares to one at another
limit, if the latter accepts the request. -/
def IngestRouteConfig.LimitsTo (config : IngestRouteConfig)
    (request : IngestRequest)
    (answered accepted : Except Thrown IngestOutcome × World) : Prop :=
  ∀ status id, accepted.1 = .ok (.responded ⟨status, .accepted id⟩) →
    (answered.1 = .ok (.responded
        (payloadTooLarge (payloadTooLargeMessage config.maxBodyBytes))) ↔
      request.bytes.length > config.maxBodyBytes) ∧
    (request.bytes.length ≤ config.maxBodyBytes →
      answered = accepted ∧ ∃ broadcast ∈ accepted.2.db.broadcasts,
        broadcast.id = id ∧ broadcast.body = request.bytes)

/-- A request whose body is too large is not accepted. -/
theorem length_le_of_accepted {choices : ℕ → Choice} {i : ℕ} {w : World}
    {status : ℕ} {id : Uuid}
    (haccepted : ((acceptRequest config channel request).eval performAccept
      choices i w).1 = .ok (.responded ⟨status, .accepted id⟩)) :
    request.bytes.length ≤ config.maxBodyBytes := by
  by_contra hlarge
  rw [acceptRequest_of_lt (Nat.lt_of_not_le hlarge)] at haccepted
  cases haccepted

/-- Both configurations treat a body that fits in the same way. -/
theorem limitsTo_acceptRequest (hframed : request.Framed) (enough : ℕ)
    (choices : ℕ → Choice) (i : ℕ) (w : World) :
    config.LimitsTo request
      ((acceptRequest config channel request).eval performAccept choices i w)
      ((acceptRequest { config with maxBodyBytes := enough } channel
        request).eval performAccept choices i w) := by
  intro status id haccepted
  have henough := length_le_of_accepted haccepted
  rw [acceptRequest_of_le hframed henough] at haccepted ⊢
  cases herror : request.body.error with
  | some message =>
      rw [herror] at haccepted
      cases haccepted
  | none =>
      rw [herror] at haccepted
      change ((acceptBody config channel request request.bytes).eval
        performAccept choices i w).1 = _ at haccepted
      have hstored := always_acceptBody config channel request request.bytes w
      by_cases hlarge : request.bytes.length > config.maxBodyBytes
      · rw [acceptRequest_of_lt hlarge]
        exact ⟨iff_of_true rfl hlarge, fun hsmall =>
          absurd hsmall (Nat.not_le.mpr hlarge)⟩
      · have hsmall := Nat.le_of_not_lt hlarge
        rw [acceptRequest_of_le hframed hsmall, herror]
        refine ⟨iff_of_false ?_ hlarge, fun _ =>
          ⟨rfl, hstored.eval status id haccepted⟩⟩
        dsimp only
        rw [haccepted]
        rintro ⟨⟩

theorem everyEnd_checkIngestToken (hashToken : String → String)
    (channel : ChannelRow) (request : IngestRequest) :
    (checkIngestToken hashToken channel request).EveryEnd fun r =>
      ∀ response, r = .ok (some response) →
        ∃ message, response = unauthorized message := by
  unfold checkIngestToken
  split
  · rintro _ ⟨⟩
  · split
    · rintro _ ⟨⟩
      exact ⟨_, rfl⟩
    · rintro (e | channelToken)
      · rintro _ ⟨⟩
      · cases channelToken with
        | none =>
            rintro _ ⟨⟩
            exact ⟨_, rfl⟩
        | some _ => rintro _ ⟨⟩

end Route

/-- A request that is accepted apart from the limit is answered 413 exactly
when its body is larger than the limit, and else all its bytes are stored; a
read settles at most once and keeps no more than the limit, whatever is
emitted. -/
theorem ingest_bodyLimit (hashToken : String → String)
    (config : IngestRouteConfig) (slug : String) (request : IngestRequest)
    (choices : ℕ → Choice) (w : World) :
    (request.Framed → ∀ enough, config.LimitsTo request
      ((ingest hashToken config slug request).eval performAccept choices 0 w)
      ((ingest hashToken { config with maxBodyBytes := enough } slug
        request).eval performAccept choices 0 w)) ∧
    (∀ limitBytes events,
      (BodyReader.read limitBytes events).settlements.length ≤ 1 ∧
        (BodyReader.read limitBytes events).chunks.flatten.length ≤
          limitBytes) ∧
    ∀ req limitBytes late,
      (BodyReader.read limitBytes (req.events ++ late)).settlements =
        [readLimitedBody req limitBytes] := by
  refine ⟨fun hframed enough => ?_, fun limitBytes events =>
    ⟨BodyReader.settlements_length_le limitBytes events,
      (BodyReader.sound_read limitBytes events).kept⟩, settlements_read⟩
  refine Program.eval_bind_related (R := config.LimitsTo request)
    (fun channel i t _ => ?_) (by rintro e t status id ⟨⟩)
    Program.EveryEnd.trivial
  cases channel with
  | none => rintro status id ⟨⟩
  | some channel =>
      refine Program.eval_bind_related (R := config.LimitsTo request)
        (fun refused j s hrefused => ?_) (by rintro e t status id ⟨⟩)
        (everyEnd_checkIngestToken hashToken channel request)
      cases refused with
      | some response =>
          obtain ⟨message, rfl⟩ := hrefused response rfl
          rintro status id ⟨⟩
      | none => exact limitsTo_acceptRequest hframed enough choices j s

/-- Three bytes in three chunks, with their number declared. -/
def threeBytes : IngestRequest where
  headers := .empty
  length := some 3
  body := { chunks := [[1], [], [2, 3]] }

/-- A Channel that everyone may ingest to, without Endpoints. -/
def openToAll : World where
  db := .withEndpoints
    ⟨0, "orders-of-the-open-channel", none, true, [], true, none, none, 0, 0⟩ []
  jobs := fun _ => none

def limitedTo (maxBodyBytes : ℕ) : IngestRouteConfig :=
  ⟨3, maxBodyBytes, [], [], 202⟩

theorem accepted_threeBytes :
    ((ingest id (limitedTo 10) "orders-of-the-open-channel" threeBytes).eval
      performAccept smoothly 0 openToAll).1 =
        .ok (.responded ⟨202, .accepted 101⟩) := rfl

/-- Accepted where there is room for them, the bytes are refused at a limit of
two and stored at a limit of three. -/
theorem ingest_bodyLimit_threeBytes :
    ((ingest id (limitedTo 2) "orders-of-the-open-channel" threeBytes).eval
      performAccept smoothly 0 openToAll).1 =
        .ok (.responded (payloadTooLarge (payloadTooLargeMessage 2))) ∧
    ∃ broadcast ∈ ((ingest id (limitedTo 3) "orders-of-the-open-channel"
      threeBytes).eval performAccept smoothly 0 openToAll).2.db.broadcasts,
        broadcast.body = [1, 2, 3] := by
  have hframed : threeBytes.Framed := by
    rintro _ ⟨⟩
    decide
  refine ⟨(((ingest_bodyLimit id (limitedTo 2) "orders-of-the-open-channel"
    threeBytes smoothly openToAll).1 hframed 10 202 101
      accepted_threeBytes).1).mpr
      (by decide), ?_⟩
  obtain ⟨hsame, broadcast, hmem, -, hbody⟩ :=
    ((ingest_bodyLimit id (limitedTo 3) "orders-of-the-open-channel"
      threeBytes smoothly openToAll).1 hframed 10 202 101
      accepted_threeBytes).2 (by decide)
  exact ⟨broadcast, hsame ▸ hmem, hbody⟩

end WebhookBroadcast
