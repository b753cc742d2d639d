import WebhookBroadcast.Db.Schema

/-!
# Deliveries repository

The statements of `packages/db/src/repositories/deliveries.ts` that processing
and operator retry issue, each as one atomic function on the database, with the
lemma that says what it does to the row and the Attempt log of any one
Delivery.
-/

namespace WebhookBroadcast

open Relational

/-- Why the database rejected a statement. -/
inductive DbError where
  | uniqueViolation (constraint : String)
  | foreignKeyViolation (constraint : String)
  | checkViolation (constraint : String)
  | unavailable (message : String)
deriving DecidableEq, Repr

/-! ## Reads -/

/-- The Endpoint columns of `DeliveryForProcessing`. -/
structure EndpointForProcessing where
  url : String
  headers : Js.Record String
  timeoutMs : Option ℕ
deriving DecidableEq

/-- The Broadcast columns of `DeliveryForProcessing`. -/
structure BroadcastForProcessing where
  contentType : String
  body : List UInt8
  headers : Js.Record HeaderValue
deriving DecidableEq

/-- The Channel columns of `DeliveryForProcessing`. -/
structure ChannelForProcessing where
  forwardHeaders : List String
deriving DecidableEq

/-- Everything the worker needs for one HTTP Attempt. -/
structure DeliveryForProcessing where
  id : Uuid
  endpointId : Uuid
  status : DeliveryStatus
  attemptCount : ℕ
  endpoint : EndpointForProcessing
  broadcast : BroadcastForProcessing
  channel : ChannelForProcessing
deriving DecidableEq

/-- The worker's sole read before dialing out: the Delivery joined with its
Endpoint, Broadcast and Channel. -/
def getDeliveryForProcessing (db : Database) (deliveryId : Uuid) :
    Option DeliveryForProcessing :=
  (db.delivery? deliveryId).bind fun row =>
  (db.endpoints.find? row.endpointId).bind fun endpoint =>
  (db.broadcasts.find? row.broadcastId).bind fun broadcast =>
  (db.channels.find? row.channelId).map fun channel =>
    { id := row.id
      endpointId := row.endpointId
      status := row.status
      attemptCount := row.attemptCount
      endpoint := ⟨endpoint.url, endpoint.headers, endpoint.timeoutMs⟩
      broadcast := ⟨broadcast.contentType, broadcast.body, broadcast.headers⟩
      channel := ⟨channel.forwardHeaders⟩ }

/-- Endpoint identity plus current status of a Delivery. -/
structure DeliveryDetailRow where
  id : Uuid
  broadcastId : Uuid
  channelId : Uuid
  endpointId : Uuid
  endpointName : Option String
  endpointUrl : String
  status : DeliveryStatus
  attemptCount : ℕ
  lastStatusCode : Option ℕ
  lastDurationMs : Option ℤ
  lastError : Option String
  updatedAt : Instant
deriving DecidableEq

/-- Delivery detail, addressed by id alone. -/
def getDeliveryDetailById (db : Database) (deliveryId : Uuid) :
    Option DeliveryDetailRow :=
  (db.delivery? deliveryId).bind fun row =>
  (db.endpoints.find? row.endpointId).map fun endpoint =>
    { id := row.id
      broadcastId := row.broadcastId
      channelId := row.channelId
      endpointId := row.endpointId
      endpointName := endpoint.name
      endpointUrl := endpoint.url
      status := row.status
      attemptCount := row.attemptCount
      lastStatusCode := row.lastStatusCode
      lastDurationMs := row.lastDurationMs
      lastError := row.lastError
      updatedAt := row.updatedAt }

/-- `SELECT status`: the second statement of `markDeliveryInProgress`. -/
def selectDeliveryStatus (db : Database) (deliveryId : Uuid) :
    Option DeliveryStatus :=
  (db.delivery? deliveryId).map DeliveryRow.status

/-- The foreign keys make the inner joins total on existing Deliveries. -/
theorem getDeliveryForProcessing_of_row {db : Database} {deliveryId : Uuid}
    {row : DeliveryRow} (h : db.delivery? deliveryId = some row) :
    ∃ record, getDeliveryForProcessing db deliveryId = some record ∧
      record.id = row.id ∧ record.endpointId = row.endpointId ∧
      record.status = row.status ∧
      record.attemptCount = row.attemptCount := by
  have hrow := Database.mem_of_delivery? h
  obtain ⟨e, he, heid⟩ := db.delivery_endpoint row hrow
  obtain ⟨b, hb, hbid⟩ := db.delivery_broadcast row hrow
  obtain ⟨c, hc, hcid⟩ := db.delivery_channel row hrow
  have hefind := db.endpoints.find?_eq_some_iff.mpr ⟨he, heid⟩
  have hbfind := db.broadcasts.find?_eq_some_iff.mpr ⟨hb, hbid⟩
  have hcfind := db.channels.find?_eq_some_iff.mpr ⟨hc, hcid⟩
  simp [getDeliveryForProcessing, h, hefind, hbfind, hcfind]

theorem broadcast_of_getDeliveryForProcessing {db : Database}
    {deliveryId : Uuid} {row : DeliveryRow} {record : DeliveryForProcessing}
    (hrow : db.delivery? deliveryId = some row)
    (h : getDeliveryForProcessing db deliveryId = some record) :
    ∃ b, db.broadcasts.find? row.broadcastId = some b ∧
      record.broadcast = ⟨b.contentType, b.body, b.headers⟩ := by
  rw [getDeliveryForProcessing, hrow, Option.bind_some] at h
  obtain ⟨e, -, h⟩ := Option.bind_eq_some_iff.mp h
  obtain ⟨b, hb, h⟩ := Option.bind_eq_some_iff.mp h
  obtain ⟨c, -, rfl⟩ := Option.map_eq_some_iff.mp h
  exact ⟨b, hb, rfl⟩

theorem isSome_of_getDeliveryForProcessing {db : Database}
    {deliveryId : Uuid} {record : DeliveryForProcessing}
    (h : getDeliveryForProcessing db deliveryId = some record) :
    (db.delivery? deliveryId).isSome := by
  obtain ⟨row, hrow, _⟩ := Option.bind_eq_some_iff.mp h
  rw [hrow]
  rfl

theorem getDeliveryDetailById_of_row {db : Database} {deliveryId : Uuid}
    {row : DeliveryRow} (h : db.delivery? deliveryId = some row) :
    ∃ detail, getDeliveryDetailById db deliveryId = some detail ∧
      detail.id = row.id ∧ detail.status = row.status := by
  obtain ⟨e, he, heid⟩ :=
    db.delivery_endpoint row (Database.mem_of_delivery? h)
  have hefind := db.endpoints.find?_eq_some_iff.mpr ⟨he, heid⟩
  simp [getDeliveryDetailById, h, hefind]

theorem id_of_getDeliveryDetailById {db : Database} {deliveryId : Uuid}
    {detail : DeliveryDetailRow}
    (h : getDeliveryDetailById db deliveryId = some detail) :
    detail.id = deliveryId := by
  obtain ⟨row, hrow, hdetail⟩ := Option.bind_eq_some_iff.mp h
  obtain ⟨endpoint, _, rfl⟩ := Option.map_eq_some_iff.mp hdetail
  exact Database.id_of_delivery? hrow

/-! ## Creation -/

/-- The row that `createDeliveriesForBroadcast` inserts for one Endpoint. -/
def DeliveryRow.created (id broadcastId endpointId channelId : Uuid)
    (now : Instant) : DeliveryRow where
  id := id
  broadcastId := broadcastId
  endpointId := endpointId
  channelId := channelId
  status := .pending
  attemptCount := 0
  lastStatusCode := none
  lastDurationMs := none
  lastError := none
  updatedAt := now

/-! ## Guarded status moves -/

/-- The row after a status move. -/
def DeliveryRow.moved (row : DeliveryRow) (new : DeliveryStatus)
    (updatedAt : Instant) : DeliveryRow :=
  { row with status := new, updatedAt := updatedAt }

theorem DeliveryRow.identity_moved (row : DeliveryRow) (new : DeliveryStatus)
    (updatedAt : Instant) :
    (row.moved new updatedAt).identity = row.identity := rfl

/-- A status move of one Delivery, guarded on the status it leaves:
`UPDATE … SET status, updated_at WHERE id AND status RETURNING id`.  The
result says whether a row was returned. -/
def moveStatus (old new : DeliveryStatus) (db : Database) (deliveryId : Uuid)
    (updatedAt : Instant) : Bool × Database :=
  let matched : DeliveryRow → Bool :=
    fun row => row.id = deliveryId && row.status = old
  (!(db.deliveries.select matched).isEmpty,
    db.updateDeliveries matched (fun row => row.moved new updatedAt)
      fun row => row.identity_moved new updatedAt)

/-- Claims a pending Delivery: the first statement of
`markDeliveryInProgress`. -/
def claimPendingDelivery : Database → Uuid → Instant → Bool × Database :=
  moveStatus .pending .inProgress

/-- Releases a stuck `in_progress` claim back to `pending` when the worker
could not persist the Attempt outcome. -/
def resetInProgressDeliveryToPending :
    Database → Uuid → Instant → Bool × Database :=
  moveStatus .inProgress .pending

/-- Re-queues a `dead_lettered` Delivery. -/
def retryDeadLetteredDelivery : Database → Uuid → Instant → Bool × Database :=
  moveStatus .deadLettered .pending

section MoveStatus

variable {old new : DeliveryStatus} {db : Database} {deliveryId : Uuid}
  {updatedAt : Instant}

theorem moveStatus_result_iff :
    (moveStatus old new db deliveryId updatedAt).1 = true ↔
      ∃ row, db.delivery? deliveryId = some row ∧ row.status = old := by
  simp only [moveStatus, Bool.not_eq_true', List.isEmpty_eq_false_iff_exists_mem,
    Table.mem_select, Bool.and_eq_true, decide_eq_true_eq]
  constructor
  · rintro ⟨row, hrow, hid, hstatus⟩
    exact ⟨row, db.deliveries.find?_eq_some_iff.mpr ⟨hrow, hid⟩, hstatus⟩
  · rintro ⟨row, hrow, hstatus⟩
    exact ⟨row, Database.mem_of_delivery? hrow,
      Database.id_of_delivery? hrow, hstatus⟩

theorem delivery?_moveStatus_self :
    (moveStatus old new db deliveryId updatedAt).2.delivery? deliveryId =
      (db.delivery? deliveryId).map fun row =>
        if row.status = old then row.moved new updatedAt else row := by
  rw [moveStatus, Database.delivery?_updateDeliveries]
  cases hrow : db.delivery? deliveryId with
  | none => rfl
  | some row => simp [Database.id_of_delivery? hrow]

theorem delivery?_moveStatus_of_ne {other : Uuid} (h : other ≠ deliveryId) :
    (moveStatus old new db deliveryId updatedAt).2.delivery? other =
      db.delivery? other := by
  rw [moveStatus, Database.delivery?_updateDeliveries]
  cases hrow : db.delivery? other with
  | none => rfl
  | some row =>
      have hid : row.id ≠ deliveryId := by
        rw [Database.id_of_delivery? hrow]
        exact h
      simp [hid]

@[simp] theorem attemptLog_moveStatus (other : Uuid) :
    (moveStatus old new db deliveryId updatedAt).2.attemptLog other =
      db.attemptLog other := rfl

/-- A moved Delivery is still the same one. -/
theorem identity_moveStatus {other : Uuid} {row' : DeliveryRow}
    (h : (moveStatus old new db deliveryId updatedAt).2.delivery? other =
      some row') :
    ∃ row, db.delivery? other = some row ∧ row'.identity = row.identity := by
  rw [moveStatus, Database.delivery?_updateDeliveries] at h
  obtain ⟨row, hrow, rfl⟩ := Option.map_eq_some_iff.mp h
  refine ⟨row, hrow, ?_⟩
  split <;> rfl

end MoveStatus

/-! ## Recording an Attempt -/

/-- The outcome of one Attempt and the status that results from it. -/
structure CompleteDeliveryInput where
  deliveryId : Uuid
  n : ℕ
  statusCode : Option ℕ
  durationMs : ℤ
  error : Option String
  status : DeliveryStatus
  at_ : Instant
deriving DecidableEq

/-- The Attempt row that `completeDelivery` inserts. -/
def CompleteDeliveryInput.attempt (input : CompleteDeliveryInput) :
    AttemptRow where
  deliveryId := input.deliveryId
  n := input.n
  statusCode := input.statusCode
  durationMs := input.durationMs
  error := input.error
  at_ := input.at_

/-- The Delivery row after `completeDelivery`. -/
def CompleteDeliveryInput.complete (input : CompleteDeliveryInput)
    (row : DeliveryRow) : DeliveryRow :=
  { row with
    status := input.status
    attemptCount := input.n
    lastStatusCode := input.statusCode
    lastDurationMs := some input.durationMs
    lastError := input.error
    updatedAt := input.at_ }

theorem CompleteDeliveryInput.identity_complete
    (input : CompleteDeliveryInput) (row : DeliveryRow) :
    (input.complete row).identity = row.identity := rfl

/-- Records one Attempt and the Delivery's resulting status in one
transaction: a refused insert rolls the whole of it back. -/
def completeDelivery (db : Database) (input : CompleteDeliveryInput) :
    Except DbError Unit × Database :=
  match db.insertAttempt? input.attempt with
  | none =>
      if (db.delivery? input.deliveryId).isSome then
        (.error (.uniqueViolation "attempt_delivery_id_n_key"), db)
      else
        (.error (.foreignKeyViolation "attempt_delivery_id_delivery_id_fk"), db)
  | some db' =>
      (.ok (), db'.updateDeliveries
        (fun row => row.id = input.deliveryId) input.complete
        input.identity_complete)

section CompleteDelivery

variable {db : Database} {input : CompleteDeliveryInput}

/-- The transaction can commit: the row is there and its number is free. -/
def Recordable (db : Database) (input : CompleteDeliveryInput) : Prop :=
  (db.delivery? input.deliveryId).isSome ∧
    ∀ a ∈ db.attemptLog input.deliveryId, a.n ≠ input.n

instance : Decidable (Recordable db input) :=
  inferInstanceAs (Decidable (_ ∧ _))

theorem recordable_iff_insertAttempt :
    Recordable db input ↔ (db.insertAttempt? input.attempt).isSome :=
  (Database.insertAttempt?_isSome_iff (a := input.attempt)).symm

theorem completeDelivery_of_not_recordable (h : ¬ Recordable db input) :
    (∃ e, (completeDelivery db input).1 = .error e) ∧
      (completeDelivery db input).2 = db := by
  rw [recordable_iff_insertAttempt, Option.not_isSome_iff_eq_none] at h
  simp only [completeDelivery, h]
  split <;> exact ⟨⟨_, rfl⟩, rfl⟩

theorem completeDelivery_of_insertAttempt {db' : Database}
    (h : db.insertAttempt? input.attempt = some db') :
    completeDelivery db input = (.ok (), db'.updateDeliveries
      (fun row => row.id = input.deliveryId) input.complete
      input.identity_complete) := by
  simp only [completeDelivery, h]

theorem tables_completeDelivery (db : Database)
    (input : CompleteDeliveryInput) :
    (completeDelivery db input).2.endpoints = db.endpoints ∧
      (completeDelivery db input).2.broadcasts = db.broadcasts := by
  cases hins : db.insertAttempt? input.attempt with
  | none =>
      simp only [completeDelivery, hins]
      split <;> exact ⟨rfl, rfl⟩
  | some db' =>
      obtain ⟨hendpoints, hbroadcasts⟩ := Database.tables_insertAttempt hins
      rw [completeDelivery_of_insertAttempt hins, ← hendpoints, ← hbroadcasts]
      exact ⟨rfl, rfl⟩

theorem completeDelivery_result_of_recordable (h : Recordable db input) :
    (completeDelivery db input).1 = .ok () := by
  obtain ⟨db', hins⟩ :=
    Option.isSome_iff_exists.mp (recordable_iff_insertAttempt.mp h)
  rw [completeDelivery_of_insertAttempt hins]

theorem delivery?_completeDelivery_self (h : Recordable db input) :
    (completeDelivery db input).2.delivery? input.deliveryId =
      (db.delivery? input.deliveryId).map input.complete := by
  obtain ⟨db', hins⟩ :=
    Option.isSome_iff_exists.mp (recordable_iff_insertAttempt.mp h)
  rw [completeDelivery_of_insertAttempt hins,
    Database.delivery?_updateDeliveries,
    Database.delivery?_insertAttempt hins]
  cases hrow : db.delivery? input.deliveryId with
  | none => rfl
  | some row => simp [Database.id_of_delivery? hrow]

theorem attemptLog_completeDelivery_self (h : Recordable db input) :
    (completeDelivery db input).2.attemptLog input.deliveryId =
      db.attemptLog input.deliveryId ++ [input.attempt] := by
  obtain ⟨db', hins⟩ :=
    Option.isSome_iff_exists.mp (recordable_iff_insertAttempt.mp h)
  rw [completeDelivery_of_insertAttempt hins,
    Database.attemptLog_updateDeliveries,
    Database.attemptLog_insertAttempt hins]
  simp [CompleteDeliveryInput.attempt]

/-- Recording an Attempt of one Delivery leaves every other one alone. -/
theorem completeDelivery_of_ne {other : Uuid} (h : other ≠ input.deliveryId) :
    (completeDelivery db input).2.delivery? other = db.delivery? other ∧
      (completeDelivery db input).2.attemptLog other =
        db.attemptLog other := by
  by_cases hrec : Recordable db input
  · obtain ⟨db', hins⟩ :=
      Option.isSome_iff_exists.mp (recordable_iff_insertAttempt.mp hrec)
    rw [completeDelivery_of_insertAttempt hins,
      Database.delivery?_updateDeliveries,
      Database.delivery?_insertAttempt hins,
      Database.attemptLog_updateDeliveries,
      Database.attemptLog_insertAttempt hins]
    constructor
    · cases hrow : db.delivery? other with
      | none => rfl
      | some row =>
          have hid : row.id ≠ input.deliveryId := by
            rw [Database.id_of_delivery? hrow]
            exact h
          simp [hid]
    · simp [CompleteDeliveryInput.attempt, h.symm]
  · rw [(completeDelivery_of_not_recordable hrec).2]
    exact ⟨rfl, rfl⟩

/-- A completed Delivery is still the same one. -/
theorem identity_completeDelivery {other : Uuid} {row' : DeliveryRow}
    (h : (completeDelivery db input).2.delivery? other = some row') :
    ∃ row, db.delivery? other = some row ∧ row'.identity = row.identity := by
  by_cases hother : other = input.deliveryId
  · subst hother
    by_cases hrec : Recordable db input
    · rw [delivery?_completeDelivery_self hrec] at h
      obtain ⟨row, hrow, rfl⟩ := Option.map_eq_some_iff.mp h
      exact ⟨row, hrow, rfl⟩
    · rw [(completeDelivery_of_not_recordable hrec).2] at h
      exact ⟨row', h, rfl⟩
  · rw [(completeDelivery_of_ne hother).1] at h
    exact ⟨row', h, rfl⟩

end CompleteDelivery

end WebhookBroadcast
