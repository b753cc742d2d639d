import WebhookBroadcast.Db.Deliveries
import WebhookBroadcast.Db.Writes

/-!
# Endpoints repository

The statements of `packages/db/src/repositories/endpoints.ts`: the writes of
the operator, the snapshot that fan-out takes, and the four statements of
`maybeAutoDisableEndpoint`.  Each of those is atomic on its own; the function
that issues them one after the other is a program of the worker.
-/

namespace WebhookBroadcast

open Relational

/-! ## Operator writes -/

/-- Why an Endpoint could not be written. -/
inductive EndpointError where
  | urlConflict (url : String)
  | database (error : DbError)
deriving DecidableEq

def insertEndpoint (db : Database) (input : EndpointRow) :
    Except EndpointError EndpointRow × Database :=
  match db.insertEndpoint? input with
  | some db' => (.ok input, db')
  | none =>
      if ∃ e ∈ db.endpoints.rows, e.id = input.id ∨ e.site = input.site then
        (.error (.urlConflict input.url), db)
      else
        (.error (.database
          (.foreignKeyViolation "endpoint_channel_id_channel_id_fk")), db)

theorem tables_insertEndpoint (db : Database) (input : EndpointRow) :
    (insertEndpoint db input).2.broadcasts = db.broadcasts ∧
      (insertEndpoint db input).2.deliveries = db.deliveries := by
  unfold insertEndpoint
  split
  next db' h =>
    unfold Database.insertEndpoint? at h
    split at h
    next =>
      split at h
      · cases h
      next =>
        cases h
        exact ⟨rfl, rfl⟩
    next => cases h
  next => split <;> exact ⟨rfl, rfl⟩

/-- The body of a `POST /channels/:channelId/endpoints`. -/
structure EndpointCreate where
  name : Option String := none
  url : String
  timeoutMs : Option ℕ := none
  headers : Option (Js.Record String) := none
  enabled : Bool := true

/-- The row that the route inserts. -/
def EndpointCreate.toRow (body : EndpointCreate) (id channelId : Uuid)
    (now : Instant) : EndpointRow where
  id := id
  channelId := channelId
  name := body.name
  url := body.url
  timeoutMs := body.timeoutMs
  headers := body.headers.getD .empty
  enabled := body.enabled
  autoDisabledAt := none
  createdAt := now
  updatedAt := now

/-- The body of a PATCH, each field absent or given. -/
structure EndpointUpdate where
  name : Option (Option String) := none
  url : Option String := none
  timeoutMs : Option (Option ℕ) := none
  headers : Option (Js.Record String) := none
  enabled : Option Bool := none
deriving DecidableEq

/-- The columns that `updateEndpoint` sets; an undefined one stays. -/
structure EndpointPatch extends EndpointUpdate where
  autoDisabledAt : Option (Option Instant)
  updatedAt : Instant

def EndpointPatch.set (patch : EndpointPatch) (e : EndpointRow) :
    EndpointRow :=
  { e with
    name := patch.name.getD e.name
    url := patch.url.getD e.url
    timeoutMs := patch.timeoutMs.getD e.timeoutMs
    headers := patch.headers.getD e.headers
    enabled := patch.enabled.getD e.enabled
    autoDisabledAt := patch.autoDisabledAt.getD e.autoDisabledAt
    updatedAt := patch.updatedAt }

/-- `UPDATE … WHERE channel_id AND id RETURNING`; a URL that another Endpoint of
the Channel has is refused. -/
def updateEndpoint (db : Database) (channelId id : Uuid)
    (patch : EndpointPatch) :
    Except EndpointError (Option EndpointRow) × Database :=
  let matched : EndpointRow → Bool :=
    fun e => e.channelId = channelId && e.id = id
  match db.updateEndpoints? matched patch.set fun _ => ⟨rfl, rfl⟩ with
  | some db' =>
      (.ok ((db.endpoints.select matched).head?.map patch.set), db')
  | none =>
      match patch.url with
      | some url => (.error (.urlConflict url), db)
      | none =>
          (.error (.database
            (.uniqueViolation "endpoint_channel_id_url_key")), db)

/-- The update is carried out or refused as a whole. -/
theorem updateEndpoint_db (db : Database) (channelId id : Uuid)
    (patch : EndpointPatch) :
    (updateEndpoint db channelId id patch).2 =
      (db.updateEndpoints? (fun e => e.channelId = channelId && e.id = id)
        patch.set fun _ => ⟨rfl, rfl⟩).getD db := by
  simp only [updateEndpoint]
  cases db.updateEndpoints? _ patch.set _ with
  | some db' => rfl
  | none => cases patch.url <;> rfl

theorem tables_updateEndpoint (db : Database) (channelId id : Uuid)
    (patch : EndpointPatch) :
    (updateEndpoint db channelId id patch).2.broadcasts = db.broadcasts ∧
      (updateEndpoint db channelId id patch).2.deliveries = db.deliveries ∧
      (updateEndpoint db channelId id patch).2.attempts = db.attempts := by
  rw [updateEndpoint_db, Database.updateEndpoints?]
  split <;> exact ⟨rfl, rfl, rfl⟩

/-- An update sets the one Endpoint it returns, or changes none. -/
theorem updateEndpoint_cases (db : Database) (channelId id : Uuid)
    (patch : EndpointPatch) :
    (∃ e, (updateEndpoint db channelId id patch).1 =
        .ok (some (patch.set e)) ∧
      db.endpoints.find? id = some e ∧ e.channelId = channelId ∧
      ∀ other, (updateEndpoint db channelId id patch).2.endpoints.find? other =
        if other = id then some (patch.set e)
        else db.endpoints.find? other) ∨
    ((∀ e, (updateEndpoint db channelId id patch).1 ≠ .ok (some e)) ∧
      ∀ other, (updateEndpoint db channelId id patch).2.endpoints.find? other =
        db.endpoints.find? other) := by
  let matched : EndpointRow → Bool :=
    fun e => e.channelId = channelId && e.id = id
  cases hupdate : db.updateEndpoints? matched patch.set fun _ => ⟨rfl, rfl⟩ with
  | none =>
      have hrefused : (updateEndpoint db channelId id patch).2 = db := by
        rw [updateEndpoint_db]
        exact congrArg (Option.getD · db) hupdate
      refine Or.inr ⟨fun e h => ?_, fun other => by rw [hrefused]⟩
      simp only [updateEndpoint, show db.updateEndpoints? (fun e =>
        e.channelId = channelId && e.id = id) patch.set _ = none
          from hupdate] at h
      cases hurl : patch.url <;> simp [hurl] at h
  | some db' =>
      have hdone : updateEndpoint db channelId id patch =
          (.ok ((db.endpoints.select matched).head?.map patch.set), db') := by
        simp only [updateEndpoint, show db.updateEndpoints? (fun e =>
          e.channelId = channelId && e.id = id) patch.set _ = some db'
            from hupdate]
        rfl
      rw [hdone]
      cases hhead : (db.endpoints.select matched).head? with
      | some e =>
          have he := Table.mem_select.mp (List.mem_of_head? hhead)
          have hids : e.channelId = channelId ∧ e.id = id := by
            simpa [matched] using he.2
          have hrow : db.endpoints.find? id = some e :=
            db.endpoints.find?_eq_some_iff.mpr ⟨he.1, hids.2⟩
          refine Or.inl ⟨e, rfl, hrow, hids.1, fun other => ?_⟩
          rw [Database.find?_of_updateEndpoints? hupdate]
          by_cases hother : other = id
          · rw [hother, if_pos rfl, hrow, Option.map_some, if_pos he.2]
          · rw [if_neg hother]
            cases hrow' : db.endpoints.find? other with
            | none => rfl
            | some row =>
                have hid : row.id ≠ id := by
                  rw [Table.key_of_find? hrow']
                  exact hother
                simp [matched, hid]
      | none =>
          refine Or.inr ⟨by simp, fun other => ?_⟩
          rw [Database.find?_of_updateEndpoints? hupdate]
          cases hrow : db.endpoints.find? other with
          | none => rfl
          | some row =>
              have hrow' : matched row = false := by
                by_contra hmatched
                have hmem : row ∈ db.endpoints.select matched :=
                  Table.mem_select.mpr ⟨Table.mem_of_find? hrow,
                    Bool.not_eq_false _ ▸ hmatched⟩
                rw [List.head?_eq_none_iff.mp hhead] at hmem
                cases hmem
              simp [hrow']

/-- What `PATCH /channels/:channelId/endpoints/:endpointId` passes on: the body,
and with `enabled: true` in it the end of an auto-disable. -/
def EndpointUpdate.toPatch (body : EndpointUpdate) (now : Instant) :
    EndpointPatch :=
  { body with
    autoDisabledAt := if body.enabled = some true then some none else none
    updatedAt := now }

/-- Hard delete; Deliveries and Attempts cascade. -/
def deleteEndpoint (db : Database) (channelId id : Uuid) : Bool × Database :=
  let matched : EndpointRow → Bool :=
    fun e => e.channelId = channelId && e.id = id
  (!(db.endpoints.select matched).isEmpty, db.deleteEndpoints matched)

/-! ## Fan-out and auto-disable -/

/-- The fan-out snapshot: the Endpoints of a Channel that take Deliveries. -/
def listEnabledEndpointsByChannel (db : Database) (channelId : Uuid) :
    List EndpointRow :=
  db.endpoints.select fun e =>
    e.channelId = channelId && e.enabled && e.autoDisabledAt = none

/-- The columns that `maybeAutoDisableEndpoint` reads first. -/
structure EndpointEnablement where
  enabled : Bool
  autoDisabledAt : Option Instant
deriving DecidableEq

/-- `SELECT enabled, auto_disabled_at` of one Endpoint. -/
def selectEndpointEnablement (db : Database) (endpointId : Uuid) :
    Option EndpointEnablement :=
  (db.endpoints.find? endpointId).map fun e => ⟨e.enabled, e.autoDisabledAt⟩

/-- `SELECT max(updated_at)` over the succeeded Deliveries of an Endpoint. -/
def selectLastSuccess (db : Database) (endpointId : Uuid) : Option Instant :=
  ((db.deliveries.select fun d =>
    d.endpointId = endpointId && d.status = .succeeded).map
      DeliveryRow.updatedAt).max?

/-- `SELECT min(updated_at)` over the terminally failed Deliveries of an
Endpoint, after the last success when there is one. -/
def selectStreakStart (db : Database) (endpointId : Uuid)
    (lastSuccess : Option Instant) : Option Instant :=
  ((db.deliveries.select fun d =>
    d.endpointId = endpointId &&
      (d.status = .failed || d.status = .deadLettered) &&
      (match lastSuccess with
        | some success => decide (success < d.updatedAt)
        | none => true)).map DeliveryRow.updatedAt).min?

/-- `UPDATE … SET enabled = false, auto_disabled_at, updated_at`, guarded on
the Endpoint not being auto-disabled yet. -/
def stampAutoDisabled (db : Database) (endpointId : Uuid) (now : Instant) :
    Bool × Database :=
  let matched : EndpointRow → Bool :=
    fun e => e.id = endpointId && e.autoDisabledAt = none
  (!(db.endpoints.select matched).isEmpty,
    db.updateEndpoints matched
      (fun e =>
        { e with enabled := false, autoDisabledAt := some now, updatedAt := now })
      fun _ => ⟨rfl, rfl⟩)

/-- The row after an auto-disable. -/
def EndpointRow.autoDisabled (e : EndpointRow) (now : Instant) : EndpointRow :=
  { e with enabled := false, autoDisabledAt := some now, updatedAt := now }

theorem stampAutoDisabled_result_iff {db : Database} {endpointId : Uuid}
    {now : Instant} :
    (stampAutoDisabled db endpointId now).1 = true ↔
      ∃ e, db.endpoints.find? endpointId = some e ∧
        e.autoDisabledAt = none := by
  simp only [stampAutoDisabled, Bool.not_eq_true',
    List.isEmpty_eq_false_iff_exists_mem, Table.mem_select,
    Bool.and_eq_true, decide_eq_true_eq]
  constructor
  · rintro ⟨e, he, hid, hnone⟩
    exact ⟨e, db.endpoints.find?_eq_some_iff.mpr ⟨he, hid⟩, hnone⟩
  · rintro ⟨e, hfind, hnone⟩
    exact ⟨e, Table.mem_of_find? hfind, Table.key_of_find? hfind, hnone⟩

theorem find?_stampAutoDisabled_self {db : Database} {endpointId : Uuid}
    {now : Instant} :
    (stampAutoDisabled db endpointId now).2.endpoints.find? endpointId =
      (db.endpoints.find? endpointId).map fun e =>
        if e.autoDisabledAt = none then e.autoDisabled now else e := by
  rw [stampAutoDisabled, Database.find?_updateEndpoints]
  cases hfind : db.endpoints.find? endpointId with
  | none => rfl
  | some e => simp [Table.key_of_find? hfind, EndpointRow.autoDisabled]

theorem find?_stampAutoDisabled_of_ne {db : Database} {endpointId : Uuid}
    {now : Instant} {other : Uuid} (h : other ≠ endpointId) :
    (stampAutoDisabled db endpointId now).2.endpoints.find? other =
      db.endpoints.find? other := by
  rw [stampAutoDisabled, Database.find?_updateEndpoints]
  cases hfind : db.endpoints.find? other with
  | none => rfl
  | some e => simp [Table.key_of_find? hfind, h]

end WebhookBroadcast
