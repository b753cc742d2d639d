import WebhookBroadcast.Db.Deliveries
import WebhookBroadcast.Db.Writes

/-!
# Channels repository

The point reads and the writes of `packages/db/src/repositories/channels.ts`
and `channelTokens.ts`.
-/

namespace WebhookBroadcast

/-- A Channel that is not soft-deleted. -/
def getChannelById (db : Database) (id : Uuid) : Option ChannelRow :=
  (db.channels.find? id).filter fun c => c.deletedAt = none

/-- Ingest-only lookup: a disabled or soft-deleted Channel is not found. -/
def getActiveChannelBySlug (db : Database) (slug : String) :
    Option ChannelRow :=
  db.channels.rows.find? fun c =>
    c.slug = slug && c.enabled && c.deletedAt = none

/-- The token of the Channel with this hash. -/
def findChannelTokenByHash (db : Database) (channelId : Uuid)
    (tokenHash : String) : Option ChannelTokenRow :=
  db.channelTokens.rows.find? fun t =>
    t.channelId = channelId && t.tokenHash = tokenHash

/-! ## Operator writes -/

/-- The body of a `POST /channels`, with its defaults. -/
structure ChannelCreate where
  slug : String
  description : Option String := none
  enabled : Bool := true
  forwardHeaders : List String := []
  allowUnauthenticatedIngest : Bool := false
  ingestSuccessStatus : Option ℕ := none

/-- The row that the route inserts. -/
def ChannelCreate.toRow (body : ChannelCreate) (id : Uuid) (now : Instant) :
    ChannelRow where
  id := id
  slug := body.slug
  description := body.description
  enabled := body.enabled
  forwardHeaders := body.forwardHeaders
  allowUnauthenticatedIngest := body.allowUnauthenticatedIngest
  ingestSuccessStatus := body.ingestSuccessStatus
  createdAt := now
  updatedAt := now

/-- Why a Channel could not be written. -/
inductive ChannelError where
  | slugConflict (slug : String)
  | openIngestSlugTooShort (slug : Option String)
  | database (error : DbError)
deriving DecidableEq

/-- `OPEN_INGEST_SLUG_LENGTH_CHECK`. -/
def OPEN_INGEST_SLUG_LENGTH_CHECK : String :=
  "channel_open_ingest_slug_length_chk"

/-- The check that refuses a row, the checks being tried by name. -/
def ChannelRow.failedCheck? (c : ChannelRow) : Option String :=
  if ∃ status ∈ c.ingestSuccessStatus, status < 200 ∨ 299 < status then
    some "channel_ingest_success_status_2xx_chk"
  else if c.allowUnauthenticatedIngest = true ∧
      c.slug.length < MIN_OPEN_INGEST_SLUG_LENGTH then
    some OPEN_INGEST_SLUG_LENGTH_CHECK
  else none

/-- What becomes of the rejection of a row, when the caller named this slug. -/
def ChannelError.ofRefused (row : ChannelRow) (slug : Option String) :
    ChannelError :=
  match row.failedCheck? with
  | some constraint =>
      if constraint = OPEN_INGEST_SLUG_LENGTH_CHECK then
        .openIngestSlugTooShort slug
      else .database (.checkViolation constraint)
  | none =>
      match slug with
      | some slug => .slugConflict slug
      | none => .database (.uniqueViolation "channel_slug_active_key")

def insertChannel (db : Database) (input : ChannelRow) :
    Except ChannelError ChannelRow × Database :=
  match db.insertChannel? input with
  | some db' => (.ok input, db')
  | none => (.error (.ofRefused input (some input.slug)), db)

/-- The body of a PATCH, each field absent or given. -/
structure ChannelUpdate where
  slug : Option String := none
  description : Option (Option String) := none
  enabled : Option Bool := none
  forwardHeaders : Option (List String) := none
  allowUnauthenticatedIngest : Option Bool := none
  ingestSuccessStatus : Option (Option ℕ) := none
deriving DecidableEq

/-- The columns that `updateChannel` sets; an undefined one stays. -/
def ChannelUpdate.set (patch : ChannelUpdate) (updatedAt : Instant)
    (c : ChannelRow) : ChannelRow :=
  { c with
    slug := patch.slug.getD c.slug
    description := patch.description.getD c.description
    enabled := patch.enabled.getD c.enabled
    forwardHeaders := patch.forwardHeaders.getD c.forwardHeaders
    allowUnauthenticatedIngest :=
      patch.allowUnauthenticatedIngest.getD c.allowUnauthenticatedIngest
    ingestSuccessStatus := patch.ingestSuccessStatus.getD c.ingestSuccessStatus
    updatedAt := updatedAt }

/-- `UPDATE … WHERE id AND deleted_at IS NULL RETURNING`. -/
def updateChannel (db : Database) (id : Uuid) (patch : ChannelUpdate)
    (updatedAt : Instant) : Except ChannelError (Option ChannelRow) × Database :=
  let matched : ChannelRow → Bool := fun c => c.id = id && c.deletedAt = none
  let returned := (db.channels.select matched).head?.map (patch.set updatedAt)
  match db.updateChannels? matched (patch.set updatedAt) fun _ => rfl with
  | some db' => (.ok returned, db')
  | none =>
      match returned with
      | some row => (.error (.ofRefused row patch.slug), db)
      | none => (.ok none, db)

/-- The Channel stays, marked; its slug becomes free. -/
def softDeleteChannel (db : Database) (id : Uuid) (deletedAt : Instant) :
    Bool × Database :=
  let matched : ChannelRow → Bool := fun c => c.id = id && c.deletedAt = none
  (!(db.channels.select matched).isEmpty,
    (db.updateChannels? matched
      (fun c => { c with deletedAt := some deletedAt, updatedAt := deletedAt })
      fun _ => rfl).getD db)

/-- The two databases agree on everything but the Channels. -/
structure Database.SameBelowChannels (db db' : Database) : Prop where
  endpoints : db'.endpoints = db.endpoints
  broadcasts : db'.broadcasts = db.broadcasts
  deliveries : db'.deliveries = db.deliveries
  attempts : db'.attempts = db.attempts

theorem Database.SameBelowChannels.refl (db : Database) :
    db.SameBelowChannels db := ⟨rfl, rfl, rfl, rfl⟩

theorem Database.sameBelowChannels_insertChannel? {db db' : Database}
    {c : ChannelRow} (h : db.insertChannel? c = some db') :
    db.SameBelowChannels db' := by
  unfold Database.insertChannel? at h
  split at h
  · split at h
    · cases h
    · cases h
      exact ⟨rfl, rfl, rfl, rfl⟩
  · cases h

theorem Database.sameBelowChannels_updateChannels? {db db' : Database}
    {p : ChannelRow → Bool} {f : ChannelRow → ChannelRow}
    {hf : ∀ c, (f c).id = c.id} (h : db.updateChannels? p f hf = some db') :
    db.SameBelowChannels db' := by
  simp only [Database.updateChannels?] at h
  split at h
  · cases h
    exact ⟨rfl, rfl, rfl, rfl⟩
  · cases h

theorem sameBelowChannels_insertChannel (db : Database) (input : ChannelRow) :
    db.SameBelowChannels (insertChannel db input).2 := by
  unfold insertChannel
  split
  next db' h => exact Database.sameBelowChannels_insertChannel? h
  next => exact .refl db

theorem sameBelowChannels_updateChannel (db : Database) (id : Uuid)
    (patch : ChannelUpdate) (updatedAt : Instant) :
    db.SameBelowChannels (updateChannel db id patch updatedAt).2 := by
  simp only [updateChannel]
  split
  next db' h => exact Database.sameBelowChannels_updateChannels? h
  next =>
    split
    · exact .refl db
    · exact .refl db

theorem sameBelowChannels_softDeleteChannel (db : Database) (id : Uuid)
    (deletedAt : Instant) :
    db.SameBelowChannels (softDeleteChannel db id deletedAt).2 := by
  simp only [softDeleteChannel]
  cases h : db.updateChannels? (fun c => c.id = id && c.deletedAt = none)
      (fun c => { c with deletedAt := some deletedAt, updatedAt := deletedAt })
      fun _ => rfl with
  | none => exact .refl db
  | some db' => exact Database.sameBelowChannels_updateChannels? h

end WebhookBroadcast
