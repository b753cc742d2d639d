import WebhookBroadcast.Admin.Cursors
import WebhookBroadcast.Channel.Health
import WebhookBroadcast.Contract.Channel
import WebhookBroadcast.Db.ChannelWrites
import WebhookBroadcast.Service.System

/-!
# Writing Channels over the API

The create and PATCH routes of `apps/api/src/admin/channels.ts`.  The slug rule of
open ingest is checked twice: by the contract, which sees the fields of the
request, and by the database, which sees the resulting row.  Whichever of them
finds a short slug, the answer is the same.
-/

namespace WebhookBroadcast

open Interaction Relational

/-! ## The routes -/

/-- What a route that writes a Channel answers; a refusal of the contract comes
with its issues. -/
inductive ChannelResponse where
  | written (status : ℕ) (channel : Option WireChannel)
  | refused (refusal : Refusal) (details : Option (List Detail))

def ChannelResponse.status : ChannelResponse → ℕ
  | written status _ => status
  | refused refusal _ => refusal.status

/-- The `message` of the error that the repository throws. -/
def openIngestSlugTooShortMessage : Option String → String
  | none =>
      "this Channel's slug is too short for unauthenticated ingest " ++
        s!"(minimum {MIN_OPEN_INGEST_SLUG_LENGTH} characters)"
  | some slug =>
      s!"slug \"{slug}\" is too short for an unauthenticated-ingest Channel " ++
        s!"(minimum {MIN_OPEN_INGEST_SLUG_LENGTH} characters)"

def slugConflict (slug : String) : Refusal :=
  ⟨409, "conflict", s!"slug \"{slug}\" is already in use"⟩

/-- The `catch` of both routes, and the error handler of the application. -/
def channelRefusal : ChannelError → Refusal
  | .slugConflict slug => slugConflict slug
  | .openIngestSlugTooShort slug =>
      ⟨400, "validation_failed", openIngestSlugTooShortMessage slug⟩
  | .database _ => internalError

def invalidChannelPayload : Refusal :=
  ⟨400, "validation_failed", "invalid channel payload"⟩

section Routes

variable (zod : ZodMessages)

/-- `POST /channels`; `readAt` is when the aggregates are read. -/
def postChannel (id : Uuid) (now readAt : Instant) (body : ChannelCreate)
    (db : Database) : ChannelResponse × Database :=
  match body.issues zod with
  | [] =>
      match insertChannel db (body.toRow id now) with
      | (.ok row, db') =>
          (.written 201 (hydrateChannels db' [row] readAt).head?, db')
      | (.error error, db') => (.refused (channelRefusal error) none, db')
  | issues => (.refused invalidChannelPayload (some issues), db)

/-- `PATCH /channels/:channelId`. -/
def patchChannel (channelId : Uuid) (now readAt : Instant)
    (body : ChannelUpdate) (db : Database) : ChannelResponse × Database :=
  match body.issues zod with
  | [] =>
      match updateChannel db channelId body now with
      | (.ok none, db') =>
          (.refused ⟨404, "not_found", "channel not found"⟩ none, db')
      | (.ok (some row), db') =>
          (.written 200 (hydrateChannels db' [row] readAt).head?, db')
      | (.error error, db') => (.refused (channelRefusal error) none, db')
  | issues => (.refused invalidChannelPayload (some issues), db)

end Routes

/-! ## The rule -/

/-- The row takes unauthenticated ingest under a short slug. -/
def ChannelRow.TooOpen (c : ChannelRow) : Prop :=
  c.allowUnauthenticatedIngest = true ∧
    c.slug.length < MIN_OPEN_INGEST_SLUG_LENGTH

instance (c : ChannelRow) : Decidable c.TooOpen :=
  inferInstanceAs (Decidable (_ ∧ _))

/-- How a request that would produce this row is answered: `400`, with every
row unchanged, exactly if the row is too open; else the row is stored and
shown.  It is never answered `500`. -/
structure AnsweredByRule (status : ℕ) (row : ChannelRow) (db : Database)
    (answered : ChannelResponse × Database) : Prop where
  refused : answered.1.status = 400 ∧ answered.2 = db ↔ row.TooOpen
  written : ¬row.TooOpen → ∃ channel, channel.row = row ∧
    answered.1 = .written status (some channel) ∧
    db.StoresChannel answered.2 row
  handled : answered.1.status ≠ 500

theorem ChannelRow.valid_iff (row : ChannelRow)
    (hstatus : ∀ status ∈ row.ingestSuccessStatus,
      200 ≤ status ∧ status ≤ 299) : row.Valid ↔ ¬row.TooOpen := by
  rw [ChannelRow.Valid, ChannelRow.TooOpen, not_and, Nat.not_lt]
  exact and_iff_left hstatus

theorem ChannelRow.rejection_of_tooOpen {row : ChannelRow}
    (hstatus : ∀ status ∈ row.ingestSuccessStatus, 200 ≤ status ∧ status ≤ 299)
    (h : row.TooOpen) :
    row.rejection = .checkViolation OPEN_INGEST_SLUG_LENGTH_CHECK := by
  have hfailed : row.failedCheck? = some OPEN_INGEST_SLUG_LENGTH_CHECK := by
    rw [ChannelRow.failedCheck?, if_neg]
    · exact if_pos h
    rintro ⟨status, hmem, hout⟩
    have hrange := hstatus status hmem
    omega
  rw [ChannelRow.rejection, hfailed]

theorem ChannelRow.rejection_of_valid {row : ChannelRow} (h : row.Valid) :
    row.rejection = .uniqueViolation "channel_slug_active_key" := by
  have hpassed : row.failedCheck? = none := by
    rw [ChannelRow.failedCheck?, if_neg, if_neg]
    · rintro ⟨hopen, hshort⟩
      exact Nat.not_lt.mpr (h.1 hopen) hshort
    · rintro ⟨status, hmem, hout⟩
      have hrange := h.2 status hmem
      omega
  rw [ChannelRow.rejection, hpassed]

theorem answeredByRule {status : ℕ} {row : ChannelRow} {db : Database}
    {answered : ChannelResponse × Database} (hstatus : status < 400)
    (hopen : row.TooOpen → answered.1.status = 400 ∧ answered.2 = db)
    (hwritten : ¬row.TooOpen → ∃ channel, channel.row = row ∧
      answered.1 = .written status (some channel) ∧
      db.StoresChannel answered.2 row) :
    AnsweredByRule status row db answered := by
  have hsuccess : ¬row.TooOpen → answered.1.status = status := by
    intro h
    obtain ⟨channel, -, hanswered, -⟩ := hwritten h
    rw [hanswered]
    rfl
  refine ⟨⟨fun h => ?_, hopen⟩, hwritten, ?_⟩
  · by_contra hrow
    have hsame := (hsuccess hrow).symm.trans h.1
    omega
  · by_cases hrow : row.TooOpen
    · rw [(hopen hrow).1]
      decide
    · rw [hsuccess hrow]
      omega

/-! ## Creating -/

section Create

variable {zod : ZodMessages} {body : ChannelCreate} {db : Database} {id : Uuid}

theorem ChannelCreate.OtherwiseValid.status (h : body.OtherwiseValid zod) :
    ∀ status ∈ body.ingestSuccessStatus, 200 ≤ status ∧ status ≤ 299 := by
  rintro status hstatus
  rw [OtherwiseValid, fieldIssues, List.append_eq_nil_iff, hstatus] at h
  exact status_of_ingestSuccessStatusSchema h.2

/-- The contract sees the whole row. -/
theorem ChannelCreate.OtherwiseValid.issues_eq_nil_iff
    (h : body.OtherwiseValid zod) (id : Uuid) (now : Instant) :
    body.issues zod = [] ↔ ¬(body.toRow id now).TooOpen := by
  have hslug : Js.length body.slug = body.slug.length := by
    rw [OtherwiseValid, fieldIssues, List.append_eq_nil_iff,
      List.append_eq_nil_iff] at h
    exact slug_of_channelSlugSchema h.1.1
  rw [issues, h, List.nil_append, refineOpenIngestSlugLength_eq_nil,
    ChannelRow.TooOpen, not_and, Nat.not_lt]
  simp [hslug, ChannelCreate.toRow]

theorem postChannel_of_issues (h : body.issues zod ≠ [])
    (now readAt : Instant) : postChannel zod id now readAt body db =
      (.refused invalidChannelPayload (some (body.issues zod)), db) := by
  unfold postChannel
  split
  next hnil => exact absurd hnil h
  next => rfl

/-- A `POST` of a new Channel with a free slug. -/
theorem answeredByRule_postChannel (h : body.OtherwiseValid zod)
    (hfresh : db.channels.find? id = none)
    (hfree : ¬db.SlugTaken id body.slug) (now readAt : Instant) :
    AnsweredByRule 201 (body.toRow id now) db
      (postChannel zod id now readAt body db) := by
  have hissues := h.issues_eq_nil_iff id now
  refine answeredByRule (by decide) (fun hopen => ?_) fun hrow => ?_
  · rw [postChannel_of_issues fun hnil => hissues.mp hnil hopen]
    exact ⟨rfl, rfl⟩
  · have hvalid := ((body.toRow id now).valid_iff h.status).mpr hrow
    obtain ⟨db', hinsert, hstores⟩ :=
      insertChannel_admitted (c := body.toRow id now) hfresh rfl hvalid hfree
    rw [postChannel, hissues.mpr hrow]
    dsimp only
    rw [hinsert]
    exact ⟨_, rfl, rfl, hstores⟩

/-- A `POST` whose slug another live Channel has. -/
theorem postChannel_taken (h : body.OtherwiseValid zod)
    (hfresh : db.channels.find? id = none) (htaken : db.SlugTaken id body.slug)
    {now : Instant} (hrow : ¬(body.toRow id now).TooOpen) (readAt : Instant) :
    postChannel zod id now readAt body db =
      (.refused (slugConflict body.slug) none, db) := by
  have hvalid := ((body.toRow id now).valid_iff h.status).mpr hrow
  have hrefused := insertChannel_refused (c := body.toRow id now) hfresh rfl
    fun hadmitted => hadmitted.2 htaken
  rw [postChannel, (h.issues_eq_nil_iff id now).mpr hrow]
  dsimp only
  rw [hrefused, ChannelRow.rejection_of_valid hvalid]
  rfl

end Create

/-! ## Changing -/

section Change

variable {zod : ZodMessages} {body : ChannelUpdate} {db : Database}
  {c : ChannelRow}

/-- The new row has a valid status: its own, or that of the body. -/
theorem ChannelUpdate.OtherwiseValid.status (h : body.OtherwiseValid zod)
    (hc : c.Valid) (now : Instant) :
    ∀ status ∈ (body.set now c).ingestSuccessStatus,
      200 ≤ status ∧ status ≤ 299 := by
  intro status hstatus
  rw [OtherwiseValid, fieldIssues, List.append_eq_nil_iff,
    List.append_eq_nil_iff] at h
  cases hbody : body.ingestSuccessStatus with
  | none =>
      rw [set, hbody] at hstatus
      exact hc.2 status hstatus
  | some given =>
      have hgiven : given = some status := by
        rw [set, hbody] at hstatus
        exact hstatus
      have hissues := h.1.2
      rw [hbody, hgiven] at hissues
      exact status_of_ingestSuccessStatusSchema hissues

/-- What the contract refuses for its slug, the database would refuse too. -/
theorem ChannelUpdate.OtherwiseValid.tooOpen_of_issues
    (h : body.OtherwiseValid zod) (now : Instant)
    (hissues : body.issues zod ≠ []) : (body.set now c).TooOpen := by
  rw [issues, h, List.nil_append, Ne, refineOpenIngestSlugLength_eq_nil] at hissues
  push Not at hissues
  obtain ⟨hallow, slug, hslug, hshort⟩ := hissues
  rw [OtherwiseValid, fieldIssues, List.append_eq_nil_iff,
    List.append_eq_nil_iff, List.append_eq_nil_iff, hslug] at h
  rw [slug_of_channelSlugSchema h.1.1.1] at hshort
  refine ⟨?_, ?_⟩
  · rw [set, hallow]
    rfl
  · rw [set, hslug]
    exact hshort

theorem ChannelUpdate.OtherwiseValid.issues_eq_nil (h : body.OtherwiseValid zod)
    {now : Instant} (hrow : ¬(body.set now c).TooOpen) :
    body.issues zod = [] := by
  by_contra hissues
  exact hrow (h.tooOpen_of_issues now hissues)

theorem patchChannel_of_issues (h : body.issues zod ≠ []) (channelId : Uuid)
    (now readAt : Instant) : patchChannel zod channelId now readAt body db =
      (.refused invalidChannelPayload (some (body.issues zod)), db) := by
  unfold patchChannel
  split
  next hnil => exact absurd hnil h
  next => rfl

/-- A `PATCH` of a live Channel to a free slug. -/
theorem answeredByRule_patchChannel (h : body.OtherwiseValid zod)
    (hc : c ∈ db.channels) (hlive : c.deletedAt = none) {now : Instant}
    (hfree : ¬db.SlugTaken c.id (body.set now c).slug) (readAt : Instant) :
    AnsweredByRule 200 (body.set now c) db
      (patchChannel zod c.id now readAt body db) := by
  have hstatus := h.status (db.channel_valid c hc) now
  refine answeredByRule (by decide) (fun hopen => ?_) fun hrow => ?_
  · by_cases hissues : body.issues zod = []
    · have hinvalid : ¬(body.set now c).Valid := fun hvalid =>
        ((body.set now c).valid_iff hstatus).mp hvalid hopen
      have hrefused := updateChannel_refused hc hlive
        fun hadmitted => hinvalid hadmitted.1
      rw [patchChannel, hissues]
      dsimp only
      rw [hrefused, ChannelRow.rejection_of_tooOpen hstatus hopen]
      exact ⟨rfl, rfl⟩
    · rw [patchChannel_of_issues hissues]
      exact ⟨rfl, rfl⟩
  · obtain ⟨db', hupdate, hstores⟩ := updateChannel_admitted hc hlive
      (((body.set now c).valid_iff hstatus).mpr hrow) hfree
    rw [patchChannel, h.issues_eq_nil hrow]
    dsimp only
    rw [hupdate]
    exact ⟨_, rfl, rfl, hstores⟩

/-- A `PATCH` of a live Channel to a slug that another one has. -/
theorem patchChannel_taken (h : body.OtherwiseValid zod)
    (hc : c ∈ db.channels) (hlive : c.deletedAt = none) {now : Instant}
    (htaken : db.SlugTaken c.id (body.set now c).slug)
    (hrow : ¬(body.set now c).TooOpen) (readAt : Instant) :
    patchChannel zod c.id now readAt body db =
      (.refused (slugConflict (body.set now c).slug) none, db) := by
  have hvalid := ((body.set now c).valid_iff
    (h.status (db.channel_valid c hc) now)).mpr hrow
  have hrefused := updateChannel_refused hc hlive
    fun hadmitted => hadmitted.2 htaken
  rw [patchChannel, h.issues_eq_nil hrow]
  dsimp only
  rw [hrefused, ChannelRow.rejection_of_valid hvalid]
  cases hslug : body.slug with
  | none =>
      -- the index keeps the slug that the Channel has
      obtain ⟨other, hother, hne, hotherLive, hsame⟩ := htaken
      rw [ChannelUpdate.set, hslug] at hsame
      exact absurd (nodup_activeSlugs_iff.mp db.channel_slug other hother c hc
        hotherLive hlive hsame) hne
  | some slug =>
      rw [ChannelUpdate.set, hslug]
      rfl

end Change

/-! ## Every reachable state -/

/-- A request that writes a Channel. -/
inductive ChannelRequest where
  | post (id : Uuid) (now readAt : Instant) (body : ChannelCreate)
  | patch (channelId : Uuid) (now readAt : Instant) (body : ChannelUpdate)

def ChannelRequest.answer (zod : ZodMessages) :
    ChannelRequest → Database → ChannelResponse × Database
  | post id now readAt body => postChannel zod id now readAt body
  | patch channelId now readAt body => patchChannel zod channelId now readAt body

/-- The statement that the request comes down to. -/
def ChannelRequest.statement : ChannelRequest → Statement
  | post id now _ body => .createChannel body id now
  | patch channelId now _ body => .patchChannel channelId body now

/-- A request changes nothing, or what its one statement changes. -/
theorem answer_db (zod : ZodMessages) (request : ChannelRequest)
    (db : Database) : (request.answer zod db).2 = db ∨
      (request.answer zod db).2 = request.statement.runDb db := by
  cases request with
  | post id now readAt body =>
      change (postChannel zod id now readAt body db).2 = db ∨
        (postChannel zod id now readAt body db).2 =
          (insertChannel db (body.toRow id now)).2
      unfold postChannel
      split
      · right
        split
        next h => rw [h]
        next h => rw [h]
      · exact Or.inl rfl
  | patch channelId now readAt body =>
      change (patchChannel zod channelId now readAt body db).2 = db ∨
        (patchChannel zod channelId now readAt body db).2 =
          (updateChannel db channelId body now).2
      unfold patchChannel
      split
      · right
        split
        next h => rw [h]
        next h => rw [h]
        next h => rw [h]
      · exact Or.inl rfl

/-- The database after these requests, each of which finds what the ones before
it have left. -/
def afterRequests (zod : ZodMessages) (requests : List ChannelRequest)
    (db : Database) : Database :=
  requests.foldl (fun db request => (request.answer zod db).2) db

/-- Requests lead only to states that the service reaches. -/
theorem exists_serve_eq_afterRequests (dateParse : String → Option Instant)
    (zod : ZodMessages) (requests : List ChannelRequest) :
    ∀ w : World, ∃ history : ServiceHistory,
      (serve dateParse w history).state.db =
        afterRequests zod requests w.db := by
  induction requests with
  | nil => exact fun w => ⟨[], rfl⟩
  | cons request requests ih =>
      intro w
      rcases answer_db zod request w.db with h | h
      · obtain ⟨history, hhistory⟩ := ih w
        exact ⟨history, by rw [hhistory, afterRequests, afterRequests,
          List.foldl_cons, h]⟩
      · obtain ⟨history, hhistory⟩ := ih (request.statement.run w)
        refine ⟨.background request.statement :: history, ?_⟩
        rw [afterRequests, List.foldl_cons, h]
        exact hhistory

/-- The check of the database holds in every state of the service. -/
theorem not_tooOpen_serve (dateParse : String → Option Instant) (w : World)
    (history : ServiceHistory) :
    ∀ c ∈ (serve dateParse w history).state.db.channels, ¬c.TooOpen := by
  rintro c hc ⟨hopen, hshort⟩
  have hvalid := (serve dateParse w history).state.db.channel_valid c hc
  exact Nat.not_lt.mpr (hvalid.1 hopen) hshort

/-- Whichever layer catches it, a request that would leave a Channel open under
a short slug is answered `400` and changes nothing; any other succeeds, or is
answered `409` if its slug is taken.  No Channel is ever open under a short
slug. -/
theorem openIngestSlug_rule (zod : ZodMessages) :
    (∀ (db : Database), ∀ c ∈ db.channels, c.deletedAt = none →
      ∀ body : ChannelUpdate, body.OtherwiseValid zod → ∀ now readAt,
        (¬db.SlugTaken c.id (body.set now c).slug →
          AnsweredByRule 200 (body.set now c) db
            (patchChannel zod c.id now readAt body db)) ∧
        (db.SlugTaken c.id (body.set now c).slug →
          ¬(body.set now c).TooOpen →
            patchChannel zod c.id now readAt body db =
              (.refused (slugConflict (body.set now c).slug) none, db))) ∧
    (∀ (db : Database) id, db.channels.find? id = none →
      ∀ body : ChannelCreate, body.OtherwiseValid zod → ∀ now readAt,
        (¬db.SlugTaken id body.slug →
          AnsweredByRule 201 (body.toRow id now) db
            (postChannel zod id now readAt body db)) ∧
        (db.SlugTaken id body.slug → ¬(body.toRow id now).TooOpen →
          postChannel zod id now readAt body db =
            (.refused (slugConflict body.slug) none, db))) ∧
    (∀ dateParse w history,
      ∀ c ∈ (serve dateParse w history).state.db.channels, ¬c.TooOpen) ∧
    ∀ requests db, ∀ c ∈ (afterRequests zod requests db).channels,
      ¬c.TooOpen := by
  refine ⟨fun db c hc hlive body h now readAt => ⟨fun hfree => ?_,
    fun htaken hrow => ?_⟩, fun db id hfresh body h now readAt =>
    ⟨fun hfree => ?_, fun htaken hrow => ?_⟩, not_tooOpen_serve,
    fun requests db c hc => ?_⟩
  · exact answeredByRule_patchChannel h hc hlive hfree readAt
  · exact patchChannel_taken h hc hlive htaken hrow readAt
  · exact answeredByRule_postChannel h hfresh hfree now readAt
  · exact postChannel_taken h hfresh htaken hrow readAt
  · obtain ⟨history, hhistory⟩ := exists_serve_eq_afterRequests
      (fun _ => none) zod requests ⟨db, fun _ => none⟩
    rw [← hhistory] at hc
    exact not_tooOpen_serve _ _ history c hc

def zodMessages : ZodMessages where
  tooSmall n := s!"Too small: expected string to have >={n} characters"
  tooBig n := s!"Too big: expected string to have <={n} characters"

/-- A Channel under a short slug that is closed to unauthenticated ingest. -/
def closedChannel : ChannelRow where
  id := 0
  slug := "orders"
  createdAt := 0
  updatedAt := 0

def otherChannel : ChannelRow where
  id := 1
  slug := "invoices"
  createdAt := 0
  updatedAt := 0

def closedChannels : Database :=
  ((Database.empty.insertChannel? closedChannel).bind fun db =>
    db.insertChannel? otherChannel).getD .empty

theorem rows_closedChannels :
    closedChannels.channels.rows = [closedChannel, otherChannel] := rfl

/-- A slug that only one of the two Channels could have. -/
theorem not_slugTaken_closedChannels {id : Uuid} {slug : String}
    (hclosed : id ≠ 0 → slug ≠ "orders") (hother : id ≠ 1 → slug ≠ "invoices") :
    ¬closedChannels.SlugTaken id slug := by
  rintro ⟨other, hmem, hne, -, hslug⟩
  rw [Table.mem_def, rows_closedChannels, List.mem_pair] at hmem
  rcases hmem with rfl | rfl
  · exact hclosed hne.symm hslug.symm
  · exact hother hne.symm hslug.symm

/-- Opening the Channel is refused, a new one with a long slug is stored, and
the slug of the other one is taken. -/
theorem openIngestSlug_rule_closedChannels :
    (patchChannel zodMessages 0 1 1
      { allowUnauthenticatedIngest := some true } closedChannels).1.status =
        400 ∧
    (postChannel zodMessages 2 1 1
      { slug := "orders-of-the-open-channel", allowUnauthenticatedIngest := true }
      closedChannels).1.status = 201 ∧
    patchChannel zodMessages 0 1 1 { slug := some "invoices" } closedChannels =
      (.refused (slugConflict "invoices") none, closedChannels) := by
  obtain ⟨hpatch, hpost, -⟩ := openIngestSlug_rule zodMessages
  have hclosed : closedChannel ∈ closedChannels.channels := by
    rw [Table.mem_def, rows_closedChannels]
    exact List.mem_cons_self
  have hother : otherChannel ∈ closedChannels.channels := by
    rw [Table.mem_def, rows_closedChannels]
    exact List.mem_cons_of_mem _ List.mem_cons_self
  refine ⟨?_, ?_, ?_⟩
  · have hanswered := (hpatch closedChannels closedChannel hclosed rfl
      { allowUnauthenticatedIngest := some true } (by decide) 1 1).1
      (not_slugTaken_closedChannels (by decide) (by decide))
    exact (hanswered.refused.mpr (by decide)).1
  · have hanswered := (hpost closedChannels 2 rfl
      { slug := "orders-of-the-open-channel", allowUnauthenticatedIngest := true }
      (by decide) 1 1).1 (not_slugTaken_closedChannels (by decide) (by decide))
    obtain ⟨channel, -, hwritten, -⟩ := hanswered.written (by decide)
    rw [hwritten]
    rfl
  · exact (hpatch closedChannels closedChannel hclosed rfl
      { slug := some "invoices" } (by decide) 1 1).2
      ⟨otherChannel, hother, by decide, rfl, rfl⟩ (by decide)

end WebhookBroadcast
