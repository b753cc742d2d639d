import WebhookBroadcast.Effects
import WebhookBroadcast.Lifecycle.Timeline

/-!
# The database refines the timeline

Reading the timeline of a Delivery off the database forgets the Attempt
numbers and the summary columns of the row.  A consistent database loses
nothing by that: the numbers are `1, …, attemptCount` and the summary is the
one that the timeline has.

Each statement that writes a Delivery is a step of its timeline and keeps
consistency.  For `completeDelivery` this needs no guard on the row: an input
whose number continues a stale count commits only while that count is current.
-/

namespace WebhookBroadcast

open Relational Timeline

def AttemptRow.outcome (a : AttemptRow) : Outcome :=
  ⟨a.statusCode, a.durationMs, a.error, a.at_⟩

def DeliveryRow.progress (row : DeliveryRow) : Progress where
  status := row.status
  attemptCount := row.attemptCount
  lastStatusCode := row.lastStatusCode
  lastDurationMs := row.lastDurationMs
  lastError := row.lastError

def DeliveryRow.timeline (row : DeliveryRow) (log : List AttemptRow) :
    Timeline :=
  ⟨row.status, log.map AttemptRow.outcome⟩

@[simp] theorem DeliveryRow.timeline_status (row : DeliveryRow)
    (log : List AttemptRow) : (row.timeline log).status = row.status := rfl

@[simp] theorem DeliveryRow.timeline_outcomes (row : DeliveryRow)
    (log : List AttemptRow) :
    (row.timeline log).outcomes = log.map AttemptRow.outcome := rfl

/-- The row counts and summarises the log. -/
structure DeliveryRow.Summarises (row : DeliveryRow)
    (log : List AttemptRow) : Prop where
  numbers : log.map AttemptRow.n = List.range' 1 row.attemptCount
  progress : row.progress = (row.timeline log).progress

namespace DeliveryRow.Summarises

variable {row : DeliveryRow} {log : List AttemptRow}

theorem length_eq (h : row.Summarises log) :
    log.length = row.attemptCount := by
  simpa using congrArg List.length h.numbers

/-- The numbers that are taken are the ones up to the Attempt count. -/
theorem number_free_iff (h : row.Summarises log) {n : ℕ} (hn : 0 < n) :
    (∀ a ∈ log, a.n ≠ n) ↔ row.attemptCount < n := by
  have hmem : (∃ a ∈ log, a.n = n) ↔ n ∈ List.range' 1 row.attemptCount := by
    rw [← h.numbers, List.mem_map]
  rw [List.mem_range'_1] at hmem
  constructor
  · intro hfree
    by_contra hle
    obtain ⟨a, ha, han⟩ := hmem.mpr (by omega)
    exact hfree a ha han
  · intro hlt a ha han
    have hrange := hmem.mp ⟨a, ha, han⟩
    omega

/-- The summary columns are those of the Attempt that the count numbers. -/
theorem exists_last (h : row.Summarises log) (hcount : 0 < row.attemptCount) :
    ∃ a ∈ log, a.n = row.attemptCount ∧ row.lastStatusCode = a.statusCode ∧
      row.lastDurationMs = some a.durationMs ∧ row.lastError = a.error := by
  have hne : log ≠ [] := by
    rw [← List.length_pos_iff, h.length_eq]
    exact hcount
  have hlast : log.getLast? = some (log.getLast hne) :=
    List.getLast?_eq_getLast_of_ne_nil hne
  refine ⟨log.getLast hne, List.getLast_mem hne, ?_, ?_, ?_, ?_⟩
  · have hnumber : (log.map AttemptRow.n).getLast? = some row.attemptCount := by
      rw [h.numbers, List.getLast?_range', if_neg (by omega)]
      congr 1
      omega
    rw [List.getLast?_map, hlast] at hnumber
    exact Option.some.inj hnumber
  · have hcode := congrArg Progress.lastStatusCode h.progress
    simpa [DeliveryRow.progress, Timeline.progress, hlast,
      AttemptRow.outcome] using hcode
  · have hduration := congrArg Progress.lastDurationMs h.progress
    simpa [DeliveryRow.progress, Timeline.progress, hlast,
      AttemptRow.outcome] using hduration
  · have herror := congrArg Progress.lastError h.progress
    simpa [DeliveryRow.progress, Timeline.progress, hlast,
      AttemptRow.outcome] using herror

theorem last_eq_none (h : row.Summarises log) (hcount : row.attemptCount = 0) :
    row.lastStatusCode = none ∧ row.lastDurationMs = none ∧
      row.lastError = none := by
  have hlog : log = [] := by
    rw [← List.length_eq_zero_iff, h.length_eq, hcount]
  have hprogress := h.progress
  rw [hlog] at hprogress
  simp only [DeliveryRow.progress, Timeline.progress, Progress.mk.injEq]
    at hprogress
  simpa using hprogress.2.2

theorem moved (h : row.Summarises log) (new : DeliveryStatus)
    (updatedAt : Instant) : (row.moved new updatedAt).Summarises log where
  numbers := h.numbers
  progress := by
    have hrow := h.progress
    simp only [DeliveryRow.progress, Timeline.progress, DeliveryRow.timeline,
      Progress.mk.injEq] at hrow
    simp [DeliveryRow.progress, Timeline.progress, DeliveryRow.timeline,
      DeliveryRow.moved, hrow]

theorem complete (h : row.Summarises log) {input : CompleteDeliveryInput}
    (hn : input.n = row.attemptCount + 1) :
    (input.complete row).Summarises (log ++ [input.attempt]) where
  numbers := by
    have hcount : (input.complete row).attemptCount = row.attemptCount + 1 :=
      hn
    rw [hcount, List.map_append, h.numbers, List.range'_concat]
    simp [CompleteDeliveryInput.attempt, hn, Nat.add_comm]
  progress := by
    have hlength := h.length_eq
    simp [DeliveryRow.progress, Timeline.progress, DeliveryRow.timeline,
      CompleteDeliveryInput.complete, CompleteDeliveryInput.attempt,
      AttemptRow.outcome, hn, hlength]

end DeliveryRow.Summarises

namespace Database

/-- The timeline that the database holds of a Delivery. -/
def timeline? (db : Database) (deliveryId : Uuid) : Option Timeline :=
  (db.delivery? deliveryId).map fun row =>
    row.timeline (db.attemptLog deliveryId)

/-- Nothing is lost by looking at the timeline of the Delivery only. -/
def Consistent (db : Database) (deliveryId : Uuid) : Prop :=
  ∀ row, db.delivery? deliveryId = some row →
    row.Summarises (db.attemptLog deliveryId)

variable {db db' : Database} {deliveryId : Uuid}

theorem timeline?_eq_some {row : DeliveryRow}
    (h : db.delivery? deliveryId = some row) :
    db.timeline? deliveryId = some (row.timeline (db.attemptLog deliveryId)) := by
  simp [timeline?, h]

theorem timeline?_eq_none_iff :
    db.timeline? deliveryId = none ↔ db.delivery? deliveryId = none := by
  simp [timeline?]

theorem exists_of_timeline? {t : Timeline}
    (h : db.timeline? deliveryId = some t) :
    ∃ row, db.delivery? deliveryId = some row ∧
      row.timeline (db.attemptLog deliveryId) = t := by
  simpa [timeline?] using h

theorem timeline?_congr
    (hrow : db'.delivery? deliveryId = db.delivery? deliveryId)
    (hlog : db'.attemptLog deliveryId = db.attemptLog deliveryId) :
    db'.timeline? deliveryId = db.timeline? deliveryId := by
  rw [timeline?, timeline?, hrow, hlog]

theorem Consistent.congr (h : db.Consistent deliveryId)
    (hrow : db'.delivery? deliveryId = db.delivery? deliveryId)
    (hlog : db'.attemptLog deliveryId = db.attemptLog deliveryId) :
    db'.Consistent deliveryId := by
  rw [Consistent, hrow, hlog]
  exact h

theorem Consistent.frame (h : db.Consistent deliveryId)
    (hrow : db'.delivery? deliveryId = db.delivery? deliveryId)
    (hlog : db'.attemptLog deliveryId = db.attemptLog deliveryId)
    (B : Set ℕ) :
    db'.Consistent deliveryId ∧
      Change B (db.timeline? deliveryId) (db'.timeline? deliveryId) := by
  rw [timeline?_congr hrow hlog]
  exact ⟨h.congr hrow hlog, .stay _⟩

theorem Consistent.of_none (h : db.delivery? deliveryId = none) :
    db.Consistent deliveryId := by
  intro row hrow
  rw [h] at hrow
  cases hrow

/-- In a consistent database the timeline determines the summary columns. -/
theorem Consistent.progress_eq (h : db.Consistent deliveryId)
    {row : DeliveryRow} (hrow : db.delivery? deliveryId = some row)
    {t : Timeline} (ht : db.timeline? deliveryId = some t) :
    row.progress = t.progress := by
  rw [timeline?_eq_some hrow] at ht
  cases ht
  exact (h row hrow).progress

theorem Consistent.progress_congr (h : db.Consistent deliveryId)
    (h' : db'.Consistent deliveryId) {row : DeliveryRow}
    (hrow : db.delivery? deliveryId = some row)
    (ht : db'.timeline? deliveryId = db.timeline? deliveryId) :
    ∃ row', db'.delivery? deliveryId = some row' ∧
      row'.progress = row.progress := by
  rw [timeline?_eq_some hrow] at ht
  obtain ⟨row', hrow', _⟩ := exists_of_timeline? ht
  exact ⟨row', hrow', (h'.progress_eq hrow' ht).trans
    (h.progress_eq hrow (timeline?_eq_some hrow)).symm⟩

end Database

/-! ## Status moves -/

section MoveStatus

variable {old new : DeliveryStatus} {db : Database} {deliveryId : Uuid}
  {updatedAt : Instant}

theorem Database.Consistent.moveStatus (h : db.Consistent deliveryId) :
    (moveStatus old new db deliveryId updatedAt).2.Consistent deliveryId := by
  intro row' hrow'
  rw [delivery?_moveStatus_self] at hrow'
  rw [attemptLog_moveStatus]
  obtain ⟨row, hrow, rfl⟩ := Option.map_eq_some_iff.mp hrow'
  split
  · exact (h row hrow).moved new updatedAt
  · exact h row hrow

theorem timeline?_moveStatus_self :
    (moveStatus old new db deliveryId updatedAt).2.timeline? deliveryId =
      (db.timeline? deliveryId).map fun t =>
        if t.status = old then ⟨new, t.outcomes⟩ else t := by
  rw [Database.timeline?, Database.timeline?, delivery?_moveStatus_self,
    attemptLog_moveStatus]
  cases hrow : db.delivery? deliveryId with
  | none => rfl
  | some row =>
      by_cases hstatus : row.status = old
      · simp [DeliveryRow.timeline, DeliveryRow.moved, hstatus]
      · simp [DeliveryRow.timeline, hstatus]

theorem change_claimPendingDelivery (B : Set ℕ) :
    Change B (db.timeline? deliveryId)
      ((claimPendingDelivery db deliveryId updatedAt).2.timeline?
        deliveryId) := by
  rw [claimPendingDelivery, timeline?_moveStatus_self]
  cases db.timeline? deliveryId with
  | none => exact .stay none
  | some t =>
      by_cases h : t.status = .pending
      · simpa [h] using Change.work (WorkerStep.claim h)
      · simpa [h] using Change.stay (some t)

theorem change_resetInProgressDeliveryToPending (B : Set ℕ) :
    Change B (db.timeline? deliveryId)
      ((resetInProgressDeliveryToPending db deliveryId updatedAt).2.timeline?
        deliveryId) := by
  rw [resetInProgressDeliveryToPending, timeline?_moveStatus_self]
  cases db.timeline? deliveryId with
  | none => exact .stay none
  | some t =>
      by_cases h : t.status = .inProgress
      · simpa [h] using Change.work (WorkerStep.release h)
      · simpa [h] using Change.stay (some t)

/-- A retry that returns true reopens the timeline; one that returns false
leaves it as it is. -/
theorem retryDeadLetteredDelivery_cases :
    ((retryDeadLetteredDelivery db deliveryId updatedAt).1 = true ∧
      ∃ t u, db.timeline? deliveryId = some t ∧
        (retryDeadLetteredDelivery db deliveryId updatedAt).2.timeline?
          deliveryId = some u ∧ Reopens t u) ∨
    ((retryDeadLetteredDelivery db deliveryId updatedAt).1 = false ∧
      (retryDeadLetteredDelivery db deliveryId updatedAt).2.timeline?
        deliveryId = db.timeline? deliveryId) := by
  unfold retryDeadLetteredDelivery
  rw [timeline?_moveStatus_self]
  by_cases hrow : ∃ row, db.delivery? deliveryId = some row ∧
      row.status = .deadLettered
  · left
    refine ⟨moveStatus_result_iff.mpr hrow, ?_⟩
    obtain ⟨row, hrow, hstatus⟩ := hrow
    refine ⟨_, _, Database.timeline?_eq_some hrow, ?_, .reopen hstatus⟩
    simp [Database.timeline?_eq_some hrow, DeliveryRow.timeline, hstatus]
  · right
    refine ⟨by rwa [← Bool.not_eq_true, moveStatus_result_iff], ?_⟩
    cases ht : db.timeline? deliveryId with
    | none => rfl
    | some t =>
        obtain ⟨row, hrow', rfl⟩ := Database.exists_of_timeline? ht
        have hstatus : row.status ≠ .deadLettered :=
          fun h => hrow ⟨row, hrow', h⟩
        simp [DeliveryRow.timeline, hstatus]

theorem reopens_of_retryDeadLetteredDelivery
    (h : (retryDeadLetteredDelivery db deliveryId updatedAt).1 = true) :
    ∃ t u, db.timeline? deliveryId = some t ∧
      (retryDeadLetteredDelivery db deliveryId updatedAt).2.timeline?
        deliveryId = some u ∧ Reopens t u := by
  have hcases := @retryDeadLetteredDelivery_cases db deliveryId updatedAt
  rcases hcases with ⟨_, hreopens⟩ | ⟨hfalse, _⟩
  · exact hreopens
  · rw [hfalse] at h
    cases h

theorem evolves_retryDeadLetteredDelivery {B : Set ℕ} {reopens : Prop}
    (hreopens : reopens) :
    Evolves B reopens (db.timeline? deliveryId)
      ((retryDeadLetteredDelivery db deliveryId updatedAt).2.timeline?
        deliveryId) := by
  have hcases := @retryDeadLetteredDelivery_cases db deliveryId updatedAt
  rcases hcases with ⟨_, t, u, ht, hu, h⟩ | ⟨_, hsame⟩
  · rw [ht, hu]
    exact .reopen hreopens h
  · rw [hsame]
    exact .change (.stay _)

end MoveStatus

/-! ## Recording -/

section CompleteDelivery

variable {db : Database} {input : CompleteDeliveryInput}

/-- With a number that continues the count a reader saw, the transaction can
commit only while that count is the current one and the Delivery is live. -/
theorem Database.Consistent.recordable_current
    (hcons : db.Consistent input.deliveryId) {count : ℕ}
    (hn : input.n = count + 1)
    (hbehind : Behind count (db.timeline? input.deliveryId))
    (hrec : Recordable db input) :
    ∃ row, db.delivery? input.deliveryId = some row ∧
      row.attemptCount = count ∧ row.status.Live := by
  obtain ⟨row, hrow⟩ := Option.isSome_iff_exists.mp hrec.1
  have hsum := hcons row hrow
  have hlt : row.attemptCount < input.n :=
    (hsum.number_free_iff (by omega)).mp hrec.2
  have hlength : (row.timeline (db.attemptLog input.deliveryId)).outcomes.length
      = row.attemptCount := by
    simpa [DeliveryRow.timeline] using hsum.length_eq
  rcases hbehind _ (Database.timeline?_eq_some hrow) with h | ⟨h, hlive⟩
  · omega
  · exact ⟨row, hrow, by omega, hlive⟩

theorem timeline?_completeDelivery_self (hrec : Recordable db input)
    {row : DeliveryRow} (hrow : db.delivery? input.deliveryId = some row) :
    (completeDelivery db input).2.timeline? input.deliveryId =
      some ⟨input.status, (db.attemptLog input.deliveryId).map
        AttemptRow.outcome ++ [input.attempt.outcome]⟩ := by
  rw [Database.timeline?, delivery?_completeDelivery_self hrec, hrow,
    attemptLog_completeDelivery_self hrec]
  simp [DeliveryRow.timeline, CompleteDeliveryInput.complete]

theorem status_of_completeDelivery_ok
    (h : (completeDelivery db input).1 = .ok ()) :
    ∃ t, (completeDelivery db input).2.timeline? input.deliveryId = some t ∧
      t.status = input.status := by
  by_cases hrec : Recordable db input
  · obtain ⟨row, hrow⟩ := Option.isSome_iff_exists.mp hrec.1
    exact ⟨_, timeline?_completeDelivery_self hrec hrow, rfl⟩
  · obtain ⟨⟨e, he⟩, _⟩ := completeDelivery_of_not_recordable hrec
    rw [he] at h
    cases h

/-- `completeDelivery` keeps consistency and makes a worker step, although its
UPDATE is guarded by nothing but the id. -/
theorem completeDelivery_refines {B : Set ℕ} {count M : ℕ}
    (hcons : db.Consistent input.deliveryId) (hn : input.n = count + 1)
    (hbehind : Behind count (db.timeline? input.deliveryId)) (hM : M ∈ B)
    (hs : BudgetAllows M input.n input.status) :
    (completeDelivery db input).2.Consistent input.deliveryId ∧
      Change B (db.timeline? input.deliveryId)
        ((completeDelivery db input).2.timeline? input.deliveryId) := by
  by_cases hrec : Recordable db input
  · obtain ⟨row, hrow, hcount, hlive⟩ :=
      hcons.recordable_current hn hbehind hrec
    have hsum := hcons row hrow
    constructor
    · intro row' hrow'
      rw [delivery?_completeDelivery_self hrec, hrow] at hrow'
      cases hrow'
      rw [attemptLog_completeDelivery_self hrec]
      exact hsum.complete (by omega)
    · rw [timeline?_completeDelivery_self hrec hrow,
        Database.timeline?_eq_some hrow]
      apply Change.work
      apply WorkerStep.record (t := row.timeline _) _ _ hlive hM
      have hlength : (row.timeline
          (db.attemptLog input.deliveryId)).outcomes.length + 1 = input.n := by
        simpa [DeliveryRow.timeline, hn, ← hcount] using hsum.length_eq
      rw [hlength]
      exact hs
  · rw [(completeDelivery_of_not_recordable hrec).2]
    exact ⟨hcons, .stay _⟩

end CompleteDelivery

/-! ## Frames -/

/-- The Delivery whose row a statement may write. -/
def Query.writes : Query → Option Uuid
  | .claimPendingDelivery id _ => some id
  | .resetInProgressDeliveryToPending id _ => some id
  | .completeDelivery input => some input.deliveryId
  | .retryDeadLetteredDelivery id _ => some id
  | _ => none

def Call.writes : Call → Option Uuid
  | .query q => q.writes
  | _ => none

theorem Query.run_frame {q : Query} {deliveryId : Uuid}
    (h : q.writes ≠ some deliveryId) (db : Database) :
    (q.run db).2.delivery? deliveryId = db.delivery? deliveryId ∧
      (q.run db).2.attemptLog deliveryId = db.attemptLog deliveryId := by
  have hne {id : Uuid} (h : some id ≠ some deliveryId) : deliveryId ≠ id :=
    fun heq => h (congrArg some heq.symm)
  cases q with
  | claimPendingDelivery id updatedAt =>
      exact ⟨delivery?_moveStatus_of_ne (hne h), rfl⟩
  | resetInProgressDeliveryToPending id updatedAt =>
      exact ⟨delivery?_moveStatus_of_ne (hne h), rfl⟩
  | retryDeadLetteredDelivery id updatedAt =>
      exact ⟨delivery?_moveStatus_of_ne (hne h), rfl⟩
  | completeDelivery input => exact completeDelivery_of_ne (hne h)
  | _ => exact ⟨rfl, rfl⟩

theorem perform_frame {c : Call} {deliveryId : Uuid}
    (h : c.writes ≠ some deliveryId) (x : Choice) (w : World) :
    (perform x c w).2.db.delivery? deliveryId = w.db.delivery? deliveryId ∧
      (perform x c w).2.db.attemptLog deliveryId =
        w.db.attemptLog deliveryId := by
  by_cases hc : ∃ q, c = .query q
  · obtain ⟨q, rfl⟩ := hc
    rcases perform_query_db x q w with hdb | hdb
    · rw [hdb]
      exact ⟨rfl, rfl⟩
    · rw [hdb]
      exact Query.run_frame h w.db
  · rw [perform_db_of_not_query (fun q hq => hc ⟨q, hq⟩)]
    exact ⟨rfl, rfl⟩

/-! ## Every timeline is that of a database -/

/-- The row that summarises a timeline. -/
def DeliveryRow.ofTimeline (deliveryId : Uuid) (t : Timeline) :
    DeliveryRow where
  id := deliveryId
  broadcastId := 0
  endpointId := 0
  channelId := 0
  status := t.status
  attemptCount := t.progress.attemptCount
  lastStatusCode := t.progress.lastStatusCode
  lastDurationMs := t.progress.lastDurationMs
  lastError := t.progress.lastError
  updatedAt := 0

/-- Outcomes as Attempts numbered from one. -/
def AttemptRow.ofOutcomes (deliveryId : Uuid) (outcomes : List Outcome) :
    List AttemptRow :=
  (outcomes.zipIdx 1).map fun entry =>
    { deliveryId := deliveryId
      n := entry.2
      statusCode := entry.1.statusCode
      durationMs := entry.1.durationMs
      error := entry.1.error
      at_ := entry.1.at_ }

theorem AttemptRow.map_n_ofOutcomes (deliveryId : Uuid)
    (outcomes : List Outcome) :
    (ofOutcomes deliveryId outcomes).map n =
      List.range' 1 outcomes.length := by
  simp only [ofOutcomes, List.map_map]
  exact List.zipIdx_map_snd 1 outcomes

theorem AttemptRow.map_outcome_ofOutcomes (deliveryId : Uuid)
    (outcomes : List Outcome) :
    (ofOutcomes deliveryId outcomes).map outcome = outcomes := by
  simp only [ofOutcomes, List.map_map]
  exact List.zipIdx_map_fst 1 outcomes

theorem AttemptRow.deliveryId_of_mem_ofOutcomes {deliveryId : Uuid}
    {outcomes : List Outcome} {a : AttemptRow}
    (h : a ∈ ofOutcomes deliveryId outcomes) : a.deliveryId = deliveryId := by
  obtain ⟨entry, _, rfl⟩ := List.mem_map.mp h
  rfl

namespace Database

/-- A database that holds one Delivery, with the given timeline. -/
def ofTimeline (deliveryId : Uuid) (t : Timeline) : Database where
  channels := ⟨[{ id := 0, slug := "", createdAt := 0, updatedAt := 0 }], by simp⟩
  channelTokens := ⟨[], by simp⟩
  endpoints := ⟨[⟨0, 0, none, "", none, .empty, true, none, 0, 0⟩], by simp⟩
  broadcasts := ⟨[⟨0, 0, 0, "", [], .empty⟩], by simp⟩
  deliveries := ⟨[DeliveryRow.ofTimeline deliveryId t], by simp⟩
  attempts := ⟨AttemptRow.ofOutcomes deliveryId t.outcomes, by
    apply List.Nodup.of_map Prod.snd
    rw [List.map_map]
    exact (AttemptRow.map_n_ofOutcomes deliveryId t.outcomes).symm ▸
      List.nodup_range'⟩
  channel_valid := by simp [Table.mem_def, ChannelRow.Valid]
  channel_slug := by simp [activeSlugs]
  token_channel := by simp [Table.mem_def]
  token_hash := by simp
  endpoint_url := by simp
  endpoint_channel := by simp [Table.mem_def]
  broadcast_channel := by simp [Table.mem_def]
  delivery_broadcast := by simp [Table.mem_def, DeliveryRow.ofTimeline]
  delivery_endpoint := by simp [Table.mem_def, DeliveryRow.ofTimeline]
  delivery_channel := by simp [Table.mem_def, DeliveryRow.ofTimeline]
  delivery_pair := by simp
  attempt_delivery := by
    intro a ha
    exact ⟨_, List.mem_singleton_self _,
      (AttemptRow.deliveryId_of_mem_ofOutcomes ha).symm⟩

variable (deliveryId : Uuid) (t : Timeline)

@[simp] theorem delivery?_ofTimeline :
    (ofTimeline deliveryId t).delivery? deliveryId =
      some (DeliveryRow.ofTimeline deliveryId t) := by
  simp [delivery?, Table.find?, ofTimeline, DeliveryRow.ofTimeline]

@[simp] theorem attemptLog_ofTimeline :
    (ofTimeline deliveryId t).attemptLog deliveryId =
      AttemptRow.ofOutcomes deliveryId t.outcomes := by
  apply List.filter_eq_self.mpr
  intro a ha
  simpa using AttemptRow.deliveryId_of_mem_ofOutcomes ha

theorem timeline?_ofTimeline :
    (ofTimeline deliveryId t).timeline? deliveryId = some t := by
  rw [timeline?_eq_some (delivery?_ofTimeline deliveryId t),
    attemptLog_ofTimeline, DeliveryRow.timeline,
    AttemptRow.map_outcome_ofOutcomes]
  rfl

theorem consistent_ofTimeline :
    (ofTimeline deliveryId t).Consistent deliveryId := by
  intro row hrow
  rw [delivery?_ofTimeline] at hrow
  cases hrow
  rw [attemptLog_ofTimeline]
  refine ⟨AttemptRow.map_n_ofOutcomes deliveryId t.outcomes, ?_⟩
  rw [DeliveryRow.timeline, AttemptRow.map_outcome_ofOutcomes]
  rfl

end Database

/-- A world with one Delivery and no jobs. -/
def World.ofTimeline (deliveryId : Uuid) (t : Timeline) : World :=
  ⟨Database.ofTimeline deliveryId t, fun _ => none⟩

end WebhookBroadcast
