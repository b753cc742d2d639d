import WebhookBroadcast.Db.Endpoints
import WebhookBroadcast.Streak.Board

/-!
# The board of an Endpoint

The Deliveries of an Endpoint as a board of outcomes, and what the two
aggregate queries of `maybeAutoDisableEndpoint` read off it.
-/

namespace WebhookBroadcast

open Relational

/-- The outcome that a terminal Delivery of the Endpoint shows. -/
def DeliveryRow.mark? (row : DeliveryRow) (endpointId : Uuid) :
    Option (Streak.Mark Instant) :=
  if row.endpointId = endpointId then
    match row.status with
    | .succeeded => some ⟨true, row.updatedAt⟩
    | .failed | .deadLettered => some ⟨false, row.updatedAt⟩
    | .pending | .inProgress => none
  else none

namespace DeliveryRow

variable {row : DeliveryRow} {endpointId : Uuid}

theorem mark?_eq_success_iff {u : Instant} :
    row.mark? endpointId = some ⟨true, u⟩ ↔
      row.endpointId = endpointId ∧ row.status = .succeeded ∧
        row.updatedAt = u := by
  by_cases hid : row.endpointId = endpointId
  · cases hstatus : row.status with
    | _ => simp [mark?, hid, hstatus]
  · simp [mark?, hid]

theorem mark?_eq_failure_iff {s : Instant} :
    row.mark? endpointId = some ⟨false, s⟩ ↔
      row.endpointId = endpointId ∧
        (row.status = .failed ∨ row.status = .deadLettered) ∧
          row.updatedAt = s := by
  by_cases hid : row.endpointId = endpointId
  · cases hstatus : row.status with
    | _ => simp [mark?, hid, hstatus]
  · simp [mark?, hid]

theorem mark?_of_live (h : row.status.Live) : row.mark? endpointId = none := by
  rcases h with h | h <;> simp [mark?, h]

end DeliveryRow

namespace Database

/-- What the Deliveries of an Endpoint show. -/
def board (db : Database) (endpointId : Uuid) : Streak.Board Uuid Instant :=
  fun d => (db.delivery? d).bind fun row => row.mark? endpointId

variable {db : Database} {endpointId : Uuid}

theorem board_of_none {d : Uuid} (h : db.delivery? d = none) :
    db.board endpointId d = none := by
  simp [board, h]

theorem board_of_some {d : Uuid} {row : DeliveryRow}
    (h : db.delivery? d = some row) :
    db.board endpointId d = row.mark? endpointId := by
  simp [board, h]

theorem shows_iff {m : Streak.Mark Instant} :
    (db.board endpointId).Shows m ↔
      ∃ row ∈ db.deliveries, row.mark? endpointId = some m := by
  constructor
  · rintro ⟨d, hd⟩
    obtain ⟨row, hrow, hmark⟩ := Option.bind_eq_some_iff.mp hd
    exact ⟨row, mem_of_delivery? hrow, hmark⟩
  · rintro ⟨row, hrow, hmark⟩
    have hfind : db.delivery? row.id = some row :=
      db.deliveries.find?_eq_some_iff.mpr ⟨hrow, rfl⟩
    exact ⟨row.id, (board_of_some hfind).trans hmark⟩

end Database

section Aggregates

variable {db : Database} {endpointId : Uuid}

/-- `max(updated_at)` is the time of the last success on the board. -/
theorem selectLastSuccess_eq_some_iff {u : Instant} :
    selectLastSuccess db endpointId = some u ↔
      IsGreatest {v | (db.board endpointId).Shows ⟨true, v⟩} u := by
  have hmem : ∀ v, v ∈ (db.deliveries.select fun d =>
      d.endpointId = endpointId && d.status = .succeeded).map
        DeliveryRow.updatedAt ↔ (db.board endpointId).Shows ⟨true, v⟩ := by
    intro v
    rw [Database.shows_iff, List.mem_map]
    refine exists_congr fun row => ?_
    rw [Table.mem_select, DeliveryRow.mark?_eq_success_iff]
    simp [and_assoc]
  rw [selectLastSuccess, List.max?_eq_some_iff]
  exact and_congr (hmem u) (forall_congr' fun v => imp_congr_left (hmem v))

theorem exists_selectLastSuccess {u : Instant}
    (hu : (db.board endpointId).Shows ⟨true, u⟩) :
    ∃ v, selectLastSuccess db endpointId = some v ∧ u ≤ v := by
  cases hlast : selectLastSuccess db endpointId with
  | some v =>
      exact ⟨v, rfl, (selectLastSuccess_eq_some_iff.mp hlast).2 hu⟩
  | none =>
      obtain ⟨row, hrow, hmark⟩ := Database.shows_iff.mp hu
      obtain ⟨hid, hstatus, -⟩ := DeliveryRow.mark?_eq_success_iff.mp hmark
      rw [selectLastSuccess, List.max?_eq_none_iff, List.map_eq_nil_iff] at hlast
      have hselected : row ∈ db.deliveries.select fun d =>
          d.endpointId = endpointId && d.status = .succeeded :=
        Table.mem_select.mpr ⟨hrow, by simp [hid, hstatus]⟩
      rw [hlast] at hselected
      cases hselected

/-- The condition on `updated_at` says that the failure is later than every
success on the board. -/
theorem after_selectLastSuccess_iff {s : Instant} :
    (match selectLastSuccess db endpointId with
      | some success => decide (success < s)
      | none => true) = true ↔
      ∀ u, (db.board endpointId).Shows ⟨true, u⟩ → u < s := by
  constructor
  · intro h u hu
    obtain ⟨v, hlast, huv⟩ := exists_selectLastSuccess hu
    rw [hlast] at h
    exact lt_of_le_of_lt huv (by simpa using h)
  · intro h
    cases hlast : selectLastSuccess db endpointId with
    | none => rfl
    | some v =>
        have hv := h v (selectLastSuccess_eq_some_iff.mp hlast).1
        simpa using hv

/-- `min(updated_at)` is the time of the first failure on the board that is
later than every success on the board from which the last one was read. -/
theorem selectStreakStart_eq_some_iff_isLeast {db' : Database} {s : Instant} :
    selectStreakStart db endpointId (selectLastSuccess db' endpointId) =
        some s ↔
      IsLeast {t | (db.board endpointId).Shows ⟨false, t⟩ ∧
        ∀ u, (db'.board endpointId).Shows ⟨true, u⟩ → u < t} s := by
  have hmem : ∀ t, t ∈ (db.deliveries.select fun d =>
      d.endpointId = endpointId &&
        (d.status = .failed || d.status = .deadLettered) &&
        (match selectLastSuccess db' endpointId with
          | some success => decide (success < d.updatedAt)
          | none => true)).map DeliveryRow.updatedAt ↔
      (db.board endpointId).Shows ⟨false, t⟩ ∧
        ∀ u, (db'.board endpointId).Shows ⟨true, u⟩ → u < t := by
    intro t
    rw [Database.shows_iff, List.mem_map, ← after_selectLastSuccess_iff]
    constructor
    · rintro ⟨row, hrow, rfl⟩
      obtain ⟨hrow, hp⟩ := Table.mem_select.mp hrow
      rw [Bool.and_eq_true] at hp
      refine ⟨⟨row, hrow, DeliveryRow.mark?_eq_failure_iff.mpr ?_⟩, hp.2⟩
      simpa using hp.1
    · rintro ⟨⟨row, hrow, hmark⟩, hafter⟩
      obtain ⟨hid, hstatus, rfl⟩ := DeliveryRow.mark?_eq_failure_iff.mp hmark
      refine ⟨row, Table.mem_select.mpr ⟨hrow, ?_⟩, rfl⟩
      rw [Bool.and_eq_true]
      exact ⟨by simpa [hid] using hstatus, hafter⟩
  rw [selectStreakStart, List.min?_eq_some_iff]
  exact and_congr (hmem s) (forall_congr' fun t => imp_congr_left (hmem t))

/-- The two aggregates find the start of the streak on the board. -/
theorem selectStreakStart_eq_some_iff {s : Instant} :
    selectStreakStart db endpointId (selectLastSuccess db endpointId) =
        some s ↔ (db.board endpointId).StreakStart s :=
  selectStreakStart_eq_some_iff_isLeast

/-- As long as some failure is later than every success, a streak is found, and
it starts no later. -/
theorem exists_selectStreakStart {s : Instant}
    (hs : (db.board endpointId).Unbroken s) :
    ∃ start ≤ s, selectStreakStart db endpointId
      (selectLastSuccess db endpointId) = some start := by
  cases hstart : selectStreakStart db endpointId
      (selectLastSuccess db endpointId) with
  | some start =>
      exact ⟨start, (selectStreakStart_eq_some_iff.mp hstart).2 hs, rfl⟩
  | none =>
      obtain ⟨row, hrow, hmark⟩ := Database.shows_iff.mp hs.1
      obtain ⟨hid, hstatus, rfl⟩ := DeliveryRow.mark?_eq_failure_iff.mp hmark
      rw [selectStreakStart, List.min?_eq_none_iff, List.map_eq_nil_iff,
        Table.select, List.filter_eq_nil_iff] at hstart
      refine absurd ?_ (hstart row hrow)
      rw [Bool.and_eq_true]
      exact ⟨by simpa [hid] using hstatus, after_selectLastSuccess_iff.mpr hs.2⟩

end Aggregates

end WebhookBroadcast
