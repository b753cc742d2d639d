import WebhookBroadcast.Endpoint.Board
import WebhookBroadcast.Endpoint.Enablement

/-!
# The auto-disable rule

What a call of `maybeAutoDisableEndpoint` that nothing disturbs does, said about
the rows alone: the Endpoint is disabled when a terminal failure that is old
enough is later than every success.  The maximum and the minimum that the code
takes find such a failure whenever there is one.
-/

namespace WebhookBroadcast

open Interaction Relational

/-- The Endpoint is enabled, and one of its terminal failures is at least this
old and later than all of its successes. -/
def DueForDisable (db : Database) (endpointId : Uuid)
    (autoDisableAfterMs : ℕ) (now : Instant) : Prop :=
  ∃ e ∈ db.endpoints.rows, e.id = endpointId ∧ e.enabled = true ∧
    e.autoDisabledAt = none ∧
      ∃ f ∈ db.deliveries.rows, f.endpointId = endpointId ∧
        (f.status = .failed ∨ f.status = .deadLettered) ∧
        f.updatedAt ≤ now - autoDisableAfterMs ∧
        ∀ s ∈ db.deliveries.rows, s.endpointId = endpointId →
          s.status = .succeeded → s.updatedAt < f.updatedAt

instance (db : Database) (endpointId : Uuid) (ms : ℕ) (now : Instant) :
    Decidable (DueForDisable db endpointId ms now) :=
  inferInstanceAs (Decidable (∃ e ∈ _, _))

/-- The Endpoint is disabled at this time, and nothing else changes. -/
structure DisablesOnly (endpointId : Uuid) (now : Instant) (w w' : World) :
    Prop where
  endpoint : ∃ e ∈ w.db.endpoints.find? endpointId,
    w'.db.endpoints.find? endpointId =
      some { e with enabled := false, autoDisabledAt := some now,
                    updatedAt := now }
  others : ∀ id ≠ endpointId,
    w'.db.endpoints.find? id = w.db.endpoints.find? id
  channels : w'.db.channels = w.db.channels
  channelTokens : w'.db.channelTokens = w.db.channelTokens
  broadcasts : w'.db.broadcasts = w.db.broadcasts
  deliveries : w'.db.deliveries = w.db.deliveries
  attempts : w'.db.attempts = w.db.attempts
  jobs : w'.jobs = w.jobs

/-- No statement of a call fails. -/
def Faultless (choices : ℕ → Choice) : Prop := ∀ i, (choices i).fault = none

section Rule

variable {endpointId : Uuid} {ms : ℕ} {now : Instant}

/-- A streak that is long enough is what makes the Endpoint due. -/
theorem dueForDisable_iff {db : Database} :
    DueForDisable db endpointId ms now ↔
      (∃ e, db.endpoints.find? endpointId = some e ∧ e.enabled = true ∧
        e.autoDisabledAt = none) ∧
      ∃ s, (db.board endpointId).Unbroken s ∧ s ≤ now - ms := by
  have hunbroken (s : Instant) : (db.board endpointId).Unbroken s ↔
      ∃ f ∈ db.deliveries.rows, f.endpointId = endpointId ∧
        (f.status = .failed ∨ f.status = .deadLettered) ∧ f.updatedAt = s ∧
        ∀ u ∈ db.deliveries.rows, u.endpointId = endpointId →
          u.status = .succeeded → u.updatedAt < s := by
    simp only [Streak.Board.Unbroken, Database.shows_iff,
      DeliveryRow.mark?_eq_failure_iff, DeliveryRow.mark?_eq_success_iff,
      Table.mem_def]
    constructor
    · rintro ⟨⟨f, hf, hid, hstatus, htime⟩, hafter⟩
      exact ⟨f, hf, hid, hstatus, htime, fun u hu huid hustatus =>
        hafter u.updatedAt ⟨u, hu, huid, hustatus, rfl⟩⟩
    · rintro ⟨f, hf, hid, hstatus, htime, hafter⟩
      refine ⟨⟨f, hf, hid, hstatus, htime⟩, ?_⟩
      rintro _ ⟨u, hu, huid, hustatus, rfl⟩
      exact hafter u hu huid hustatus
  constructor
  · rintro ⟨e, he, hid, henabled, hstamp, f, hf, hfid, hstatus, hold, hafter⟩
    exact ⟨⟨e, db.endpoints.find?_eq_some_iff.mpr ⟨he, hid⟩, henabled, hstamp⟩,
      f.updatedAt, (hunbroken _).mpr ⟨f, hf, hfid, hstatus, rfl, hafter⟩, hold⟩
  · rintro ⟨⟨e, he, henabled, hstamp⟩, s, hs, hold⟩
    obtain ⟨f, hf, hfid, hstatus, rfl, hafter⟩ := (hunbroken s).mp hs
    exact ⟨e, Table.mem_of_find? he, Table.key_of_find? he, henabled, hstamp,
      f, hf, hfid, hstatus, hold, hafter⟩

/-- The first failure of the streak is old enough as soon as some failure of it
is. -/
theorem exists_streakStart_iff {db : Database} {t : Instant} :
    (∃ start, selectStreakStart db endpointId
        (selectLastSuccess db endpointId) = some start ∧ start ≤ t) ↔
      ∃ s, (db.board endpointId).Unbroken s ∧ s ≤ t := by
  constructor
  · rintro ⟨start, hstart, hle⟩
    exact ⟨start, (selectStreakStart_eq_some_iff.mp hstart).1, hle⟩
  · rintro ⟨s, hs, hle⟩
    obtain ⟨start, hearlier, hstart⟩ := exists_selectStreakStart hs
    exact ⟨start, hstart, hearlier.trans hle⟩

/-! ## The call -/

variable {choices : ℕ → Choice}

/-- A statement that does not fail returns its result. -/
theorem eval_query_of_faultless {α : Type} (hchoices : Faultless choices)
    {q : Query} {result : q.Result} {db' : Database} {w : World}
    (hq : q.run w.db = (.ok result, db')) (f : q.Result → Action α) (i : ℕ) :
    (query q >>= f).eval perform choices i w =
      (f result).eval perform choices (i + 1) { w with db := db' } := by
  rw [query, Program.call_bind, Program.eval,
    perform_query_of_none (hchoices i), hq]
  rfl

/-- The call, once the Endpoint has been found enabled. -/
theorem eval_of_enabled {w : World} (hchoices : Faultless choices)
    {e : EndpointRow} (he : w.db.endpoints.find? endpointId = some e)
    (henabled : e.enabled = true) (hstamp : e.autoDisabledAt = none) :
    (maybeAutoDisableEndpoint endpointId ms now).eval perform choices 0 w =
      match selectStreakStart w.db endpointId
          (selectLastSuccess w.db endpointId) with
      | none => (.ok false, w)
      | some start =>
          if now - start < ms then (.ok false, w)
          else (.ok (stampAutoDisabled w.db endpointId now).1,
            { w with db := (stampAutoDisabled w.db endpointId now).2 }) := by
  have hread : selectEndpointEnablement w.db endpointId = some ⟨true, none⟩ := by
    rw [selectEndpointEnablement, he, Option.map_some, henabled, hstamp]
  rw [maybeAutoDisableEndpoint, eval_query_of_faultless
    (q := .selectEndpointEnablement endpointId) (w := w) hchoices rfl, hread]
  dsimp only
  rw [if_neg (by simp), eval_query_of_faultless
    (q := .selectLastSuccess endpointId) (w := w) hchoices rfl,
    eval_query_of_faultless (q := .selectStreakStart endpointId
      (selectLastSuccess w.db endpointId)) (w := w) hchoices rfl]
  cases selectStreakStart w.db endpointId
      (selectLastSuccess w.db endpointId) with
  | none => rfl
  | some start =>
      dsimp only
      split
      · rfl
      · rw [← Program.bind_done (query (.stampAutoDisabled endpointId now)),
          eval_query_of_faultless (q := .stampAutoDisabled endpointId now)
            (w := w) hchoices rfl]
        rfl

/-- Otherwise the call ends at once. -/
theorem eval_of_not_enabled {w : World} (hchoices : Faultless choices)
    (h : ¬ ∃ e, w.db.endpoints.find? endpointId = some e ∧ e.enabled = true ∧
      e.autoDisabledAt = none) :
    (maybeAutoDisableEndpoint endpointId ms now).eval perform choices 0 w =
      (.ok false, w) := by
  rw [maybeAutoDisableEndpoint, eval_query_of_faultless
    (q := .selectEndpointEnablement endpointId) (w := w) hchoices rfl,
    selectEndpointEnablement]
  cases he : w.db.endpoints.find? endpointId with
  | none => rfl
  | some e =>
      have hoff : e.autoDisabledAt ≠ none ∨ e.enabled = false := by
        by_contra hon
        rw [not_or, not_not, Bool.not_eq_false] at hon
        exact h ⟨e, he, hon.2, hon.1⟩
      dsimp only [Option.map_some]
      rw [if_pos hoff]
      rfl

theorem eval_of_due {w : World} (hchoices : Faultless choices)
    (h : DueForDisable w.db endpointId ms now) :
    (maybeAutoDisableEndpoint endpointId ms now).eval perform choices 0 w =
      (.ok true,
        { w with db := (stampAutoDisabled w.db endpointId now).2 }) := by
  obtain ⟨⟨e, he, henabled, hstamp⟩, hstreak⟩ := dueForDisable_iff.mp h
  obtain ⟨start, hstart, hold⟩ := exists_streakStart_iff.mpr hstreak
  have hstamps : (stampAutoDisabled w.db endpointId now).1 = true :=
    stampAutoDisabled_result_iff.mpr ⟨e, he, hstamp⟩
  rw [eval_of_enabled hchoices he henabled hstamp, hstart]
  dsimp only
  rw [if_neg (not_lt.mpr (le_sub_comm.mp hold)), hstamps]

theorem eval_of_not_due {w : World} (hchoices : Faultless choices)
    (h : ¬ DueForDisable w.db endpointId ms now) :
    (maybeAutoDisableEndpoint endpointId ms now).eval perform choices 0 w =
      (.ok false, w) := by
  by_cases hon : ∃ e, w.db.endpoints.find? endpointId = some e ∧
      e.enabled = true ∧ e.autoDisabledAt = none
  · obtain ⟨e, he, henabled, hstamp⟩ := hon
    rw [eval_of_enabled hchoices he henabled hstamp]
    cases hstart : selectStreakStart w.db endpointId
        (selectLastSuccess w.db endpointId) with
    | none => rfl
    | some start =>
        have hrecent : now - start < ms := by
          by_contra hlong
          exact h (dueForDisable_iff.mpr ⟨⟨e, he, henabled, hstamp⟩,
            exists_streakStart_iff.mp ⟨start, hstart,
              le_sub_comm.mp (not_lt.mp hlong)⟩⟩)
        dsimp only
        rw [if_pos hrecent]
  · exact eval_of_not_enabled hchoices hon

theorem disablesOnly_stampAutoDisabled {w : World}
    (h : DueForDisable w.db endpointId ms now) :
    DisablesOnly endpointId now w
      { w with db := (stampAutoDisabled w.db endpointId now).2 } where
  endpoint := by
    obtain ⟨⟨e, he, -, hstamp⟩, -⟩ := dueForDisable_iff.mp h
    refine ⟨e, he, ?_⟩
    rw [find?_stampAutoDisabled_self, he, Option.map_some, if_pos hstamp]
    rfl
  others _ hid := find?_stampAutoDisabled_of_ne hid
  channels := rfl
  channelTokens := rfl
  broadcasts := rfl
  deliveries := rfl
  attempts := rfl
  jobs := rfl

theorem not_dueForDisable_stampAutoDisabled {db : Database}
    (h : DueForDisable db endpointId ms now) (ms' : ℕ) (now' : Instant) :
    ¬ DueForDisable (stampAutoDisabled db endpointId now).2 endpointId ms'
      now' := by
  obtain ⟨⟨e, he, -, hstamp⟩, -⟩ := dueForDisable_iff.mp h
  rintro hagain
  obtain ⟨⟨e', he', -, hstamp'⟩, -⟩ := dueForDisable_iff.mp hagain
  rw [find?_stampAutoDisabled_self, he, Option.map_some, if_pos hstamp] at he'
  cases he'
  cases hstamp'

end Rule

/-- A call that nothing disturbs disables the Endpoint when it is due, changes
nothing otherwise, and finds nothing to do a second time. -/
theorem maybeAutoDisableEndpoint_disables_iff_due (w : World)
    (endpointId : Uuid) (autoDisableAfterMs : ℕ) (now : Instant)
    {choices : ℕ → Choice} (hchoices : Faultless choices) :
    let result := (maybeAutoDisableEndpoint endpointId autoDisableAfterMs
      now).eval perform choices 0 w
    if DueForDisable w.db endpointId autoDisableAfterMs now then
      result.1 = .ok true ∧ DisablesOnly endpointId now w result.2 ∧
        ∀ ms' now' choices', Faultless choices' →
          (maybeAutoDisableEndpoint endpointId ms' now').eval perform choices' 0
            result.2 = (.ok false, result.2)
    else result = (.ok false, w) := by
  dsimp only
  split
  next hdue =>
    rw [eval_of_due hchoices hdue]
    exact ⟨rfl, disablesOnly_stampAutoDisabled hdue, fun ms' now' _ h' =>
      eval_of_not_due h' (not_dueForDisable_stampAutoDisabled hdue ms' now')⟩
  next hdue => exact eval_of_not_due hchoices hdue

/-- The only Delivery to a new Endpoint has failed, which does not disable the
Endpoint at once. -/
def failedOnce : ServiceHistory :=
  [.background (.createEndpoint { url := "https://a.example" } 1 0 0),
    .start (.fanOut 3 ⟨⟨7, 0, 0, "text/plain", [], .empty⟩, some 5⟩)] ++
  refusedSteps 0 5 ++
  [.start (.process ⟨⟨1000, none, none, none, some 60000⟩, 8⟩)] ++
  refusedSteps 1 13

theorem maybeAutoDisableEndpoint_disables_iff_due_failedOnce :
    let w := (serve (fun _ => none) channelWorld failedOnce).state
    let result := (maybeAutoDisableEndpoint 1 60000 60000).eval perform
      (fun _ => {}) 0 w
    result.1 = .ok true ∧ DisablesOnly 1 60000 w result.2 := by
  have hrule := maybeAutoDisableEndpoint_disables_iff_due
    (serve (fun _ => none) channelWorld failedOnce).state 1 60000 60000
    (fun _ => rfl : Faultless fun _ => {})
  dsimp only at hrule
  rw [if_pos (by decide)] at hrule
  exact ⟨hrule.1, hrule.2.1⟩

end WebhookBroadcast
