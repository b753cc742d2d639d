import WebhookBroadcast.Endpoint.Chronicle
import WebhookBroadcast.Interaction.Amid

/-!
# Decisions amid other writers

`maybeAutoDisableEndpoint` issues three reads and a write, and nothing keeps
others from committing in between.  The guard of the write repeats one part of
the first read, that the Endpoint is not auto-disabled.  What the call stamps is
still true unless the operator has switched the Endpoint off since the first
read, or a worker has recorded a success since the second.
-/

namespace WebhookBroadcast

open Interaction Relational

/-! ## The race -/

/-- What others commit during a call: a PATCH, or the outcome of a Delivery. -/
inductive Rival where
  | patch (channelId endpointId : Uuid) (body : EndpointUpdate)
      (now : Instant)
  | complete (input : CompleteDeliveryInput)

namespace Rival

def run : Rival → World → World
  | patch channelId endpointId body now, w =>
      { w with
        db := (updateEndpoint w.db channelId endpointId (body.toPatch now)).2 }
  | complete input, w => { w with db := (completeDelivery w.db input).2 }

def runAll (rivals : List Rival) (w : World) : World :=
  rivals.foldl (fun w r => r.run w) w

/-- A worker completes a Delivery that is live, which it has claimed. -/
def Working (w : World) : Rival → Prop
  | patch _ _ _ _ => True
  | complete input => ∀ row, w.db.delivery? input.deliveryId = some row →
      row.status.Live

/-- What the PATCH of an Endpoint sets `enabled` to. -/
def enables? (endpointId : Uuid) (w : World) : Rival → Option Bool
  | patch channelId id body now =>
      match (updateEndpoint w.db channelId id (body.toPatch now)).1 with
      | .ok (some _) => if endpointId = id then body.enabled else none
      | _ => none
  | complete _ => none

/-- The outcome that is recorded for an Endpoint. -/
def records (endpointId : Uuid) (w : World) :
    Rival → List (Streak.Mark Instant)
  | patch _ _ _ _ => []
  | complete input => outcomesOf endpointId (outcomeNotes w.db input)

end Rival

/-- The last value that PATCHes of an Endpoint set `enabled` to. -/
def lastEnabled? (endpointId : Uuid) : List Rival → World → Option Bool
  | [], _ => none
  | r :: rest, w =>
      (lastEnabled? endpointId rest (r.run w)).or (r.enables? endpointId w)

/-- The outcomes that are recorded for an Endpoint. -/
def recordedBy (endpointId : Uuid) :
    List Rival → World → List (Streak.Mark Instant)
  | [], _ => []
  | r :: rest, w => r.records endpointId w ++ recordedBy endpointId rest (r.run w)

/-- Each completes a live Delivery. -/
def AllWorking : List Rival → World → Prop
  | [], _ => True
  | r :: rest, w => r.Working w ∧ AllWorking rest (r.run w)

/-- A world, what is committed right before each statement of a call, and what
decides the statements. -/
structure DecisionRace where
  world : World
  rivals : ℕ → List Rival
  choices : ℕ → Choice

namespace DecisionRace

variable (race : DecisionRace)

/-- The world that the `i`-th statement finds, if those before only read. -/
def found : ℕ → World
  | 0 => Rival.runAll (race.rivals 0) race.world
  | i + 1 => Rival.runAll (race.rivals (i + 1)) (found i)

/-- The statements that a call issues. -/
def made (endpointId : Uuid) (ms : ℕ) (now : Instant) :
    List (Made Effects Choice World) :=
  (maybeAutoDisableEndpoint endpointId ms now).callsAmid perform
    (fun i => Rival.runAll (race.rivals i)) race.choices 0 race.world

/-- Between its statements workers complete live Deliveries. -/
def Working : Prop :=
  ∀ i, AllWorking (race.rivals (i + 1)) (race.found i)

end DecisionRace

/-- The statement disables the Endpoint. -/
def Stamps (endpointId : Uuid) (now : Instant)
    (m : Made Effects Choice World) : Prop :=
  m.call = .query (.stampAutoDisabled endpointId now) ∧
    m.choice.carriesOut = true ∧
    (stampAutoDisabled m.found.db endpointId now).1 = true

instance (endpointId : Uuid) (now : Instant) (m : Made Effects Choice World) :
    Decidable (Stamps endpointId now m) :=
  inferInstanceAs (Decidable (_ ∧ _ ∧ _))

namespace DecisionRace

variable (race : DecisionRace) (endpointId : Uuid) (ms : ℕ) (now : Instant)

def Stamped : Prop :=
  ∃ m ∈ race.made endpointId ms now, Stamps endpointId now m

instance : Decidable (race.Stamped endpointId ms now) :=
  inferInstanceAs (Decidable (∃ m ∈ _, _))

/-- When the call stamps, the Endpoint is enabled, and no success of it is as
late as the start of the streak that the call has computed. -/
def StillTrue : Prop :=
  ∀ m ∈ race.made endpointId ms now, Stamps endpointId now m →
    (∃ row, m.found.db.endpoints.find? endpointId = some row ∧
      row.enabled = true) ∧
    ∀ m' ∈ race.made endpointId ms now, ∀ last start,
      m'.call = .query (.selectStreakStart endpointId last) →
      selectStreakStart m'.found.db endpointId last = some start →
      ∀ u, (m.found.db.board endpointId).Shows ⟨true, u⟩ → u < start

/-- Since the first read no PATCH has left the Endpoint switched off, and since
the second no success has been recorded that is as late as a failure that the
third takes for part of the streak. -/
structure Undisturbed : Prop where
  enabled : lastEnabled? endpointId
    (race.rivals 1 ++ (race.rivals 2 ++ race.rivals 3)) (race.found 0) ≠
      some false
  unbroken : ∀ u, ⟨true, u⟩ ∈ recordedBy endpointId
      (race.rivals 2 ++ race.rivals 3) (race.found 1) →
    ∀ s, ((race.found 2).db.board endpointId).Shows ⟨false, s⟩ →
      (∀ v, ((race.found 1).db.board endpointId).Shows ⟨true, v⟩ → v < s) →
        u < s

end DecisionRace

/-! ## What rivals do -/

section Rivals

variable {endpointId : Uuid}

theorem Rival.runAll_append (first second : List Rival) (w : World) :
    runAll (first ++ second) w = runAll second (runAll first w) :=
  List.foldl_append

theorem Rival.find?_run (r : Rival) (w : World) :
    ((r.run w).db.endpoints.find? endpointId).map EndpointRow.enabled =
      (w.db.endpoints.find? endpointId).map fun row =>
        (r.enables? endpointId w).getD row.enabled := by
  cases r with
  | patch channelId id body now =>
      simp only [run, enables?]
      rcases updateEndpoint_cases w.db channelId id (body.toPatch now) with
        ⟨e, hresult, hrow, -, hfind⟩ | ⟨hnone, hfind⟩
      · rw [hresult, hfind]
        by_cases hid : endpointId = id
        · rw [if_pos hid, hid, hrow]
          simp [EndpointPatch.set, EndpointUpdate.toPatch]
        · simp [hid]
      · rw [hfind]
        congr 1
        funext row
        split
        next e heq => exact absurd heq (hnone e)
        · rfl
  | complete input =>
      rw [run, (tables_completeDelivery _ _).1]
      rfl

/-- The Endpoint is left enabled as the last PATCH of it says. -/
theorem find?_runAll (rivals : List Rival) (w : World) :
    ((Rival.runAll rivals w).db.endpoints.find? endpointId).map
        EndpointRow.enabled =
      (w.db.endpoints.find? endpointId).map fun row =>
        (lastEnabled? endpointId rivals w).getD row.enabled := by
  induction rivals generalizing w with
  | nil => rfl
  | cons r rest ih =>
      rw [Rival.runAll, List.foldl_cons]
      refine (ih (r.run w)).trans ?_
      have hfirst : ((r.run w).db.endpoints.find? endpointId).map
          EndpointRow.enabled = _ := r.find?_run w
      cases hrow : w.db.endpoints.find? endpointId with
      | none =>
          rw [hrow, Option.map_none, Option.map_eq_none_iff] at hfirst
          rw [hfirst]
          rfl
      | some row =>
          rw [hrow, Option.map_some, Option.map_eq_some_iff] at hfirst
          obtain ⟨row', hrow', henabled⟩ := hfirst
          rw [hrow', Option.map_some, Option.map_some, henabled, lastEnabled?]
          cases lastEnabled? endpointId rest (r.run w) with
          | none => rfl
          | some b => rfl

/-- A rival that works is a turn of every board. -/
theorem Rival.Working.turn {w : World} {r : Rival} (h : r.Working w) :
    Streak.Turn (fun _ => False) (w.db.board endpointId)
      ((r.run w).db.board endpointId) (r.records endpointId w) := by
  cases r with
  | patch channelId id body now =>
      refine turn_same (board_congr fun d => ?_) rfl fun _ => not_false
      exact congrArg (Table.find? · d) (tables_updateEndpoint w.db
        channelId id (body.toPatch now)).2.1
  | complete input =>
      simp only [run, records, outcomeNotes]
      by_cases hrec : Recordable w.db input
      · obtain ⟨row, hrow⟩ := Option.isSome_iff_exists.mp hrec.1
        rw [if_pos hrec, hrow, board_completeDelivery hrec hrow]
        exact turn_complete input hrow (h row hrow)
      · rw [if_neg hrec]
        exact turn_same (congrArg (Database.board · endpointId)
          (completeDelivery_of_not_recordable hrec).2) rfl fun _ => not_false

/-- Nothing leaves a board while workers complete live Deliveries. -/
theorem shows_runAll {rivals : List Rival} {w : World}
    (h : AllWorking rivals w) {m : Streak.Mark Instant} :
    ((Rival.runAll rivals w).db.board endpointId).Shows m ↔
      (w.db.board endpointId).Shows m ∨
        m ∈ recordedBy endpointId rivals w := by
  induction rivals generalizing w with
  | nil => simp [Rival.runAll, recordedBy]
  | cons r rest ih =>
      rw [recordedBy, List.mem_append, ← or_assoc,
        ← h.1.turn.shows_iff fun _ => not_false]
      exact ih h.2

theorem AllWorking.append {first second : List Rival} {w : World}
    (hfirst : AllWorking first w)
    (hsecond : AllWorking second (Rival.runAll first w)) :
    AllWorking (first ++ second) w := by
  induction first generalizing w with
  | nil => exact hsecond
  | cons r rest ih => exact ⟨hfirst.1, ih hfirst.2 hsecond⟩

end Rivals

/-! ## What the call knows -/

/-- The call that stamps comes after every other. -/
theorem Stamps.mem_tail {endpointId : Uuid} {now : Instant}
    {m head : Made Effects Choice World} {p : Prop} [Decidable p]
    {rest : List (Made Effects Choice World)}
    (h : Stamps endpointId now m) (hm : m ∈ head :: if p then rest else [])
    (hhead : head.call ≠ .query (.stampAutoDisabled endpointId now)) :
    p ∧ m ∈ rest := by
  rcases List.mem_cons.mp hm with rfl | hm
  · exact absurd h.1 hhead
  · split at hm
    next hp => exact ⟨hp, hm⟩
    · cases hm

namespace DecisionRace

variable {race : DecisionRace} {endpointId : Uuid} {ms : ℕ} {now : Instant}

/-- What the statements of a call that gets to the stamp have found. -/
structure Decided (race : DecisionRace) (endpointId : Uuid) (ms : ℕ)
    (now start : Instant) : Prop where
  enabled : ∃ row,
    (race.found 0).db.endpoints.find? endpointId = some row ∧
      row.enabled = true
  start : selectStreakStart (race.found 2).db endpointId
    (selectLastSuccess (race.found 1).db endpointId) = some start
  made : race.made endpointId ms now =
    [⟨.query (.selectEndpointEnablement endpointId), race.choices 0,
        race.found 0⟩,
      ⟨.query (.selectLastSuccess endpointId), race.choices 1, race.found 1⟩,
      ⟨.query (.selectStreakStart endpointId
          (selectLastSuccess (race.found 1).db endpointId)),
        race.choices 2, race.found 2⟩,
      ⟨.query (.stampAutoDisabled endpointId now), race.choices 3,
        race.found 3⟩]

/-- The calls of the rest of a program that has issued `i` reads. -/
def rest (race : DecisionRace) (i : ℕ) (p : Action Bool) :
    List (Made Effects Choice World) :=
  p.callsAmid perform (fun i => Rival.runAll (race.rivals i)) race.choices i
    (match i with
      | 0 => race.world
      | i + 1 => race.found i)

/-- A read is issued, and answered from what it finds or rejected. -/
theorem rest_read {q : Query} (hread : ∀ db, (q.run db).2 = db) (i : ℕ)
    {result : q.Result} (hresult : (q.run (race.found i).db).1 = .ok result)
    (f : q.Result → Action Bool) :
    race.rest i (query q >>= f) = ⟨.query q, race.choices i, race.found i⟩ ::
      if (race.choices i).fault = none then race.rest (i + 1) (f result)
      else [] := by
  obtain ⟨k, hk, hok, herror⟩ : ∃ k, query q = .call (.query q) k ∧
      (∀ result, k (.ok result) = .done result) ∧
      ∀ e, k (.error e) = .fail (.database e) :=
    ⟨_, rfl, fun _ => rfl, fun _ => rfl⟩
  have hcalls : race.rest i (query q >>= f) =
      ⟨.query q, race.choices i, race.found i⟩ ::
        (k (perform (race.choices i) (.query q) (race.found i)).1 >>=
          f).callsAmid perform (fun i => Rival.runAll (race.rivals i))
            race.choices (i + 1)
            (perform (race.choices i) (.query q) (race.found i)).2 := by
    rw [hk]
    cases i <;> rfl
  rw [hcalls]
  rcases perform_read (x := race.choices i) (hread (race.found i).db) with
    ⟨hx, hfault⟩ | ⟨e, hx, hfault⟩
  · rw [hx, hresult, hok, if_pos hfault]
    rfl
  · rw [hx, herror, if_neg hfault]
    rfl

theorem rest_stamp (i : ℕ) :
    race.rest i (query (.stampAutoDisabled endpointId now)) =
      [⟨.query (.stampAutoDisabled endpointId now), race.choices i,
        race.found i⟩] := by
  simp only [rest, query, Program.callsAmid]
  generalize perform (race.choices i) _ _ = answer
  rcases answer with ⟨_ | _, w⟩ <;> cases i <;> rfl

theorem Stamped.decided (h : race.Stamped endpointId ms now) :
    ∃ start, Decided race endpointId ms now start := by
  obtain ⟨m, hm, hstamps⟩ := h
  have hmade : race.made endpointId ms now =
      race.rest 0 (maybeAutoDisableEndpoint endpointId ms now) := rfl
  rw [maybeAutoDisableEndpoint, rest_read (fun _ => rfl) 0 rfl] at hmade
  obtain ⟨hanswered, hm⟩ := hstamps.mem_tail (hmade ▸ hm) (by simp)
  rw [if_pos hanswered] at hmade
  cases hrow : (race.found 0).db.endpoints.find? endpointId with
  | none =>
      simp only [selectEndpointEnablement, hrow, Option.map_none] at hm
      cases hm
  | some row =>
      simp only [selectEndpointEnablement, hrow, Option.map_some] at hm hmade
      split at hm
      · cases hm
      next henabled =>
        rw [if_neg henabled, rest_read (fun _ => rfl) 1 rfl] at hmade
        rw [rest_read (fun _ => rfl) 1 rfl] at hm
        obtain ⟨hanswered, hm⟩ := hstamps.mem_tail hm (by simp)
        rw [if_pos hanswered, rest_read (fun _ => rfl) 2 rfl] at hmade
        rw [rest_read (fun _ => rfl) 2 rfl] at hm
        obtain ⟨hanswered, hm⟩ := hstamps.mem_tail hm (by simp)
        rw [if_pos hanswered] at hmade
        cases hstart : selectStreakStart (race.found 2).db endpointId
            (selectLastSuccess (race.found 1).db endpointId) with
        | none =>
            simp only [hstart] at hm
            cases hm
        | some start =>
            simp only [hstart] at hm hmade
            split at hm
            · cases hm
            next hspan =>
              rw [if_neg hspan] at hmade
              refine ⟨start, ⟨row, hrow, ?_⟩, hstart, ?_⟩
              · simpa using fun h => henabled (Or.inr h)
              · rw [hmade, rest_stamp]

/-- The one statement that stamps finds the world after all rivals. -/
theorem Decided.found_of_stamps {start : Instant}
    (h : Decided race endpointId ms now start)
    {m : Made Effects Choice World} (hm : m ∈ race.made endpointId ms now)
    (hstamps : Stamps endpointId now m) : m.found = race.found 3 := by
  rw [h.made] at hm
  have hcall := hstamps.1
  simp only [List.mem_cons, List.not_mem_nil, or_false] at hm
  rcases hm with rfl | rfl | rfl | rfl
  · cases hcall
  · cases hcall
  · cases hcall
  · rfl

/-- The start that the call computes is the one it has decided on. -/
theorem Decided.eq_start {start : Instant}
    (h : Decided race endpointId ms now start)
    {m : Made Effects Choice World} (hm : m ∈ race.made endpointId ms now)
    {last : Option Instant} {s : Instant}
    (hcall : m.call = .query (.selectStreakStart endpointId last))
    (hs : selectStreakStart m.found.db endpointId last = some s) :
    s = start := by
  rw [h.made] at hm
  simp only [List.mem_cons, List.not_mem_nil, or_false] at hm
  rcases hm with rfl | rfl | rfl | rfl
  · cases hcall
  · cases hcall
  · cases hcall
    exact Option.some.inj (hs.symm.trans h.start)
  · cases hcall

/-- What is stamped is still true of the world that the stamp finds. -/
theorem Decided.stillTrue_iff {start : Instant}
    (h : Decided race endpointId ms now start)
    (hstamped : race.Stamped endpointId ms now) :
    race.StillTrue endpointId ms now ↔
      (∃ row, (race.found 3).db.endpoints.find? endpointId = some row ∧
        row.enabled = true) ∧
      ∀ u, ((race.found 3).db.board endpointId).Shows ⟨true, u⟩ →
        u < start := by
  constructor
  · intro htrue
    obtain ⟨m, hm, hstamps⟩ := hstamped
    obtain ⟨henabled, hstreak⟩ := htrue m hm hstamps
    rw [h.found_of_stamps hm hstamps] at henabled hstreak
    refine ⟨henabled, hstreak ⟨.query (.selectStreakStart endpointId _),
      race.choices 2, race.found 2⟩ ?_ _ start rfl h.start⟩
    rw [h.made]
    simp
  · rintro ⟨henabled, hstreak⟩ m hm hstamps
    rw [h.found_of_stamps hm hstamps]
    refine ⟨henabled, fun m' hm' last s hcall hs => ?_⟩
    rw [h.eq_start hm' hcall hs]
    exact hstreak

/-- The Endpoint is still enabled unless a PATCH has switched it off. -/
theorem Decided.enabled_iff {start : Instant}
    (h : Decided race endpointId ms now start) :
    (∃ row, (race.found 3).db.endpoints.find? endpointId = some row ∧
      row.enabled = true) ↔
    lastEnabled? endpointId
      (race.rivals 1 ++ (race.rivals 2 ++ race.rivals 3)) (race.found 0) ≠
        some false := by
  obtain ⟨row, hrow, henabled⟩ := h.enabled
  have hworld : race.found 3 = Rival.runAll
      (race.rivals 1 ++ (race.rivals 2 ++ race.rivals 3)) (race.found 0) := by
    rw [Rival.runAll_append, Rival.runAll_append]
    rfl
  have hfind : ((Rival.runAll _ _).db.endpoints.find? endpointId).map
      EndpointRow.enabled = _ := find?_runAll
    (race.rivals 1 ++ (race.rivals 2 ++ race.rivals 3)) (race.found 0)
  rw [← hworld, hrow, Option.map_some, henabled,
    Option.map_eq_some_iff] at hfind
  obtain ⟨row', hrow', hsame⟩ := hfind
  rw [hrow']
  simp only [Option.some.injEq, exists_eq_left', hsame]
  cases lastEnabled? endpointId _ (race.found 0) with
  | none => simp
  | some b => cases b <;> simp

/-- The streak is still unbroken unless a late success has been recorded since
the last one was read. -/
theorem Decided.unbroken_iff {start : Instant}
    (h : Decided race endpointId ms now start) (hworking : race.Working) :
    (∀ u, ((race.found 3).db.board endpointId).Shows ⟨true, u⟩ → u < start) ↔
    ∀ u, ⟨true, u⟩ ∈ recordedBy endpointId
        (race.rivals 2 ++ race.rivals 3) (race.found 1) →
      ∀ s, ((race.found 2).db.board endpointId).Shows ⟨false, s⟩ →
        (∀ v, ((race.found 1).db.board endpointId).Shows ⟨true, v⟩ → v < s) →
          u < s := by
  have hworld : race.found 3 =
      Rival.runAll (race.rivals 2 ++ race.rivals 3) (race.found 1) :=
    (Rival.runAll_append _ _ _).symm
  have hshows (u : Instant) : ((Rival.runAll (race.rivals 2 ++ race.rivals 3)
        (race.found 1)).db.board endpointId).Shows ⟨true, u⟩ ↔ _ :=
    shows_runAll ((hworking 1).append (hworking 2))
  obtain ⟨⟨hstart, hafter⟩, hleast⟩ :=
    selectStreakStart_eq_some_iff_isLeast.mp h.start
  rw [hworld]
  constructor
  · intro hunbroken u hu s hs hlast
    exact lt_of_lt_of_le (hunbroken u ((hshows u).mpr (Or.inr hu)))
      (hleast ⟨hs, hlast⟩)
  · intro hunbroken u hu
    rcases (hshows u).mp hu with hold | hnew
    · exact hafter u hold
    · exact hunbroken u hnew start hstart hafter

/-- A call that stamps its Endpoint is right to do so if and only if it has not
been disturbed. -/
theorem stillTrue_iff_undisturbed (hworking : race.Working)
    (h : race.Stamped endpointId ms now) :
    race.StillTrue endpointId ms now ↔ race.Undisturbed endpointId := by
  obtain ⟨start, hdecided⟩ := h.decided
  rw [hdecided.stillTrue_iff h, hdecided.enabled_iff,
    hdecided.unbroken_iff hworking]
  exact ⟨fun h => ⟨h.1, h.2⟩, fun h => ⟨h.enabled, h.unbroken⟩⟩

end DecisionRace

/-! Two races that the call loses -/

/-- A Delivery was rejected at 200, another one has just been created. -/
def failingWorld : World :=
  (onward (fun _ => none) trafficWorld
    (received 10 0 :: received 11 100 :: attempted 0 10 404 200)).state

/-- The operator switches the Endpoint off after the first read. -/
def switchedOff : DecisionRace where
  world := failingWorld
  rivals i := if i = 1 then
    [.patch 0 1 { enabled := some false } 1250] else []
  choices _ := {}

/-- The Endpoint accepts the other Delivery after the second read. -/
def deliveredMeanwhile : DecisionRace where
  world := failingWorld
  rivals i := if i = 2 then
    [.complete ⟨11, 1, some 200, 5, none, .succeeded, 1290⟩] else []
  choices _ := {}

/-- Both are stamped nevertheless. -/
theorem not_stillTrue_switchedOff :
    (switchedOff.Working ∧ switchedOff.Stamped 1 1000 1300 ∧
      ¬ switchedOff.StillTrue 1 1000 1300) ∧
    deliveredMeanwhile.Working ∧ deliveredMeanwhile.Stamped 1 1000 1300 ∧
      ¬ deliveredMeanwhile.StillTrue 1 1000 1300 := by
  have hoff : switchedOff.Stamped 1 1000 1300 := by decide
  have hmeanwhile : deliveredMeanwhile.Stamped 1 1000 1300 := by decide
  refine ⟨⟨?_, hoff, fun h => ?_⟩, ?_, hmeanwhile, fun h => ?_⟩
  · rintro (_ | i)
    · exact ⟨trivial, trivial⟩
    · exact trivial
  · obtain ⟨start, hdecided⟩ := hoff.decided
    obtain ⟨row, hrow, henabled⟩ := ((hdecided.stillTrue_iff hoff).mp h).1
    have hrow' : ((switchedOff.found 3).db.endpoints.find? 1).map
        EndpointRow.enabled = some false := by decide
    rw [hrow, Option.map_some, henabled] at hrow'
    cases hrow'
  · rintro (_ | _ | i)
    · exact trivial
    · refine ⟨fun row hrow => ?_, trivial⟩
      have hrow' : ((deliveredMeanwhile.found 1).db.delivery? 11).map
          DeliveryRow.status = some .pending := by decide
      rw [hrow, Option.map_some] at hrow'
      exact Or.inl (Option.some.inj hrow')
    · exact trivial
  · obtain ⟨start, hdecided⟩ := hmeanwhile.decided
    have hstart : selectStreakStart (deliveredMeanwhile.found 2).db 1
        (selectLastSuccess (deliveredMeanwhile.found 1).db 1) = some 200 := by
      decide
    rw [hdecided.start] at hstart
    have hlate := ((hdecided.stillTrue_iff hmeanwhile).mp h).2 1290
      ⟨11, by decide⟩
    rw [Option.some.inj hstart] at hlate
    exact absurd hlate (by decide)

/-- A PATCH between the reads that leaves the Endpoint enabled. -/
def patchedMeanwhile : DecisionRace where
  world := failingWorld
  rivals i := if i = 2 then
    [.patch 0 1 { enabled := some false } 1250,
      .patch 0 1 { enabled := some true } 1260] else []
  choices _ := {}

theorem stillTrue_patchedMeanwhile :
    patchedMeanwhile.Stamped 1 1000 1300 ∧
      patchedMeanwhile.StillTrue 1 1000 1300 := by
  have hworking : patchedMeanwhile.Working := by
    rintro (_ | _ | i)
    · exact trivial
    · exact ⟨trivial, trivial, trivial⟩
    · exact trivial
  have hstamped : patchedMeanwhile.Stamped 1 1000 1300 := by decide
  refine ⟨hstamped,
    (DecisionRace.stillTrue_iff_undisturbed hworking hstamped).mpr ?_⟩
  constructor
  · decide
  · intro u hu
    have hnone : recordedBy 1 (patchedMeanwhile.rivals 2 ++
        patchedMeanwhile.rivals 3) (patchedMeanwhile.found 1) = [] := by
      decide
    rw [hnone] at hu
    cases hu

end WebhookBroadcast
