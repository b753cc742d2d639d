import WebhookBroadcast.Endpoint.AutoDisable

/-!
# Re-enabled Endpoints

A PATCH with `enabled: true` ends an auto-disable and leaves the Deliveries as
they are.  The streak for which the Endpoint was disabled goes on until a
success breaks it, so the next terminal failure disables the Endpoint again, no
matter how recently it was re-enabled.  Every other auto-disable after the PATCH
takes a whole window.
-/

namespace WebhookBroadcast

open Interaction Relational

/-- The operator re-enables an auto-disabled Endpoint at `r`, and at `t` it is
auto-disabled once more. -/
structure DisabledAgain (dateParse : String → Option Instant) (w : World)
    (before : TrafficHistory) (channelId endpointId : Uuid)
    (body : EndpointUpdate) (r : Instant) (between : TrafficHistory)
    (e : TrafficEvent) (ms : ℕ) (t : Instant) : Prop where
  enabled : body.enabled = some true
  autoDisabled : ∃ row, (onward dateParse w before).state.db.endpoints.find?
    endpointId = some row ∧ row.autoDisabledAt ≠ none
  patched : .patched endpointId body r ∈ notes (onward dateParse w before)
    (.background (.patch channelId endpointId body r))
  disabled : .disabled endpointId ms t ∈ notes (onward dateParse w
    (before ++ .background (.patch channelId endpointId body r) :: between)) e

/-- Every re-enabled Endpoint of the history has a full window. -/
def GivesFullWindow (dateParse : String → Option Instant) (w : World)
    (history : TrafficHistory) : Prop :=
  ∀ before channelId endpointId body r between e after ms t,
    history = before ++
      .background (.patch channelId endpointId body r) :: between ++
        e :: after →
    DisabledAgain dateParse w before channelId endpointId body r between e ms
      t →
    ms ≤ t - r

/-- The same, except for a streak that began before the PATCH and that no
success has broken since. -/
def GivesFullWindowAfterSuccess (dateParse : String → Option Instant)
    (w : World) (history : TrafficHistory) : Prop :=
  ∀ before channelId endpointId body r between e after ms t,
    history = before ++
      .background (.patch channelId endpointId body r) :: between ++
        e :: after →
    DisabledAgain dateParse w before channelId endpointId body r between e ms
      t →
    ms ≤ t - r ∨
      ∃ s, ⟨false, s⟩ ∈ recorded dateParse w before endpointId ∧
        ms ≤ t - s ∧
        ∀ u, ⟨true, u⟩ ∈ recorded dateParse w (before ++
          .background (.patch channelId endpointId body r) :: between)
            endpointId → u < s

section Reenabled

variable {dateParse : String → Option Instant} {w : World}
  {history : TrafficHistory}

/-- Without sweeps every recorded success stays on the board. -/
theorem Regular.retains (h : Regular dateParse w history)
    (hsweeps : ∀ cutoff, .background (.sweep cutoff) ∉ history)
    (endpointId : Uuid) :
    Streak.Retains ((onward dateParse w history).state.db.board endpointId)
      (recorded dateParse w history endpointId) := by
  have hnone : ∀ (_ : TrafficPool), ∀ e ∈ history,
      ∀ cutoff, e ≠ .background (.sweep cutoff) := by
    rintro _ e he cutoff rfl
    exact hsweeps cutoff he
  refine h.board_induction (fun u hu => by cases hu)
    (fun {P e} _ _ _ hφ hR hturn _ => ?_)
    ((trafficSystem dateParse).throughout_of_forall hnone _)
  refine hR.turn hturn fun d u hd hdu => ?_
  obtain ⟨x, -, -, hxfind, hxmark⟩ := mem_board hdu
  have hsucceeded := (DeliveryRow.mark?_eq_success_iff.mp hxmark).2.1
  cases e with
  | background b =>
      cases b with
      | retry deliveryId updatedAt =>
          simp [erases, hxfind, hsucceeded] at hd
      | sweep cutoff => exact hφ cutoff rfl
      | _ => cases hd
  | _ => cases hd

/-- The board shows only what the history has recorded. -/
theorem Regular.recorded_of_shows (h : Regular dateParse w history)
    {endpointId : Uuid} {m : Streak.Mark Instant}
    (hm : ((onward dateParse w history).state.db.board endpointId).Shows m) :
    m ∈ recorded dateParse w history endpointId := by
  refine h.board_induction
    (R := fun B log => ∀ m, Streak.Board.Shows B m → m ∈ log)
    (φ := fun _ _ => True)
    (fun m hm => absurd hm (Streak.Board.not_shows_blank m))
    (fun _ hR hturn _ m hm => hturn.mem_log hR hm)
    ((trafficSystem dateParse).throughout_of_forall (fun _ _ _ => trivial) _)
    m hm

/-- What is recorded after an applied PATCH is no earlier than the PATCH. -/
theorem Regular.le_of_recorded_since {before between : TrafficHistory}
    {channelId endpointId : Uuid} {body : EndpointUpdate} {r : Instant}
    (h : Regular dateParse w (before ++
      .background (.patch channelId endpointId body r) :: between))
    (hpatched : .patched endpointId body r ∈ notes (onward dateParse w before)
      (.background (.patch channelId endpointId body r)))
    {id : Uuid} {m : Streak.Mark Instant}
    (hm : m ∈ recorded dateParse w (before ++
      .background (.patch channelId endpointId body r) :: between) id) :
    m ∈ recorded dateParse w before id ∨ r ≤ m.at_ := by
  have hclock := h.clock
  rw [recorded, mem_outcomesOf] at hm
  rw [chronicle_append, List.mem_append] at hm
  rw [chronicle_append, List.filterMap_append] at hclock
  refine hm.imp mem_outcomesOf.mpr fun hsince => ?_
  have hpart := (List.pairwise_append.mp hclock).2.1
  rw [chronicle, List.mem_append] at hsince
  rw [chronicle, List.filterMap_append] at hpart
  rcases hsince with hnow | hlater
  · simp only [notes] at hnow
    split at hnow
    · rw [List.mem_singleton] at hnow
      cases hnow
    · cases hnow
  · exact (List.pairwise_append.mp hpart).2.2 r
      (List.mem_filterMap.mpr ⟨_, hpatched, rfl⟩) m.at_
      (List.mem_filterMap.mpr ⟨_, hlater, rfl⟩)

/-- An Endpoint is auto-disabled within the window after a re-enable only for
the streak that it had before. -/
theorem givesFullWindowAfterSuccess (h : Regular dateParse w history)
    (hsweeps : ∀ cutoff, .background (.sweep cutoff) ∉ history) :
    GivesFullWindowAfterSuccess dateParse w history := by
  rintro before channelId endpointId body r between e after ms t rfl hagain
  have hbefore := h.of_append
  obtain ⟨start, ⟨hstart, -⟩, hspan⟩ :=
    hbefore.streakStart_of_disabled hagain.disabled
  have hretains := hbefore.retains
    (fun cutoff hmem => hsweeps cutoff (List.mem_append_left _ hmem))
    endpointId
  rcases hbefore.le_of_recorded_since hagain.patched
    (hbefore.recorded_of_shows hstart.1) with hold | hnew
  · exact Or.inr ⟨start, hold, hspan,
      fun u hu => hretains.lt_of_unbroken hstart hu⟩
  · exact Or.inl (hspan.trans (sub_le_sub_left hnew t))

end Reenabled

/-! A re-enable in the middle of a streak -/

/-- Two rejections a second apart, a re-enable, and a third rejection. -/
def reenabledMidstreak : TrafficHistory :=
  received 10 0 :: attempted 0 10 404 200 ++
    received 11 1200 :: attempted 1 11 404 1300 ++
    .background (.patch 0 1 { enabled := some true } 1400) ::
      received 12 1450 :: attempted 2 12 404 1500

set_option maxRecDepth 4000 in
theorem regular_reenabledMidstreak :
    Regular (fun _ => none) trafficWorld reenabledMidstreak where
  blank := rfl
  fresh := by decide
  uninterrupted := by decide
  clock := by decide

/-- The first failure after the re-enable disables the Endpoint again, a tenth
of a second later. -/
theorem not_givesFullWindow_reenabledMidstreak :
    Regular (fun _ => none) trafficWorld reenabledMidstreak ∧
      (∀ cutoff, .background (.sweep cutoff) ∉ reenabledMidstreak) ∧
      ¬ GivesFullWindow (fun _ => none) trafficWorld reenabledMidstreak := by
  refine ⟨regular_reenabledMidstreak, ?_, fun h => ?_⟩
  · simp [reenabledMidstreak, received, attempted]
  · have hsplit : reenabledMidstreak = reenabledMidstreak.take 30 ++
        .background (.patch 0 1 { enabled := some true } 1400) ::
          (reenabledMidstreak.drop 31).dropLast ++
        .step 2 { time := 1500, reply := .response 404 none } :: [] := rfl
    have hwindow := h _ _ _ _ _ _ _ _ 1000 1500 hsplit
      { enabled := rfl
        autoDisabled := ⟨_, rfl, by decide⟩
        patched := by decide
        disabled := by decide }
    exact absurd hwindow (by decide)

theorem givesFullWindowAfterSuccess_reenabledMidstreak :
    .disabled 1 1000 1500 ∈ chronicle (fun _ => none) (Pool.idle trafficWorld)
      reenabledMidstreak ∧
    GivesFullWindowAfterSuccess (fun _ => none) trafficWorld
      reenabledMidstreak :=
  ⟨by decide, givesFullWindowAfterSuccess regular_reenabledMidstreak
    (by simp [reenabledMidstreak, received, attempted])⟩

end WebhookBroadcast
