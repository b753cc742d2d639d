import WebhookBroadcast.Endpoint.AutoDisable

/-!
# Streaks that are not overlooked

A run that records a terminal failure goes on to decide about the Endpoint.
Whether it then finds the streak that the chronicle shows depends on the first
failure after the last success: it is still on the board unless an operator
retry has taken it off.
-/

namespace WebhookBroadcast

open Interaction Timeline Relational

/-! ## What follows a recorded failure -/

/-- An earlier call of the run with this index recorded a terminal failure of
the Endpoint, and was acknowledged. -/
def HasRecordedFailure (dateParse : String → Option Instant) (w : World)
    (before : TrafficHistory) (i : ℕ) (endpointId : Uuid) (t : Instant) :
    Prop :=
  ∃ first y rest, before = first ++ .step i y :: rest ∧ y.fault = none ∧
    .outcome endpointId ⟨false, t⟩ ∈
      notes (onward dateParse w first) (.step i y)

/-- The event ends the run with this index, and without an error. -/
def ReturnsAt (dateParse : String → Option Instant) (P : TrafficPool) (i : ℕ)
    (x : Choice) (task : Task) : Prop :=
  ∃ run, P.runs[i]? = some run ∧ run.task = task ∧
    run.program.result? = none ∧
    (((trafficSystem dateParse).apply P (.step i x)).runs[i]?.bind
      fun run => run.program.result?) = some (.ok ())

section Recorded

variable {dateParse : String → Option Instant} {w : World} {created : List Uuid}

/-- Only a carried out `completeDelivery` writes down an outcome. -/
theorem eq_of_outcome_mem_callNotes {ms : ℕ} {x : Choice} {c : Call}
    {endpointId : Uuid} {m : Streak.Mark Instant}
    (h : .outcome endpointId m ∈ callNotes ms x w c) :
    ∃ input row, c = .query (.completeDelivery input) ∧
      Recordable w.db input ∧ w.db.delivery? input.deliveryId = some row ∧
      row.endpointId = endpointId ∧
      (input.complete row).mark? endpointId = some m := by
  cases c with
  | query q =>
      cases q with
      | completeDelivery input =>
          simp only [callNotes] at h
          split at h
          · rw [outcomeNotes] at h
            split at h
            next hrec =>
              cases hrow : w.db.delivery? input.deliveryId with
              | none =>
                  rw [hrow] at h
                  cases h
              | some row =>
                  rw [hrow, List.mem_map] at h
                  obtain ⟨m', hm', heq⟩ := h
                  obtain ⟨rfl, rfl⟩ := Note.outcome.inj heq
                  exact ⟨input, row, rfl, hrec, hrow, rfl,
                    Option.mem_toList.mp hm'⟩
            · cases h
          · cases h
      | stampAutoDisabled id now =>
          simp only [callNotes] at h
          split at h
          · rw [List.mem_singleton] at h
            cases h
          · cases h
      | _ => cases h
  | _ => cases h

theorem Prelude.disableOnFailure_of_complete {endpointId : Uuid} {ms : ℕ}
    {input : CompleteDeliveryInput} {k : Except DbError Unit → Action Unit}
    (h : Prelude endpointId ms (.call (.query (.completeDelivery input)) k))
    (hfails : input.status.Fails) :
    k (.ok ()) = disableOnFailure endpointId ms input.at_ := by
  have hrest := h.1
  rwa [if_pos hfails] at hrest

/-- A run that is about to complete its Delivery has not turned to its Endpoint
yet. -/
theorem Aimed.prelude_of_complete {run : Run Effects Thrown Unit Task}
    (h : Aimed dateParse w run) {input : CompleteDeliveryInput}
    {k : Except DbError Unit → Action Unit}
    (hp : run.program = .call (.query (.completeDelivery input)) k)
    {row : DeliveryRow}
    (hrow : w.db.delivery? run.task.deliveryId = some row) :
    Prelude row.endpointId run.task.deps.endpointAutoDisableAfterMs
      run.program := by
  rcases h with hunread | ⟨id, haim, hprelude | ⟨now, hdeciding⟩⟩
  · rw [hp] at hunread
    cases hunread
  · rw [haim row hrow]
    exact hprelude
  · generalize hq : run.program = p at hdeciding
    rw [hp] at hq
    cases hdeciding with
    | begins =>
        rw [disableOnFailure_eq] at hq
        cases hq
    | enabled => cases hq
    | succeeded => cases hq
    | spans _ _ => cases hq
    | ended hended =>
        rw [← hq] at hended
        cases hended

/-- The call that records a terminal failure is followed by the decision. -/
theorem decidingAt_of_outcome {P : TrafficPool}
    (horderly : Orderly dateParse created P)
    (haimed : ∀ run ∈ P.runs, Aimed dateParse P.state run) {i : ℕ} {x : Choice}
    (hx : x.fault = none) {endpointId : Uuid} {t : Instant}
    (hnote : .outcome endpointId ⟨false, t⟩ ∈ notes P (.step i x)) :
    DecidingAt ((trafficSystem dateParse).apply P (.step i x)) i endpointId
      t := by
  cases hi : P.runs[i]? with
  | none =>
      rw [notes, hi] at hnote
      cases hnote
  | some run =>
      have hrun := List.mem_of_getElem? hi
      have hlt : i < P.runs.length := (List.getElem?_eq_some_iff.mp hi).1
      rw [System.apply_step_some _ x hi]
      refine ⟨_, List.getElem?_set_self hlt, ?_⟩
      cases hp : run.program with
      | done a => simp [notes, hi, hp, Program.next?] at hnote
      | fail e => simp [notes, hi, hp, Program.next?] at hnote
      | call c k =>
          have hcall : .outcome endpointId ⟨false, t⟩ ∈ callNotes
              run.task.deps.endpointAutoDisableAfterMs x P.state c := by
            simpa [notes, hi, hp, Program.next?] using hnote
          obtain ⟨input, row, rfl, hrec, hrow, rfl, hmark⟩ :=
            eq_of_outcome_mem_callNotes hcall
          obtain ⟨-, hfails, rfl⟩ :=
            DeliveryRow.mark?_eq_failure_iff.mp hmark
          have hown : input.deliveryId = run.task.deliveryId := by
            have hshape := (horderly.runs run hrun).shape
            rw [hp] at hshape
            exact hshape.1.1
          have hprelude := (haimed run hrun).prelude_of_complete hp
            (hown ▸ hrow)
          rw [hp] at hprelude
          have hrest := hprelude.disableOnFailure_of_complete hfails
          have hanswer : (perform x (.query (.completeDelivery input))
              P.state).1 = .ok () := by
            rw [perform_query_of_none hx]
            exact completeDelivery_result_of_recordable hrec
          rw [Program.advance]
          change Deciding _ _ _ _ (k (perform x _ P.state).1)
          rw [hanswer, hrest]
          exact .begins

theorem DecidingAt.exec {P : TrafficPool} {i : ℕ} {endpointId : Uuid}
    {t : Instant} (h : DecidingAt P i endpointId t) {events : TrafficHistory}
    (huninterrupted :
      (trafficSystem dateParse).Throughout Uninterrupted P events) :
    DecidingAt ((trafficSystem dateParse).exec P events) i endpointId t := by
  induction events generalizing P with
  | nil => exact h
  | cons e events ih => exact ih (h.apply huninterrupted.1) huninterrupted.2

/-- A run that has recorded a terminal failure is deciding or has ended. -/
theorem Regular.decidingAt {before : TrafficHistory}
    (h : Regular dateParse w before) {i : ℕ} {endpointId : Uuid} {t : Instant}
    (hfailure : HasRecordedFailure dateParse w before i endpointId t) :
    DecidingAt (onward dateParse w before) i endpointId t := by
  obtain ⟨first, y, rest, rfl, hy, hnote⟩ := hfailure
  have hfirst := h.of_append
  have huninterrupted :=
    ((System.throughout_append _).mp h.uninterrupted).2.2
  have hexec : onward dateParse w (first ++ .step i y :: rest) =
      (trafficSystem dateParse).exec ((trafficSystem dateParse).apply
        (onward dateParse w first) (.step i y)) rest :=
    System.exec_append _ _ _ _
  rw [hexec]
  exact (decidingAt_of_outcome hfirst.orderly hfirst.aimed hy hnote).exec
    huninterrupted

end Recorded

/-! ## Completeness -/

/-- The retry of a dead-lettered Delivery leaves the streak of its Endpoint as
long as it is: there is a success that is no earlier, or another failure after
the last success that is no later. -/
def Database.SparesStart (db : Database) (deliveryId : Uuid) : Prop :=
  ∀ x ∈ db.deliveries.rows, x.id = deliveryId → x.status = .deadLettered →
    (∃ y ∈ db.deliveries.rows, y.endpointId = x.endpointId ∧
      y.status = .succeeded ∧ x.updatedAt ≤ y.updatedAt) ∨
    ∃ y ∈ db.deliveries.rows, y.id ≠ deliveryId ∧
      y.endpointId = x.endpointId ∧ y.status.Fails ∧
      y.updatedAt ≤ x.updatedAt ∧
      ∀ z ∈ db.deliveries.rows, z.endpointId = x.endpointId →
        z.status = .succeeded → z.updatedAt < y.updatedAt

instance (db : Database) (deliveryId : Uuid) :
    Decidable (db.SparesStart deliveryId) :=
  inferInstanceAs (Decidable (∀ x ∈ _, _ → _ → (∃ y ∈ _, _ ∧ _ ∧ _) ∨
    ∃ y ∈ _, _ ∧ _ ∧ _ ∧ _ ∧ ∀ z ∈ _, _ → _ → _))

/-- Nothing is swept, and no retry shortens a streak. -/
def KeepsStreaks (P : TrafficPool) : TrafficEvent → Prop
  | .background (.sweep _) => False
  | .background (.retry deliveryId _) => P.state.db.SparesStart deliveryId
  | _ => True

instance (P : TrafficPool) (e : TrafficEvent) : Decidable (KeepsStreaks P e) :=
  match e with
  | .background (.sweep _) => isFalse id
  | .background (.retry deliveryId _) =>
      inferInstanceAs (Decidable (P.state.db.SparesStart deliveryId))
  | .background (.fanOut _ _) => isTrue trivial
  | .background (.patch _ _ _ _) => isTrue trivial
  | .start _ => isTrue trivial
  | .step _ _ => isTrue trivial

/-- No Endpoint has a success and a terminal failure with the same time. -/
def Untied (dateParse : String → Option Instant) (w : World)
    (history : TrafficHistory) : Prop :=
  ∀ endpointId u, ⟨true, u⟩ ∈ recorded dateParse w history endpointId →
    ⟨false, u⟩ ∉ recorded dateParse w history endpointId

/-- Every run that records a terminal failure of an enabled Endpoint leaves it
auto-disabled when the log has a failure that is older than the window and no
success after it. -/
def LeavesDisabled (dateParse : String → Option Instant) (w : World)
    (history : TrafficHistory) : Prop :=
  ∀ before i x after, history = before ++ .step i x :: after →
    ∀ endpointId t task,
      HasRecordedFailure dateParse w before i endpointId t →
      ReturnsAt dateParse (onward dateParse w before) i x task →
      ∀ row, (onward dateParse w before).state.db.endpoints.find?
          endpointId = some row →
        row.enabled = true → row.autoDisabledAt = none →
        ∀ s, ⟨false, s⟩ ∈ recorded dateParse w before endpointId →
          task.deps.endpointAutoDisableAfterMs ≤ t - s →
          (∀ u, ⟨true, u⟩ ∈ recorded dateParse w before endpointId → u ≤ s) →
          ∃ row', ((trafficSystem dateParse).apply
              (onward dateParse w before) (.step i x)).state.db.endpoints.find?
                endpointId = some row' ∧
            row'.autoDisabledAt ≠ none

section Completeness

variable {dateParse : String → Option Instant} {w : World}

/-- An operator retry that spares the start of a streak is the only way for a
failure to leave the board. -/
theorem keepsStart_of_keepsStreaks {P : TrafficPool} {e : TrafficEvent}
    (h : KeepsStreaks P e) (endpointId : Uuid) :
    (P.state.db.board endpointId).KeepsStart
      fun d => erases P.state.db e d := by
  intro d s hd hds hunbroken
  obtain ⟨x, hx, hxd, hxfind, hxmark⟩ := mem_board hds
  obtain ⟨hxid, -, rfl⟩ := DeliveryRow.mark?_eq_failure_iff.mp hxmark
  cases e with
  | background b =>
      cases b with
      | retry deliveryId updatedAt =>
          have hretried : d = deliveryId ∧ x.status = .deadLettered := by
            simpa [erases, hxfind] using hd
          obtain ⟨hdid, hdead⟩ := hretried
          rcases h x hx (hxd.trans hdid) hdead with
            ⟨y, hy, hyid, hystatus, hle⟩ |
            ⟨y, hy, hyne, hyid, hyfails, hle, hlast⟩
          · have hshown : (P.state.db.board endpointId).Shows
                ⟨true, y.updatedAt⟩ :=
              Database.shows_iff.mpr ⟨y, hy,
                DeliveryRow.mark?_eq_success_iff.mpr
                  ⟨hyid.trans hxid, hystatus, rfl⟩⟩
            exact absurd (hunbroken.2 _ hshown) (not_lt.mpr hle)
          · have hyboard : P.state.db.board endpointId y.id =
                some ⟨false, y.updatedAt⟩ :=
              (Database.board_of_some
                (P.state.db.deliveries.find?_eq_some_iff.mpr ⟨hy, rfl⟩)).trans
                (DeliveryRow.mark?_eq_failure_iff.mpr
                  ⟨hyid.trans hxid, hyfails, rfl⟩)
            refine ⟨y.id, y.updatedAt, by simp [erases, hyne], hyboard, hle,
              ⟨y.id, hyboard⟩, fun u hu => ?_⟩
            obtain ⟨z, hz, hzmark⟩ := Database.shows_iff.mp hu
            obtain ⟨hzid, hzstatus, rfl⟩ :=
              DeliveryRow.mark?_eq_success_iff.mp hzmark
            exact hlast z hz (hzid.trans hxid.symm) hzstatus
      | sweep cutoff => exact h.elim
      | _ => cases hd
  | _ => cases hd

theorem recorded_subset (before after : TrafficHistory) (endpointId : Uuid) :
    recorded dateParse w before endpointId ⊆
      recorded dateParse w (before ++ after) endpointId := by
  intro m hm
  rw [recorded, mem_outcomesOf, chronicle_append, List.mem_append]
  exact Or.inl (mem_outcomesOf.mp hm)

/-- As long as retries spare the starts of streaks, a streak that was recorded
is not overlooked. -/
theorem leavesDisabled_of_keepsStreaks {history : TrafficHistory}
    (h : Regular dateParse w history)
    (hkeeps : (trafficSystem dateParse).Throughout KeepsStreaks
      (Pool.idle w) history)
    (huntied : Untied dateParse w history) :
    LeavesDisabled dateParse w history := by
  rintro before i x after rfl endpointId t task hfailure
    ⟨run, hi, rfl, hrunning, hreturns⟩ row hrow henabled hauto s hs hspan hlast
  have hbefore := h.of_append
  have hcomplete : Streak.Complete
      ((onward dateParse w before).state.db.board endpointId)
      (recorded dateParse w before endpointId) :=
    hbefore.board_induction .blank
      (fun hφ hR hturn hclock => hR.turn hturn hclock
        (keepsStart_of_keepsStreaks hφ endpointId))
      ((System.throughout_append _).mp hkeeps).1
  have hbroken : ∀ u, ⟨true, u⟩ ∈ recorded dateParse w before endpointId →
      u < s := by
    intro u hu
    refine lt_of_le_of_ne (hlast u hu) ?_
    rintro rfl
    exact huntied endpointId u (recorded_subset _ _ _ hu)
      (recorded_subset _ _ _ hs)
  obtain ⟨start, hle, hunbroken⟩ := hcomplete.started s hs hbroken
  obtain ⟨run', hi', hdeciding⟩ := hbefore.decidingAt hfailure
  rw [hi] at hi'
  cases hi'
  rw [System.apply_step_some _ x hi] at hreturns ⊢
  have hlt : i < (onward dateParse w before).runs.length :=
    (List.getElem?_eq_some_iff.mp hi).1
  rw [List.getElem?_set_self hlt] at hreturns
  obtain ⟨row', hrow', hstamped⟩ := hdeciding.disables hrunning hreturns hrow
    henabled hauto hunbroken (hspan.trans (sub_le_sub_left hle t))
  exact ⟨row', hrow', by simp [hstamped]⟩

end Completeness

/-! A retry of the first dead-lettered Delivery of a streak -/

/-- A dead-lettered Delivery is retried and dead-lettered again a second after
the first time. -/
def retriedStart : TrafficHistory :=
  received 10 0 :: attempted 0 10 500 200 ++
    .background (.retry 10 300) :: attempted 1 10 500 1300

set_option maxRecDepth 4000 in
theorem regular_retriedStart :
    Regular (fun _ => none) trafficWorld retriedStart where
  blank := rfl
  fresh := by decide
  uninterrupted := by decide
  clock := by decide

/-- The retry has pushed back the start of the streak, and the Endpoint stays
enabled. -/
theorem not_leavesDisabled_retriedStart :
    Regular (fun _ => none) trafficWorld retriedStart ∧
      (∀ cutoff, .background (.sweep cutoff) ∉ retriedStart) ∧
      Untied (fun _ => none) trafficWorld retriedStart ∧
      ¬ LeavesDisabled (fun _ => none) trafficWorld retriedStart := by
  have hrecorded : chronicle (fun _ => none) (Pool.idle trafficWorld)
      retriedStart = [.outcome 1 ⟨false, 200⟩, .outcome 1 ⟨false, 1300⟩] := by
    decide
  refine ⟨regular_retriedStart, ?_, ?_, fun h => ?_⟩
  · simp [retriedStart, received, attempted]
  · intro endpointId u hu
    rw [recorded, mem_outcomesOf, hrecorded] at hu
    simp at hu
  · let x : Choice := { time := 1300, reply := .response 500 none }
    have hsplit : retriedStart = retriedStart.take 28 ++
        .step 1 x :: retriedStart.drop 29 := rfl
    have hfailure : HasRecordedFailure (fun _ => none) trafficWorld
        (retriedStart.take 28) 1 1 1300 :=
      ⟨retriedStart.take 25, x, [.step 1 x, .step 1 x], rfl, rfl, by decide⟩
    have hbefore : recorded (fun _ => none) trafficWorld
        (retriedStart.take 28) 1 = [⟨false, 200⟩, ⟨false, 1300⟩] := by decide
    obtain ⟨row', hrow', hstamped⟩ := h _ _ _ _ hsplit 1 1300 _ hfailure
      ⟨_, rfl, rfl, by decide, by decide⟩ _ rfl (by decide) (by decide) 200
      (by decide) (by decide) fun u hu => by
        rw [hbefore] at hu
        simp at hu
    have hafter : (((trafficSystem fun _ => none).apply
        (onward (fun _ => none) trafficWorld (retriedStart.take 28))
        (.step 1 x)).state.db.endpoints.find? 1).bind
          EndpointRow.autoDisabledAt = none := by decide
    rw [hrow'] at hafter
    exact hstamped hafter

/-- The retried Delivery is not the first failure of the streak. -/
def retriedLater : TrafficHistory :=
  received 10 0 :: attempted 0 10 404 200 ++
    received 11 250 :: attempted 1 11 500 300 ++
    .background (.retry 11 400) :: attempted 2 11 500 1300

set_option maxRecDepth 4000 in
theorem leavesDisabled_retriedLater :
    .disabled 1 1000 1300 ∈ chronicle (fun _ => none) (Pool.idle trafficWorld)
      retriedLater ∧
    LeavesDisabled (fun _ => none) trafficWorld retriedLater := by
  have hchronicle : chronicle (fun _ => none) (Pool.idle trafficWorld)
      retriedLater = [.outcome 1 ⟨false, 200⟩, .outcome 1 ⟨false, 300⟩,
        .outcome 1 ⟨false, 1300⟩, .disabled 1 1000 1300] := by
    decide
  refine ⟨by simp [hchronicle], leavesDisabled_of_keepsStreaks
    { blank := rfl
      fresh := by decide
      uninterrupted := by decide
      clock := by decide } (by decide) ?_⟩
  intro endpointId u hu
  rw [recorded, mem_outcomesOf, hchronicle] at hu
  simp at hu

end WebhookBroadcast
