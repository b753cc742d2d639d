import WebhookBroadcast.Endpoint.Chronicle

/-!
# Undisturbed decisions

In a history in which each call of `maybeAutoDisableEndpoint` runs as one step,
a run that is about to disable its Endpoint has read a streak that is still on
the board, and a run that has recorded a terminal failure is still deciding
about the Endpoint of its Delivery.
-/

namespace WebhookBroadcast

open Interaction Timeline Relational

/-- The run with this index is in the middle of `maybeAutoDisableEndpoint`. -/
def midway (P : TrafficPool) (i : ℕ) : Bool :=
  (P.runs[i]?.bind fun run => run.program.next?).any Call.Midway

/-- The run that an event lets make a call. -/
def stepped : TrafficEvent → Option ℕ
  | .start _ => none
  | .step i _ => some i
  | .background _ => none

/-- While a run is in the middle of `maybeAutoDisableEndpoint`, nothing else
happens. -/
def Uninterrupted (P : TrafficPool) (e : TrafficEvent) : Prop :=
  ∀ i < P.runs.length, midway P i = true → stepped e = some i

instance (P : TrafficPool) (e : TrafficEvent) : Decidable (Uninterrupted P e) :=
  inferInstanceAs (Decidable (∀ i < _, _ → _))

theorem not_midway {P : TrafficPool} {e : TrafficEvent}
    (h : Uninterrupted P e) {i : ℕ} {run : Run Effects Thrown Unit Task}
    (hi : P.runs[i]? = some run) (hother : stepped e ≠ some i) :
    ∀ c ∈ run.program.next?, c.Midway = false := by
  intro c hc
  have hlt : i < P.runs.length := (List.getElem?_eq_some_iff.mp hi).1
  by_contra hmidway
  apply hother
  apply h i hlt
  rw [Option.mem_def] at hc
  simpa [midway, hi, hc] using hmidway

/-! ## The Endpoint that a run decides about -/

/-- A run that has read its Delivery is about the Endpoint of that Delivery,
and either has not recorded a terminal failure or is deciding. -/
def Aimed (dateParse : String → Option Instant) (w : World)
    (run : Run Effects Thrown Unit Task) : Prop :=
  run.program =
      processDelivery dateParse run.task.deps run.task.deliveryId ∨
    ∃ endpointId,
      (∀ row, w.db.delivery? run.task.deliveryId = some row →
        row.endpointId = endpointId) ∧
      (Prelude endpointId run.task.deps.endpointAutoDisableAfterMs
          run.program ∨
        ∃ now, Deciding w.db endpointId
          run.task.deps.endpointAutoDisableAfterMs now run.program)

section Aimed

variable {dateParse : String → Option Instant} {created : List Uuid}

theorem prelude_of_ended {endpointId : Uuid} {ms : ℕ} {p : Action Unit}
    (hp : p.result?.isSome) : Prelude endpointId ms p := by
  cases p with
  | done a => trivial
  | fail e => trivial
  | call c k => cases hp

theorem Aimed.of_ended {w : World} {run : Run Effects Thrown Unit Task}
    (hended : run.program.result?.isSome) : Aimed dateParse w run := by
  cases hrow : w.db.delivery? run.task.deliveryId with
  | none =>
      refine Or.inr ⟨0, fun row h => ?_, Or.inl (prelude_of_ended hended)⟩
      rw [hrow] at h
      cases h
  | some row =>
      refine Or.inr ⟨row.endpointId, fun row' h => ?_,
        Or.inl (prelude_of_ended hended)⟩
      rw [hrow] at h
      rw [Option.some.inj h]

/-- No call gives a Delivery another Endpoint. -/
theorem advance_endpointId {p : Action Unit} {x : Choice} {w : World}
    {d : Uuid} {row' : DeliveryRow}
    (hrow' : (p.advance perform x w).2.db.delivery? d = some row') :
    ∃ row, w.db.delivery? d = some row ∧ row'.endpointId = row.endpointId := by
  cases p with
  | done a => exact ⟨row', hrow', rfl⟩
  | fail e => exact ⟨row', hrow', rfl⟩
  | call c k =>
      obtain ⟨row, hrow, hsame⟩ := perform_identity hrow'
      exact ⟨row, hrow, congrArg (·.2.2.1) hsame⟩

/-- What others do leaves the aim of a run alone that is not in the middle of
its decision. -/
theorem Aimed.interfere {w w' : World} {run : Run Effects Thrown Unit Task}
    (h : Aimed dateParse w run)
    (hmidway : ∀ c ∈ run.program.next?, c.Midway = false)
    (hrows : ∀ row', w'.db.delivery? run.task.deliveryId = some row' →
      ∃ row, w.db.delivery? run.task.deliveryId = some row ∧
        row'.endpointId = row.endpointId) :
    Aimed dateParse w' run := by
  refine h.imp_right ?_
  rintro ⟨endpointId, haim, hphase⟩
  refine ⟨endpointId, fun row' hrow' => ?_, hphase.imp_right ?_⟩
  · obtain ⟨row, hrow, hsame⟩ := hrows row' hrow'
    exact hsame.trans (haim row hrow)
  · rintro ⟨now, hdeciding⟩
    exact ⟨now, hdeciding.of_not_midway hmidway _⟩

/-- The calls of a run before its decision keep to `Prelude`, until a terminal
failure is recorded. -/
theorem Prelude.advance {endpointId : Uuid} {ms : ℕ} {p : Action Unit}
    (h : Prelude endpointId ms p) (x : Choice) (w : World) (db : Database) :
    Prelude endpointId ms (p.advance perform x w).1 ∨
      ∃ now, Deciding db endpointId ms now (p.advance perform x w).1 := by
  cases p with
  | done a => exact Or.inl trivial
  | fail e => exact Or.inl trivial
  | call c k =>
      by_cases hc : c.Prepares
      · exact Or.inl ((prelude_call_iff hc).mp h _)
      · cases c with
        | query q =>
            cases q with
            | completeDelivery input =>
                rw [Program.advance]
                cases (perform x (.query (.completeDelivery input)) w).1 with
                | error e => exact Or.inl (h.2 e)
                | ok result =>
                    by_cases hfails : input.status.Fails
                    · have hrest := h.1
                      rw [if_pos hfails] at hrest
                      dsimp only
                      rw [hrest]
                      exact Or.inr ⟨_, .begins⟩
                    · have hrest := h.1
                      rw [if_neg hfails] at hrest
                      exact Or.inl hrest
            | _ => exact absurd h.1 hc
        | _ => exact absurd h.1 hc

/-- A run keeps its aim when it makes a call. -/
theorem Aimed.advance {w : World} {run : Run Effects Thrown Unit Task}
    (h : Aimed dateParse w run) (x : Choice) :
    Aimed dateParse (run.program.advance perform x w).2
      ⟨run.task, (run.program.advance perform x w).1⟩ := by
  rcases h with hunread | ⟨endpointId, haim, hphase⟩
  · have hread := perform_read (x := x) (w := w)
      (q := .getDeliveryForProcessing run.task.deliveryId) rfl
    rw [hunread]
    obtain ⟨k, hk⟩ : ∃ k, processDelivery dateParse run.task.deps
        run.task.deliveryId =
      .call (.query (.getDeliveryForProcessing run.task.deliveryId)) k :=
      ⟨_, rfl⟩
    rcases hread with ⟨hx, _⟩ | ⟨e, hx, _⟩
    · cases hrecord : getDeliveryForProcessing w.db run.task.deliveryId with
      | none =>
          apply Aimed.of_ended
          simp only [processDelivery, query, Program.call_bind,
            Program.advance, hx, Query.run, Program.done_bind, hrecord]
          rfl
      | some record =>
          rw [hk]
          simp only [Program.advance, hx, Query.run, hrecord]
          refine Or.inr ⟨record.endpointId, fun row hrow => ?_,
            Or.inl (prelude_of_read hk record)⟩
          obtain ⟨record', hrecord', _, hendpoint, _⟩ :=
            getDeliveryForProcessing_of_row hrow
          rw [hrecord] at hrecord'
          rw [Option.some.inj hrecord', hendpoint]
    · apply Aimed.of_ended
      simp only [processDelivery, query, Program.call_bind, Program.advance,
        hx]
      rfl
  · refine Or.inr ⟨endpointId, fun row' hrow' => ?_, ?_⟩
    · obtain ⟨row, hrow, hsame⟩ := advance_endpointId hrow'
      exact hsame.trans (haim row hrow)
    · rcases hphase with hprelude | ⟨now, hdeciding⟩
      · exact hprelude.advance x w _
      · exact Or.inr ⟨now, hdeciding.advance x⟩

/-- Every event keeps every run aimed, as long as decisions are not
interrupted. -/
theorem aimed_apply {P : TrafficPool} (h : Orderly dateParse created P)
    (haimed : ∀ run ∈ P.runs, Aimed dateParse P.state run) {e : TrafficEvent}
    (hfresh : ∀ d ∈ createdBy e, d ∉ created)
    (huninterrupted : Uninterrupted P e) :
    ∀ run ∈ ((trafficSystem dateParse).apply P e).runs,
      Aimed dateParse ((trafficSystem dateParse).apply P e).state run := by
  cases e with
  | start task =>
      intro run hrun
      rcases List.mem_append.mp hrun with hrun | hrun
      · exact haimed run hrun
      · rw [List.mem_singleton] at hrun
        subst hrun
        exact Or.inl rfl
  | step i x =>
      cases hi : P.runs[i]? with
      | none =>
          rw [System.apply_step_none _ x hi]
          exact haimed
      | some run =>
          rw [System.apply_step_some _ x hi]
          intro other hother
          obtain ⟨j, hj⟩ := List.mem_iff_getElem?.mp hother
          by_cases hji : i = j
          · subst hji
            rw [List.getElem?_set_self
              (List.getElem?_eq_some_iff.mp hi).1] at hj
            cases hj
            exact (haimed run (List.mem_of_getElem? hi)).advance x
          · rw [List.getElem?_set_ne hji] at hj
            exact (haimed other (List.mem_of_getElem? hj)).interfere
              (not_midway huninterrupted hj fun h => hji (Option.some.inj h))
              fun row' hrow' => advance_endpointId hrow'
  | background b =>
      intro run hrun
      obtain ⟨j, hj⟩ := List.mem_iff_getElem?.mp hrun
      have hmidway := not_midway huninterrupted hj (by simp [stepped])
      by_cases hd : run.task.deliveryId ∈ b.created
      · rcases (h.runs run hrun).begun with hunread | hended | hcreated
        · exact Or.inl hunread
        · exact Aimed.of_ended hended
        · exact absurd hcreated (hfresh _ hd)
      · exact (haimed run hrun).interfere hmidway
          (b.evolves hd (h.consistent _)).2.2

end Aimed

/-! ## Runs that have recorded a terminal failure -/

/-- The run with this index decides about an Endpoint, or has ended. -/
def DecidingAt (P : TrafficPool) (i : ℕ) (endpointId : Uuid)
    (now : Instant) : Prop :=
  ∃ run, P.runs[i]? = some run ∧
    Deciding P.state.db endpointId
      run.task.deps.endpointAutoDisableAfterMs now run.program

theorem DecidingAt.apply {dateParse : String → Option Instant}
    {P : TrafficPool} {i : ℕ} {endpointId : Uuid} {now : Instant}
    (h : DecidingAt P i endpointId now) {e : TrafficEvent}
    (huninterrupted : Uninterrupted P e) :
    DecidingAt ((trafficSystem dateParse).apply P e) i endpointId now := by
  obtain ⟨run, hi, hdeciding⟩ := h
  have hlt : i < P.runs.length := (List.getElem?_eq_some_iff.mp hi).1
  by_cases hstep : stepped e = some i
  · cases e with
    | step j x =>
        cases hstep
        rw [System.apply_step_some _ x hi]
        exact ⟨_, List.getElem?_set_self hlt, hdeciding.advance x⟩
    | start task => cases hstep
    | background b => cases hstep
  · have hstill := hdeciding.of_not_midway
      (not_midway huninterrupted hi hstep)
    cases e with
    | start task =>
        exact ⟨run, (List.getElem?_append_left hlt).trans hi, hstill _⟩
    | step j x =>
        cases hj : P.runs[j]? with
        | none =>
            rw [System.apply_step_none _ x hj]
            exact ⟨run, hi, hdeciding⟩
        | some other =>
            rw [System.apply_step_some _ x hj]
            refine ⟨run, ?_, hstill _⟩
            rw [List.getElem?_set_ne fun h => hstep (congrArg some h)]
            exact hi
    | background b => exact ⟨run, hi, hstill _⟩

/-- A decision that resolves while the board shows a streak of the whole window
on an enabled Endpoint ends with the stamp. -/
theorem Deciding.disables {w : World} {endpointId : Uuid} {ms : ℕ}
    {now : Instant} {p : Action Unit}
    (h : Deciding w.db endpointId ms now p) {x : Choice}
    (hrunning : p.result? = none)
    (hresolved : (p.advance perform x w).1.result? = some (.ok ()))
    {row : EndpointRow} (hrow : w.db.endpoints.find? endpointId = some row)
    (henabled : row.enabled = true) (hauto : row.autoDisabledAt = none)
    {s : Instant} (hs : (w.db.board endpointId).Unbroken s)
    (hspan : ms ≤ now - s) :
    ∃ row', (p.advance perform x w).2.db.endpoints.find? endpointId =
      some row' ∧ row'.autoDisabledAt = some now := by
  cases h with
  | begins =>
      exfalso
      have henablement : selectEndpointEnablement w.db endpointId =
          some ⟨true, none⟩ := by
        simp [selectEndpointEnablement, hrow, henabled, hauto]
      rw [disableOnFailure_eq] at hresolved
      rcases perform_read (x := x)
        (q := .selectEndpointEnablement endpointId) (w := w) rfl with
        ⟨hx, _⟩ | ⟨e, hx, _⟩
      · simp only [query, Program.call_bind, Program.advance, hx, Query.run,
          Program.done_bind, henablement] at hresolved
        cases hresolved
      · simp only [query, Program.call_bind, Program.advance, hx] at hresolved
        cases hresolved
  | enabled =>
      exfalso
      rcases perform_read (x := x)
        (q := .selectLastSuccess endpointId) (w := w) rfl with
        ⟨hx, _⟩ | ⟨e, hx, _⟩
      · simp only [readLastSuccess, query, Program.call_bind, Program.advance,
          hx, Query.run, Program.done_bind] at hresolved
        cases hresolved
      · simp only [readLastSuccess, query, Program.call_bind, Program.advance,
          hx] at hresolved
        cases hresolved
  | succeeded =>
      exfalso
      obtain ⟨start, hle, hstart⟩ := exists_selectStreakStart hs
      rcases perform_read (x := x) (q := .selectStreakStart endpointId
        (selectLastSuccess w.db endpointId)) (w := w) rfl with
        ⟨hx, _⟩ | ⟨e, hx, _⟩
      · have hlong : ¬ now - start < ms :=
          not_lt.mpr (hspan.trans (sub_le_sub_left hle now))
        simp only [readStreakStart, query, Program.call_bind, Program.advance,
          hx, Query.run, Program.done_bind, hstart, decideOnStreak,
          if_neg hlong] at hresolved
        cases hresolved
      · simp only [readStreakStart, query, Program.call_bind, Program.advance,
          hx] at hresolved
        cases hresolved
  | spans _ _ =>
      cases hfault : x.fault with
      | some fault =>
          exfalso
          simp only [query, Program.call_bind, Program.advance,
            perform_query_of_some hfault] at hresolved
          cases hresolved
      | none =>
          refine ⟨row.autoDisabled now, ?_, rfl⟩
          change (perform x (.query (.stampAutoDisabled endpointId now))
            w).2.db.endpoints.find? endpointId = _
          rw [perform_query_of_none hfault]
          change (stampAutoDisabled w.db endpointId now).2.endpoints.find?
            endpointId = _
          rw [find?_stampAutoDisabled_self, hrow, Option.map_some, if_pos hauto]
  | ended hended =>
      rw [hrunning] at hended
      cases hended

end WebhookBroadcast
