import WebhookBroadcast.Admin.RetryRoute
import WebhookBroadcast.Lifecycle.History
import WebhookBroadcast.Worker.Script

/-!
# The operator retry against the worker

The row of a Delivery is dead-lettered before the run that does so has ended,
and the job stays active until then.  An operator retry that is accepted in
between finds the job id taken.

The route is one participant of this race; the other is the job, which the
worker takes, runs and settles again and again.  The route is verified once, as
a program whose rely is whatever the job may do.
-/

namespace WebhookBroadcast

open Interaction Timeline

/-! ## The job and its runs -/

/-- The current run of a job, with two notes on its first statement: whether
the row has been read, and whether that was before the retry was accepted. -/
structure JobRun where
  script : RunScript
  program : Action Unit
  hasRead : Bool
  stale : Bool

/-- The retry is accepted while the run is going. -/
def JobRun.overtaken (run : JobRun) : JobRun :=
  { run with stale := run.hasRead }

/-- What the route and the worker share. -/
structure Scene where
  world : World
  run : Option JobRun
  accepted : Bool

/-- A worker takes the job, lets its run make the next call, or moves the job on
after the run has ended. -/
inductive WorkerEvent where
  | take (script : RunScript)
  | work (x : Choice)
  | settle

/-- The runs of the job meet no failing statement. -/
def WorkerEvent.Faultless : WorkerEvent → Prop
  | take script => script.faults = {}
  | _ => True

section Model

variable (dateParse : String → Option Instant) (deps : ProcessDeliveryDeps)
  (d : Uuid)

def Scene.setJob (s : Scene) (job : Job) (run : Option JobRun) : Scene where
  world := { s.world with jobs := Function.update s.world.jobs d (some job) }
  run := run
  accepted := s.accepted

/-- The effect of a worker event.  A job is taken while it waits or when its
delay is over, and it has one run at a time. -/
def Scene.worker (s : Scene) : WorkerEvent → Scene
  | .take script =>
      match s.run, s.world.jobs d with
      | none, some job =>
          if job.state = .waiting ∨ job.state = .delayed then
            s.setJob d job.take
              (some ⟨script, processDelivery dateParse deps d, false, false⟩)
          else s
      | _, _ => s
  | .work x =>
      match s.run with
      | none => s
      | some run =>
          let next := run.program.advance run.script.perform x s.world
          ⟨next.2, some ⟨run.script, next.1, true, run.stale⟩, s.accepted⟩
  | .settle =>
      match s.run, s.world.jobs d with
      | some run, some job =>
          match run.program.result? with
          | some r => s.setJob d (job.settle r) none
          | none => s
      | _, _ => s

/-- The call is the update of the route, and its answer is that it was
accepted. -/
def accepts : (c : Call) → c.Answer → Bool
  | .query (.retryDeadLetteredDelivery _ _), .ok retried => retried
  | _, _ => false

/-- The calls of the route.  Accepting the retry makes a run stale that has
read the row already. -/
def routeHandler : Handler Effects Choice Scene := fun x c s =>
  let outcome := perform x c s.world
  (outcome.1,
    if accepts c outcome.1 then
      ⟨outcome.2, s.run.map JobRun.overtaken, true⟩
    else ⟨outcome.2, s.run, s.accepted⟩)

/-! ## The race -/

/-- The shared scene, and what the route may still do. -/
structure Race where
  scene : Scene
  route : Action Response

inductive RaceEvent where
  | worker (e : WorkerEvent)
  | route (x : Choice)

def RaceEvent.Faultless : RaceEvent → Prop
  | worker e => e.Faultless
  | route _ => True

def Race.step (race : Race) : RaceEvent → Race
  | .worker e => ⟨race.scene.worker dateParse deps d e, race.route⟩
  | .route x =>
      let next := race.route.advance routeHandler x race.scene
      ⟨next.2, next.1⟩

def Race.exec (race : Race) (events : List RaceEvent) : Race :=
  events.foldl (Race.step dateParse deps d) race

/-- The race before the route has made its first call, while no run is
going. -/
def Race.start (w : World) : Race :=
  ⟨⟨w, none, false⟩, retryDelivery deps.maxAttempts d⟩

/-! ## The two ways to lose a retry -/

/-- `getState` is answered while the job is active with a stale run. -/
def Scene.ShowsStaleRun (s : Scene) (c : Call) (x : Choice) : Prop :=
  c = .queue (.getState d) ∧ x.fault = none ∧ s.run.any JobRun.stale

instance (s : Scene) (c : Call) (x : Choice) :
    Decidable (s.ShowsStaleRun d c x) :=
  inferInstanceAs (Decidable (_ ∧ _ ∧ _))

/-- The run has ended, and the job with it fails for good. -/
def JobRun.fails (run : JobRun) (job : Job) : Bool :=
  run.program.result?.any fun r => (job.settle r).state = .failed

/-- After the retry was accepted, the job fails for good while the row is
pending, with a run that is not stale. -/
def Scene.GivesUp (s : Scene) : WorkerEvent → Prop
  | .settle =>
      s.accepted ∧ selectDeliveryStatus s.world.db d = some .pending ∧
        s.run.any fun run => !run.stale && (s.world.jobs d).any run.fails
  | _ => False

instance (s : Scene) (e : WorkerEvent) : Decidable (s.GivesUp d e) :=
  match e with
  | .settle => inferInstanceAs (Decidable (_ ∧ _ ∧ _))
  | .take _ => inferInstanceAs (Decidable False)
  | .work _ => inferInstanceAs (Decidable False)

/-- The event is one of the two. -/
def Race.Loses (race : Race) : RaceEvent → Prop
  | .worker e => race.scene.GivesUp d e
  | .route x =>
      match race.route.next? with
      | some c => race.scene.ShowsStaleRun d c x
      | none => False

instance (race : Race) (e : RaceEvent) : Decidable (race.Loses d e) :=
  match e with
  | .worker e => inferInstanceAs (Decidable (race.scene.GivesUp d e))
  | .route x =>
      match h : race.route.next? with
      | some c => decidable_of_iff (race.scene.ShowsStaleRun d c x)
          (by simp [Race.Loses, h])
      | none => .isFalse (by simp [Race.Loses, h])

/-- No event of the race is bad. -/
def Race.Never (bad : Race → RaceEvent → Prop) :
    Race → List RaceEvent → Prop
  | _, [] => True
  | race, e :: events =>
      ¬ bad race e ∧ Race.Never bad (race.step dateParse deps d e) events

instance Race.decidableNever (bad : Race → RaceEvent → Prop)
    [∀ race e, Decidable (bad race e)] :
    ∀ (race : Race) (events : List RaceEvent),
      Decidable (race.Never dateParse deps d bad events)
  | _, [] => .isTrue trivial
  | race, e :: events =>
      have := decidableNever bad (race.step dateParse deps d e) events
      inferInstanceAs (Decidable (_ ∧ _))

/-- A job that waits, or whose current run has not read the row before the
retry. -/
def Scene.WillRun (s : Scene) : Prop :=
  ∃ job, s.world.jobs d = some job ∧
    (job.state = .waiting ∨ job.state = .delayed ∨
      job.state = .active ∧ ∃ run, s.run = some run ∧ run.stale = false)

/-- After the route has answered `200`, the Delivery has a job that will run as
long as it is pending. -/
def Race.NotLost (race : Race) : Prop :=
  (∃ row, race.route.result? = some (.ok ⟨200, .delivery row⟩)) →
    selectDeliveryStatus race.scene.world.db d = some .pending →
    race.scene.WillRun d

end Model

/-! ## The budget of a retried Delivery -/

/-- A dead-lettered Delivery has used up its budget, and once it is retried it
has no more than one Attempt left. -/
def Exhausted (M : ℕ) (accepted : Bool) (t : Option Timeline) : Prop :=
  ∀ u, t = some u →
    (u.status = .deadLettered ∨ accepted ∧ u.status.Live) →
      M ≤ u.outcomes.length

/-- Before the retry, this is part of the Attempt budget. -/
theorem exhausted_of_withinBudget {M : ℕ} {t : Option Timeline}
    (ht : ∀ u, t = some u → ∃ retries, WithinBudget M retries u) :
    Exhausted M false t := by
  rintro u hu (hdead | ⟨haccepted, _⟩)
  · obtain ⟨retries, hbudget⟩ := ht u hu
    have hlength : u.outcomes.length = M + retries := by
      simpa [WithinBudget, hdead] using hbudget
    exact hlength ▸ Nat.le_add_right M retries
  · cases haccepted

theorem Exhausted.change {M : ℕ} {accepted : Bool} {t t' : Option Timeline}
    (ht : Exhausted M accepted t) (h : Change {M} t t') :
    Exhausted M accepted t' := by
  cases h with
  | stay => exact ht
  | @work t u h =>
      intro v hv hstatus
      cases hv
      have hlive : accepted → M ≤ t.outcomes.length :=
        fun haccepted => ht t rfl (Or.inr ⟨haccepted, h.live⟩)
      cases h with
      | claim h => exact hlive (hstatus.resolve_left (by simp)).1
      | release h => exact hlive (hstatus.resolve_left (by simp)).1
      | record o status _ hM hbudget =>
          rw [Set.mem_singleton_iff] at hM
          subst hM
          rw [List.length_append, List.length_singleton]
          rcases hstatus with hdead | ⟨haccepted, _⟩
          · have hdead : status = .deadLettered := hdead
            rw [hdead] at hbudget
            exact hbudget
          · exact Nat.le_succ_of_le (hlive haccepted)

/-- A retry whose acceptance goes unnoticed does no harm either. -/
theorem Exhausted.evolves {M : ℕ} {t t' : Option Timeline}
    (ht : Exhausted M false t) (h : Evolves {M} True t t') :
    Exhausted M false t' := by
  cases h with
  | change h => exact ht.change h
  | vanish => exact fun u hu => by cases hu
  | reopen _ h =>
      cases h with
      | reopen h =>
          rintro v ⟨⟩ (hdead | ⟨haccepted, _⟩)
          · cases hdead
          · cases haccepted

theorem Exhausted.reopens {M : ℕ} {t u : Timeline}
    (ht : Exhausted M false (some t)) (h : Reopens t u) :
    Exhausted M true (some u) := by
  cases h with
  | reopen h =>
      intro v hv _
      cases hv
      exact ht t rfl (Or.inl h)

/-! ## What holds throughout the race -/

section Orderly

variable (dateParse : String → Option Instant) (deps : ProcessDeliveryDeps)
  (d : Uuid) (steady : Prop)

/-- The move that a worker event makes. -/
inductive Scene.Moves (s : Scene) : WorkerEvent → Scene → Prop
  | idle (e : WorkerEvent) : Moves s e s
  | take (script : RunScript) {job : Job} (hrun : s.run = none)
      (hjob : s.world.jobs d = some job) :
      Moves s (.take script) (s.setJob d job.take
        (some ⟨script, processDelivery dateParse deps d, false, false⟩))
  | work (x : Choice) {run : JobRun} (hrun : s.run = some run) :
      Moves s (.work x)
        ⟨(run.program.advance run.script.perform x s.world).2,
          some ⟨run.script,
            (run.program.advance run.script.perform x s.world).1, true,
            run.stale⟩, s.accepted⟩
  | settle {run : JobRun} {job : Job} {r : Except Thrown Unit}
      (hrun : s.run = some run) (hjob : s.world.jobs d = some job)
      (hresult : run.program.result? = some r) :
      Moves s .settle (s.setJob d (job.settle r) none)

theorem Scene.moves_worker (s : Scene) (e : WorkerEvent) :
    s.Moves dateParse deps d e (s.worker dateParse deps d e) := by
  cases e with
  | take script =>
      simp only [Scene.worker]
      split
      next job hrun hjob =>
        split
        · exact .take script hrun hjob
        · exact .idle _
      · exact .idle _
  | work x =>
      simp only [Scene.worker]
      split
      · exact .idle _
      next run hrun => exact .work x hrun
  | settle =>
      simp only [Scene.worker]
      split
      next run job hrun hjob =>
        split
        next r hr => exact .settle hrun hjob hr
        · exact .idle _
      · exact .idle _

/-- A run ends in good order if it resolves only with its Delivery settled; a
steady one always resolves. -/
def Finishes (r : Except Thrown Unit) (w : World) : Prop :=
  (r = .ok () → Settled (w.db.timeline? d)) ∧ (steady → r = .ok ())

/-- What is known of the current run.  `steady` is the assumption that no
statement of a run fails and that the budget is respected. -/
structure JobRun.Orderly (run : JobRun) (s : Scene) : Prop where
  shape : run.program.EveryCall (Shape d deps.backoffMaxMs)
  ensures : ((Regime.mk {deps.maxAttempts} True True).discipline d).Ensures
    (fun _ _ => True) run.program s.world
  unread : run.hasRead = false → run.program = processDelivery dateParse deps d
  faultless : steady → run.script.faults = {}
  finishes : s.accepted → run.stale = false →
    run.program.Always run.script.perform (Finishes d steady) s.world

structure Scene.Orderly (s : Scene) : Prop where
  consistent : s.world.db.Consistent d
  exhausted : steady →
    Exhausted deps.maxAttempts s.accepted (s.world.db.timeline? d)
  active_iff : (s.world.jobs d).map Job.state = some .active ↔ s.run.isSome
  run : ∀ run, s.run = some run → run.Orderly dateParse deps d steady s

variable {dateParse deps d steady}

/-- A run that begins after the retry was accepted ends in good order. -/
theorem finishes_of_exhausted {w : World} (hw : w.db.Consistent d)
    (hexhausted : steady →
      Exhausted deps.maxAttempts true (w.db.timeline? d))
    {script : RunScript} (hscript : steady → script.faults = {}) :
    (processDelivery dateParse deps d).Always script.perform
      (Finishes d steady) w := by
  by_cases hsteady : steady
  · have hlast : ∀ t, w.db.timeline? d = some t → t.status.Live →
        deps.maxAttempts ≤ t.outcomes.length + 1 := fun t ht hlive =>
      Nat.le_succ_of_le (hexhausted hsteady t ht (Or.inr ⟨rfl, hlive⟩))
    refine (processDelivery_alone_exhausted hw hlast
      (hscript hsteady)).consequence ?_
    rintro r w' ⟨hok, hsettled⟩
    exact ⟨fun _ => hsettled, fun _ => hok⟩
  · refine (processDelivery_alone_resolves hw).consequence ?_
    intro r w' hsettled
    exact ⟨hsettled, fun h => absurd h hsteady⟩

theorem Job.settle_state_ne_active (job : Job) (r : Except Thrown Unit) :
    (job.settle r).state ≠ .active := by
  cases r with
  | ok _ => simp [Job.settle, Job.complete]
  | error e =>
      simp only [Job.settle, Job.reject]
      split
      · split <;> simp
      · simp

/-- A scripted step is a step under some choice. -/
theorem RunScript.exists_advance (script : RunScript) (p : Action Unit)
    (x : Choice) (w : World) :
    ∃ y, p.advance script.perform x w =
      p.advance WebhookBroadcast.perform y w := by
  cases p with
  | done a => exact ⟨x, rfl⟩
  | fail e => exact ⟨x, rfl⟩
  | call c k => exact ⟨_, rfl⟩

theorem jobs_advance {capMs : ℕ} {p : Action Unit}
    (hp : p.EveryCall (Shape d capMs)) (x : Choice) (w : World) :
    (p.advance perform x w).2.jobs = w.jobs := by
  cases p with
  | done a => rfl
  | fail e => rfl
  | call c k => exact perform_jobs_of_not_queue (not_queue_of_shape hp.1) x w

/-- A step of the current run keeps the scene in order and the jobs as they
are. -/
theorem Scene.Orderly.work {s : Scene} (hs : s.Orderly dateParse deps d steady)
    {run : JobRun} (hrun : s.run = some run) (x : Choice) :
    let next := run.program.advance run.script.perform x s.world
    Scene.Orderly dateParse deps d steady
        ⟨next.2, some ⟨run.script, next.1, true, run.stale⟩, s.accepted⟩ ∧
      next.2.jobs = s.world.jobs := by
  intro next
  have horderly := hs.run run hrun
  obtain ⟨y, hy⟩ := run.script.exists_advance run.program x s.world
  have hnext : next = run.program.advance perform y s.world := hy
  have hjobs : next.2.jobs = s.world.jobs := by
    rw [hnext]
    exact jobs_advance horderly.shape y s.world
  obtain ⟨hconsistent, htrans, hensures⟩ := horderly.ensures.advance (x := y)
    hs.consistent fun _ _ _ => Or.inl trivial
  have hchange : Change {deps.maxAttempts} (s.world.db.timeline? d)
      (next.2.db.timeline? d) := by
    rw [hnext]
    rcases htrans with hsame | hchange
    · have hsame : (run.program.advance perform y s.world).2 = s.world := hsame
      rw [hsame]
      exact .stay _
    · exact hchange
  refine ⟨⟨?_, fun hsteady => (hs.exhausted hsteady).change hchange, ?_, ?_⟩,
    hjobs⟩
  · rw [hnext]
    exact hconsistent
  · rw [hjobs, hs.active_iff, hrun]
    simp
  · rintro _ ⟨⟩
    refine ⟨?_, ?_, (fun h => by cases h), horderly.faultless, ?_⟩
    · exact horderly.shape.advance _ x s.world
    · rw [hnext]
      exact hensures
    · exact fun haccepted hstale =>
        (horderly.finishes haccepted hstale).advance x

/-- A worker event keeps the scene in order. -/
theorem Scene.Orderly.moves {s s' : Scene}
    (hs : s.Orderly dateParse deps d steady)
    {e : WorkerEvent} (he : s.Moves dateParse deps d e s')
    (hfaultless : steady → e.Faultless) :
    s'.Orderly dateParse deps d steady := by
  cases he with
  | idle => exact hs
  | @take script job hrun hjob =>
      refine ⟨hs.consistent, hs.exhausted,
        by simp [Scene.setJob, Job.take], ?_⟩
      rintro _ ⟨⟩
      refine ⟨shape_processDelivery dateParse, ?_, fun _ => rfl, hfaultless,
        fun haccepted _ => ?_⟩
      · exact (Regime.ensures_processDelivery (Set.mem_singleton _)
          _).consequence fun _ _ _ => trivial
      · have hexhausted := hs.exhausted
        have haccepted : s.accepted = true := haccepted
        rw [haccepted] at hexhausted
        exact finishes_of_exhausted (w := (s.setJob d job.take none).world)
          hs.consistent hexhausted hfaultless
  | work x hrun => exact (hs.work hrun x).1
  | @settle run job r hrun hjob hresult =>
      refine ⟨hs.consistent, hs.exhausted, ?_, fun _ h => by cases h⟩
      simp [Scene.setJob, job.settle_state_ne_active r]

/-! ## What the job does to an accepted retry -/

/-- The retry was accepted, and no run is going that has read the row before. -/
structure Scene.Fresh (s : Scene) : Prop where
  accepted : s.accepted
  run : ∀ run, s.run = some run → run.stale = false

variable (d) in
/-- The job is unfinished as long as the Delivery is pending. -/
def Scene.Kept (s : Scene) : Prop :=
  selectDeliveryStatus s.world.db d = some .pending →
    Unfinished (s.world.jobs d)

theorem Scene.Moves.accepted_eq {s s' : Scene} {e : WorkerEvent}
    (he : s.Moves dateParse deps d e s') : s'.accepted = s.accepted := by
  cases he <;> rfl

theorem Scene.Fresh.moves {s s' : Scene} {e : WorkerEvent} (hs : s.Fresh)
    (he : s.Moves dateParse deps d e s') : s'.Fresh := by
  refine ⟨he.accepted_eq ▸ hs.accepted, ?_⟩
  cases he with
  | idle => exact hs.run
  | take script hrun hjob =>
      rintro _ ⟨⟩
      rfl
  | @work x run hrun =>
      rintro _ ⟨⟩
      have hstale : run.stale = false := hs.run run hrun
      exact hstale
  | settle hrun hjob hresult => exact fun _ h => by cases h

theorem Timeline.Settled.not_pending {db : Database}
    (h : Settled (db.timeline? d)) :
    selectDeliveryStatus db d ≠ some .pending := by
  intro hpending
  obtain ⟨row, hrow, hstatus⟩ := Option.map_eq_some_iff.mp hpending
  exact h _ (Database.timeline?_eq_some hrow) (Or.inl hstatus)

theorem Job.settle_error_unfinished {job : Job} {e : Thrown}
    (h : (job.settle (.error e)).state ≠ .failed) :
    ¬ (job.settle (.error e)).state.Finished := by
  rintro (hcompleted | hfailed)
  · simp only [Job.settle, Job.reject] at hcompleted
    split at hcompleted
    · split at hcompleted <;> cases hcompleted
    · cases hcompleted
  · exact h hfailed

/-- A job without a stale run is not lost: it is unfinished until the Delivery
has left the pending state, unless it gives up. -/
theorem Scene.Kept.moves {s s' : Scene} {e : WorkerEvent} (hkept : s.Kept d)
    (hs : s.Orderly dateParse deps d steady) (hfresh : s.Fresh)
    (he : s.Moves dateParse deps d e s') (hgives : ¬ s.GivesUp d e) :
    s'.Kept d := by
  cases he with
  | idle => exact hkept
  | take script hrun hjob =>
      intro _
      refine ⟨_, Function.update_self .., ?_⟩
      simp [Job.take, JobState.Finished]
  | work x hrun =>
      intro _
      obtain ⟨_, hjobs⟩ := hs.work hrun x
      have hactive := hs.active_iff.mpr (by rw [hrun]; rfl)
      obtain ⟨job, hjob, hstate⟩ := Option.map_eq_some_iff.mp hactive
      refine ⟨job, hjobs ▸ hjob, ?_⟩
      simp [hstate, JobState.Finished]
  | @settle run job r hrun hjob hresult =>
      intro hpending
      refine ⟨_, Function.update_self .., ?_⟩
      have hpending : selectDeliveryStatus s.world.db d = some .pending :=
        hpending
      cases r with
      | ok _ =>
          have hfinishes := (hs.run run hrun).finishes hfresh.accepted
            (hfresh.run run hrun)
          have hsettled : Settled (s.world.db.timeline? d) :=
            (hfinishes.of_result? hresult).1 rfl
          exact absurd hpending hsettled.not_pending
      | error error =>
          refine Job.settle_error_unfinished fun hfailed => hgives ?_
          refine ⟨hfresh.accepted, hpending, ?_⟩
          simp [hrun, hjob, JobRun.fails, hresult, hfailed,
            hfresh.run run hrun]

/-- A steady run does not give up. -/
theorem Scene.Orderly.not_givesUp {s : Scene}
    (hs : s.Orderly dateParse deps d steady) (hsteady : steady)
    (e : WorkerEvent) : ¬ s.GivesUp d e := by
  cases e with
  | take script => exact id
  | work x => exact id
  | settle =>
      rintro ⟨haccepted, _, hgives⟩
      obtain ⟨run, hrun, hfails⟩ := (Option.any_eq_true _ _).mp hgives
      rw [Bool.and_eq_true, Bool.not_eq_true'] at hfails
      obtain ⟨hstale, hfails⟩ := hfails
      obtain ⟨job, hjob, hfails⟩ := (Option.any_eq_true _ _).mp hfails
      obtain ⟨r, hresult, hfails⟩ := (Option.any_eq_true _ _).mp hfails
      have hfinishes := (hs.run run hrun).finishes haccepted hstale
      have hok : r = .ok () := (hfinishes.of_result? hresult).2 hsteady
      simp [hok, Job.settle, Job.complete] at hfails

/-- Without a job, the worker has nothing to do. -/
theorem Scene.Orderly.moves_of_none {s s' : Scene}
    (hs : s.Orderly dateParse deps d steady) {e : WorkerEvent}
    (he : s.Moves dateParse deps d e s') (hnone : s.world.jobs d = none) :
    s' = s := by
  have hrun : s.run = none := by
    have hidle := hs.active_iff
    rw [hnone] at hidle
    simpa using hidle
  cases he with
  | idle => rfl
  | take script _ hjob =>
      rw [hnone] at hjob
      cases hjob
  | work x hsome =>
      rw [hrun] at hsome
      cases hsome
  | settle hsome hjob hresult =>
      rw [hrun] at hsome
      cases hsome

end Orderly

end WebhookBroadcast
