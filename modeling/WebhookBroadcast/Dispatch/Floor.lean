import WebhookBroadcast.Admin.RetryRace
import WebhookBroadcast.Dispatch.Errands
import WebhookBroadcast.Dispatch.Run

/-!
# The floor

Requests accept Broadcasts, the worker takes the jobs that they queue, and
operators and retention write the database meanwhile.  Seen from one Delivery,
each of these changes either is a move of the request that created it or of its
own job, or leaves it alone or deletes it.
-/

namespace WebhookBroadcast

open Interaction Timeline

/-! ## The model -/

/-- The two stores, and the runs of jobs that are going, by job id. -/
structure Floor where
  world : World
  runs : Uuid → Option (Action Unit)

/-- The same runs on other stores. -/
def Floor.set (w : World) (F : Floor) : Floor := { F with world := w }

/-- The requests that accept Broadcasts. -/
inductive AcceptTask where
  | ingest (slug : String) (request : IngestRequest)
  | replay (channelId broadcastId : Uuid)

/-- The worker takes a job, lets its run make the next call, or moves the job on
after the run has ended; or somebody writes the database. -/
inductive FloorEvent where
  | take (jobId : Uuid)
  | work (jobId : Uuid) (x : Choice)
  | settle (jobId : Uuid)
  | statement (s : Statement)

/-- The job that the event is about. -/
def FloorEvent.job? : FloorEvent → Option Uuid
  | take jobId => some jobId
  | work jobId _ => some jobId
  | settle jobId => some jobId
  | statement _ => none

/-- The call of a run does not fail. -/
def FloorEvent.Faultless : FloorEvent → Prop
  | work _ x => x.fault = none
  | _ => True

section Model

variable (hashToken : String → String) (config : IngestRouteConfig)
  (dateParse : String → Option Instant) (deps : ProcessDeliveryDeps)

def AcceptTask.program : AcceptTask → AcceptAction Unit
  | ingest slug request => do
      let _ ← WebhookBroadcast.ingest hashToken config slug request
      return ()
  | replay channelId broadcastId => do
      let _ ← replayBroadcast config.maxAttempts channelId broadcastId
      return ()

/-- A job and its run from now on. -/
def Floor.setJob (F : Floor) (jobId : Uuid) (job : Job)
    (run : Option (Action Unit)) : Floor where
  world :=
    { F.world with jobs := Function.update F.world.jobs jobId (some job) }
  runs := Function.update F.runs jobId run

/-- The effect of an event.  A job is taken while it waits or when its delay is
over, and it has one run at a time. -/
def Floor.after (F : Floor) : FloorEvent → Floor
  | .take jobId =>
      match F.runs jobId, F.world.jobs jobId with
      | none, some job =>
          if job.state = .waiting ∨ job.state = .delayed then
            F.setJob jobId job.take
              (some (processDelivery dateParse deps job.data.deliveryId))
          else F
      | _, _ => F
  | .work jobId x =>
      match F.runs jobId with
      | none => F
      | some run =>
          let next := run.advance perform x F.world
          ⟨next.2, Function.update F.runs jobId (some next.1)⟩
  | .settle jobId =>
      match F.runs jobId, F.world.jobs jobId with
      | some run, some job =>
          match run.result? with
          | some r => F.setJob jobId (job.settle r) none
          | none => F
      | _, _ => F
  | .statement s => F.set (s.run F.world)

/-- Requests, the worker and writers on one floor. -/
def dispatch : System AcceptEffects Thrown Unit AcceptTask Choice FloorEvent
    Floor where
  handler := performAccept.within id Floor.world Floor.set
  program := AcceptTask.program hashToken config
  background e F := F.after dateParse deps e

end Model

/-! ## What is known of a Delivery -/

/-- There is nothing of the Delivery on the floor. -/
structure Floor.Lacks (F : Floor) (d : Uuid) : Prop where
  row : F.world.db.delivery? d = none
  job : F.world.jobs d = none
  run : F.runs d = none

/-- The change leaves the Delivery alone or deletes its row. -/
structure Floor.Leaves (F F' : Floor) (d : Uuid) : Prop where
  row : F.world.db.LeavesOrEnds d F'.world.db
  job : F'.world.jobs d = F.world.jobs d
  run : F'.runs d = F.runs d

/-- What is known of the job of a Delivery: it waits for the run after the
Attempts that have been made, is in that run, or is finished with the Delivery
settled. -/
inductive Floor.JobStands (deps : ProcessDeliveryDeps) (F : Floor) (d : Uuid)
    (job : Job) : Prop
  | waits (hstate : job.state = .waiting ∨ job.state = .delayed)
      (hrun : F.runs d = none) (hshows : F.world.Shows d (Awaits job.runs))
  | runs {run : Action Unit} {count : ℕ} (hstate : job.state = .active)
      (hrun : F.runs d = some run)
      (hshape : run.EveryCall (Shape d deps.backoffMaxMs))
      (hcount : job.runs = count + 1)
      (hends : (exclusive d).Ensures (RunEnds d deps.maxAttempts count) run
        F.world)
  | ended (hstate : job.state.Finished) (hrun : F.runs d = none)
      (hsettled : Settled (F.world.db.timeline? d))

/-- The Delivery has a job. -/
structure Floor.Placed (deps : ProcessDeliveryDeps) (F : Floor) (d : Uuid)
    (job : Job) : Prop where
  stored : F.world.jobs d = some job
  attempts : job.attempts = deps.maxAttempts
  data : job.data.deliveryId = d
  consistent : F.world.db.Consistent d
  stands : F.JobStands deps d job

/-- How it stands with a Delivery whose id a request has drawn. -/
inductive Floor.Stands (deps : ProcessDeliveryDeps) (F : Floor) (d : Uuid)
    (e : Errand) : Prop
  | unseen (hcommits : ¬ e.Commits d) (hlacks : F.Lacks d)
  | accepted {tx : Transaction} (hcommitted : e.committed = some tx)
      (hmem : d ∈ tx.deliveries.map DeliveryRow.id)
      (hqueued : e.queued = false) (hwithdrawn : e.withdrawn = false)
      (hjob : F.world.jobs d = none) (hrun : F.runs d = none)
      (hconsistent : F.world.db.Consistent d)
      (hshows : F.world.Shows d (Awaits 0))
      (hown : ∀ row, F.world.db.delivery? d = some row →
        row.broadcastId = tx.broadcast.id)
  | withdrawn (hcommits : e.Commits d) (hwithdrawn : e.withdrawn = true)
      (hlacks : F.Lacks d)
  | placed {job : Job} (hcommits : e.Commits d) (hoffered : e.offered = true)
      (hplaced : F.Placed deps d job)

namespace Floor

variable {deps : ProcessDeliveryDeps} {F F' : Floor} {d : Uuid} {job : Job}
  {e : Errand}

namespace Leaves

theorem lacks (h : F.Leaves F' d) (hF : F.Lacks d) : F'.Lacks d where
  row := by
    rcases h.row with hnone | ⟨hsame, -⟩
    · exact hnone
    · exact hsame.trans hF.row
  job := h.job.trans hF.job
  run := h.run.trans hF.run

theorem jobStands (h : F.Leaves F' d) (hF : F.JobStands deps d job) :
    F'.JobStands deps d job := by
  cases hF with
  | waits hstate hrun hshows =>
      exact .waits hstate (h.run.trans hrun) (hshows.rely h.row)
  | runs hstate hrun hshape hcount hends =>
      exact .runs hstate (h.run.trans hrun) hshape hcount
        (hends.interfere (Relation.ReflTransGen.single h.row))
  | ended hstate hrun hsettled =>
      have hshows : F.world.Shows d fun t => ¬ t.status.Live := hsettled
      exact .ended hstate (h.run.trans hrun) (hshows.rely h.row)

theorem placed (h : F.Leaves F' d) (hF : F.Placed deps d job) :
    F'.Placed deps d job where
  stored := h.job.trans hF.stored
  attempts := hF.attempts
  data := hF.data
  consistent := (h.row.keeps hF.consistent).1
  stands := h.jobStands hF.stands

theorem stands (h : F.Leaves F' d) (hF : F.Stands deps d e) :
    F'.Stands deps d e := by
  cases hF with
  | unseen hcommits hlacks => exact .unseen hcommits (h.lacks hlacks)
  | accepted hcommitted hmem hqueued hwithdrawn hjob hrun hcons hshows hown =>
      refine .accepted hcommitted hmem hqueued hwithdrawn (h.job.trans hjob)
        (h.run.trans hrun) (h.row.keeps hcons).1 (hshows.rely h.row) ?_
      intro row hrow
      rcases h.row with hnone | ⟨hsame, -⟩
      · rw [hnone] at hrow
        cases hrow
      · exact hown row (hsame.symm.trans hrow)
  | withdrawn hcommits hwithdrawn hlacks =>
      exact .withdrawn hcommits hwithdrawn (h.lacks hlacks)
  | placed hcommits hoffered hplaced =>
      exact .placed hcommits hoffered (h.placed hplaced)

end Leaves

theorem Leaves.refl (F : Floor) (d : Uuid) : F.Leaves F d :=
  ⟨.refl _, rfl, rfl⟩

/-- The run of a job. -/
theorem JobStands.shape (hF : F.JobStands deps d job) {run : Action Unit}
    (hrun : F.runs d = some run) :
    run.EveryCall (Shape d deps.backoffMaxMs) := by
  cases hF with
  | waits _ hnone =>
      rw [hrun] at hnone
      cases hnone
  | ended _ hnone =>
      rw [hrun] at hnone
      cases hnone
  | runs _ hsome hshape =>
      rw [hrun] at hsome
      cases hsome
      exact hshape

/-- A Delivery without a job has no run, and one with a job is placed. -/
theorem Stands.job_cases (hF : F.Stands deps d e) :
    F.world.jobs d = none ∧ F.runs d = none ∨
      ∃ job, e.Commits d ∧ e.offered = true ∧ F.Placed deps d job := by
  cases hF with
  | unseen _ hlacks => exact Or.inl ⟨hlacks.job, hlacks.run⟩
  | accepted _ _ _ _ hjob hrun => exact Or.inl ⟨hjob, hrun⟩
  | withdrawn _ _ hlacks => exact Or.inl ⟨hlacks.job, hlacks.run⟩
  | placed hcommits hoffered hplaced =>
      exact Or.inr ⟨_, hcommits, hoffered, hplaced⟩

/-! ## The worker -/

/-- A job that is taken begins its next run. -/
theorem JobStands.take {dateParse : String → Option Instant}
    (hF : F.JobStands deps d job)
    (hstate : job.state = .waiting ∨ job.state = .delayed) :
    (F.setJob d job.take (some (processDelivery dateParse deps d))).JobStands
      deps d job.take := by
  have hwaits : F.world.Shows d (Awaits job.runs) := by
    cases hF with
    | waits _ _ hshows => exact hshows
    | runs hactive => rcases hstate with h | h <;> simp [hactive] at h
    | ended hfinished =>
        rcases hstate with h | h <;> simp [h, JobState.Finished] at hfinished
  refine .runs rfl (Function.update_self _ _ _)
    (shape_processDelivery dateParse) rfl ?_
  exact exclusive_processDelivery hwaits

/-- A run that has ended settles its Delivery or leaves it for another run. -/
theorem JobStands.settle (hF : F.JobStands deps d job)
    (hattempts : job.attempts = deps.maxAttempts) {run : Action Unit}
    (hrun : F.runs d = some run) {r : Except Thrown Unit}
    (hr : run.result? = some r) :
    (F.setJob d (job.settle r) none).JobStands deps d (job.settle r) := by
  cases hF with
  | waits _ hnone =>
      rw [hrun] at hnone
      cases hnone
  | ended _ hnone =>
      rw [hrun] at hnone
      cases hnone
  | @runs run' count hstate hsome hshape hcount hends =>
      rw [hrun] at hsome
      cases hsome
      have hend := hends.of_result? hr
      have hidle : (F.setJob d (job.settle r) none).runs d = none :=
        Function.update_self _ _ _
      cases r with
      | ok _ => exact .ended (Or.inl rfl) hidle hend
      | error error =>
          obtain ⟨hdelay, hshows⟩ := hend
          by_cases hbudget : job.runs < job.attempts
          · refine .waits ?_ hidle ?_
            · simp only [Job.settle, Job.reject, hbudget, hdelay, and_self,
                if_true]
              split
              · exact Or.inl rfl
              · exact Or.inr rfl
            · exact hshows.imp fun t ht => hcount ▸ ht.1
          · -- the budget is not used up, so that the Delivery is gone
            refine .ended ?_ hidle ?_
            · exact (job.reject_finished_iff _).mpr fun h => hbudget h.1
            · intro t ht
              have hlt := (hshows t ht).2
              exact absurd (hcount ▸ hattempts.symm ▸ hlt) hbudget

/-- A step of the run of the Delivery. -/
theorem JobStands.work (hF : F.JobStands deps d job) {run : Action Unit}
    (hrun : F.runs d = some run) (hcons : F.world.db.Consistent d) {x : Choice}
    (hx : x.fault = none) :
    let next := run.advance perform x F.world
    let F' : Floor := ⟨next.2, Function.update F.runs d (some next.1)⟩
    F'.JobStands deps d job ∧ F'.world.db.Consistent d := by
  intro next F'
  cases hF with
  | waits _ hnone =>
      rw [hrun] at hnone
      cases hnone
  | ended _ hnone =>
      rw [hrun] at hnone
      cases hnone
  | runs hstate hsome hshape hcount hends =>
      rw [hrun] at hsome
      cases hsome
      obtain ⟨hinv, -, hnext⟩ := hends.advance hcons (x := x)
        fun c k _ => hx
      exact ⟨.runs hstate (Function.update_self _ _ _)
        (hshape.advance perform x F.world) hcount hnext, hinv⟩

/-- Another job and its run are set. -/
theorem leaves_setJob (F : Floor) {id : Uuid} (hid : d ≠ id) (job : Job)
    (run : Option (Action Unit)) : F.Leaves (F.setJob id job run) d where
  row := .refl _
  job := Function.update_of_ne hid _ _
  run := Function.update_of_ne hid _ _

/-- A step of the run of another Delivery. -/
theorem leaves_work (F : Floor) {id : Uuid} (hid : d ≠ id) {run : Action Unit}
    {capMs : ℕ} (hshape : run.EveryCall (Shape id capMs)) (x : Choice) :
    let next := run.advance perform x F.world
    F.Leaves ⟨next.2, Function.update F.runs id (some next.1)⟩ d := by
  intro next
  have hworld : F.world.db.LeavesOrEnds d next.2.db := by
    cases run with
    | done a => exact .refl _
    | fail e => exact .refl _
    | call c k =>
        refine Or.inr (perform_frame ?_ x F.world)
        intro hwrites
        have hquiet := writes_of_shape hshape.1
        rw [hwrites] at hquiet
        exact hid (by simpa using hquiet)
  exact ⟨hworld, congrFun (jobs_advance hshape x F.world) d,
    Function.update_of_ne hid _ _⟩

theorem leaves_statement (F : Floor) (s : Statement) (d : Uuid) :
    F.Leaves (F.set (s.run F.world)) d :=
  ⟨leavesOrEnds_statement s F.world d, rfl, rfl⟩

/-- An event about another job leaves the Delivery alone or deletes its row. -/
theorem leaves_after {dateParse : String → Option Instant} {F : Floor}
    (hruns : ∀ id run, F.runs id = some run →
      run.EveryCall (Shape id deps.backoffMaxMs))
    {event : FloorEvent} (hd : event.job? ≠ some d) :
    F.Leaves (F.after dateParse deps event) d := by
  have hne {id : Uuid} (h : event.job? = some id) : d ≠ id :=
    fun hid => hd (hid ▸ h)
  cases event with
  | take id =>
      simp only [after]
      split
      · split
        · exact F.leaves_setJob (hne rfl) _ _
        · exact .refl F d
      · exact .refl F d
  | work id x =>
      simp only [after]
      split
      · exact .refl F d
      next run hrun => exact F.leaves_work (hne rfl) (hruns id run hrun) x
  | settle id =>
      simp only [after]
      split
      · split
        · exact F.leaves_setJob (hne rfl) _ _
        · exact .refl F d
      · exact .refl F d
  | statement s => exact F.leaves_statement s d

/-- An event about a job that is not there does nothing. -/
theorem after_of_none {dateParse : String → Option Instant} {F : Floor}
    (hjob : F.world.jobs d = none) (hrun : F.runs d = none)
    {event : FloorEvent} (hd : event.job? = some d) :
    F.after dateParse deps event = F := by
  cases event with
  | take id =>
      cases hd
      simp [after, hjob]
  | work id x =>
      cases hd
      simp [after, hrun]
  | settle id =>
      cases hd
      simp [after, hjob]
  | statement s => cases hd

/-- An event about the job of a Delivery keeps it in order. -/
theorem Placed.after {dateParse : String → Option Instant}
    (hF : F.Placed deps d job) {event : FloorEvent} (hd : event.job? = some d)
    (hx : event.Faultless) :
    ∃ job', (F.after dateParse deps event).Placed deps d job' := by
  cases event with
  | take id =>
      cases hd
      simp only [Floor.after, hF.stored]
      split
      next job' _ hjob =>
        cases hjob
        split
        next hstate =>
          rw [hF.data]
          exact ⟨job.take, Function.update_self _ _ _, hF.attempts, hF.data,
            hF.consistent, hF.stands.take hstate⟩
        next => exact ⟨job, hF⟩
      next => exact ⟨job, hF⟩
  | work id x =>
      cases hd
      simp only [Floor.after]
      split
      next => exact ⟨job, hF⟩
      next run hrun =>
        obtain ⟨hstands, hcons⟩ := hF.stands.work hrun hF.consistent hx
        have hshape := hF.stands.shape hrun
        exact ⟨job, (congrFun (jobs_advance hshape x F.world) d).trans
          hF.stored, hF.attempts, hF.data, hcons, hstands⟩
  | settle id =>
      cases hd
      simp only [Floor.after, hF.stored]
      split
      next run job' hrun hjob =>
        cases hjob
        split
        next r hr =>
          have hsame : (job.settle r).attempts = job.attempts ∧
              (job.settle r).data = job.data := by cases r <;> exact ⟨rfl, rfl⟩
          exact ⟨job.settle r, Function.update_self _ _ _,
            hsame.1.trans hF.attempts,
            (congrArg DeliveryWorkItem.deliveryId hsame.2).trans hF.data,
            hF.consistent, hF.stands.settle hF.attempts hrun hr⟩
        next => exact ⟨job, hF⟩
      next => exact ⟨job, hF⟩
  | statement s => cases hd

end Floor

end WebhookBroadcast
