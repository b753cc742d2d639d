import Mathlib.Algebra.Order.Field.Rat
import WebhookBroadcast.Db.Schema

/-!
# Job store

The part of BullMQ that the delivery queue uses.  A job is stored under its
Delivery id.  Adding an id that is present, in whatever state, changes nothing.
A job is active from the moment a worker takes it until the promise of its
processor settles; it is then completed, scheduled for another run, or failed
for good.
-/

namespace WebhookBroadcast

/-- The payload of a delivery job. -/
structure DeliveryWorkItem where
  deliveryId : Uuid
  requestId : Uuid
  channelId : Uuid
  broadcastId : Uuid
  endpointId : Uuid
deriving DecidableEq

/-- The states of a job. -/
inductive JobState where
  | waiting
  | delayed
  | active
  | completed
  | failed
deriving DecidableEq, Repr

/-- A job that will not run again by itself. -/
def JobState.Finished (s : JobState) : Prop := s = completed ∨ s = failed

instance (s : JobState) : Decidable s.Finished :=
  inferInstanceAs (Decidable (_ ∨ _))

/-- A job: its state, the runs started so far, the runs allowed in all
(`opts.attempts`) and its payload. -/
structure Job where
  state : JobState
  runs : ℕ
  attempts : ℕ
  data : DeliveryWorkItem
deriving DecidableEq

/-- A job as `add` creates it. -/
def Job.added (attempts : ℕ) (data : DeliveryWorkItem) : Job :=
  ⟨.waiting, 0, attempts, data⟩

/-- A worker takes the job. -/
def Job.take (job : Job) : Job :=
  { job with state := .active, runs := job.runs + 1 }

/-- The processor resolved. -/
def Job.complete (job : Job) : Job := { job with state := .completed }

/-- The processor rejected, and the backoff strategy answered `delay`: the job
runs again while runs are left and the delay is not negative. -/
def Job.reject (job : Job) (delay : ℚ) : Job :=
  { job with
    state :=
      if job.runs < job.attempts ∧ 0 ≤ delay then
        if delay = 0 then .waiting else .delayed
      else .failed }

theorem Job.reject_finished_iff (job : Job) (delay : ℚ) :
    (job.reject delay).state.Finished ↔
      ¬ (job.runs < job.attempts ∧ 0 ≤ delay) := by
  unfold Job.reject
  by_cases h : job.runs < job.attempts ∧ 0 ≤ delay
  · by_cases h0 : delay = 0
    · simp [h, h0, JobState.Finished]
    · simp [h, h0, JobState.Finished]
  · simp [h, JobState.Finished]

/-- The stored jobs, by id. -/
abbrev JobStore := Uuid → Option Job

namespace JobStore

/-- `queue.add`. -/
def add (jobs : JobStore) (jobId : Uuid) (attempts : ℕ)
    (data : DeliveryWorkItem) : JobStore :=
  match jobs jobId with
  | some _ => jobs
  | none => Function.update jobs jobId (some (Job.added attempts data))

/-- `queue.remove`: an active job is locked and stays. -/
def remove (jobs : JobStore) (jobId : Uuid) : JobStore :=
  match jobs jobId with
  | some job =>
      if job.state = .active then jobs else Function.update jobs jobId none
  | none => jobs

theorem add_of_some {jobs : JobStore} {jobId : Uuid} {job : Job}
    (h : jobs jobId = some job) (attempts : ℕ) (data : DeliveryWorkItem) :
    jobs.add jobId attempts data = jobs := by
  simp [add, h]

theorem add_of_none {jobs : JobStore} {jobId : Uuid}
    (h : jobs jobId = none) (attempts : ℕ) (data : DeliveryWorkItem) :
    jobs.add jobId attempts data jobId =
      some (Job.added attempts data) := by
  simp [add, h]

theorem add_of_ne (jobs : JobStore) {jobId id : Uuid} (h : jobId ≠ id)
    (attempts : ℕ) (data : DeliveryWorkItem) :
    jobs.add jobId attempts data id = jobs id := by
  cases hjob : jobs jobId with
  | some job => rw [add_of_some hjob]
  | none => simp [add, hjob, Function.update_of_ne h.symm]

theorem remove_self_of_finished {jobs : JobStore} {jobId : Uuid} {job : Job}
    (h : jobs jobId = some job) (hfin : job.state.Finished) :
    jobs.remove jobId jobId = none := by
  have hne : job.state ≠ .active := by
    rcases hfin with hfin | hfin <;> simp [hfin]
  simp [remove, h, hne]

/-- `add` makes no job active. -/
theorem add_active_iff (jobs : JobStore) (jobId : Uuid) (attempts : ℕ)
    (data : DeliveryWorkItem) :
    (jobs.add jobId attempts data jobId).map Job.state = some .active ↔
      (jobs jobId).map Job.state = some .active := by
  cases h : jobs jobId with
  | none =>
      rw [add_of_none h]
      simp [Job.added]
  | some job => rw [add_of_some h, h]

/-- After `remove` there is an active job or none. -/
theorem remove_self (jobs : JobStore) (jobId : Uuid) :
    jobs.remove jobId jobId = none ∧
        (jobs jobId).map Job.state ≠ some .active ∨
      jobs.remove jobId = jobs ∧
        (jobs jobId).map Job.state = some .active := by
  unfold remove
  cases h : jobs jobId with
  | none => simp [h]
  | some job =>
      by_cases hactive : job.state = .active
      · simp [hactive]
      · simp [hactive]

end JobStore

end WebhookBroadcast
