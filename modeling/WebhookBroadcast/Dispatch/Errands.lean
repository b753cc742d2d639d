import WebhookBroadcast.Ingest.Commits
import WebhookBroadcast.Interaction.Embedding
import WebhookBroadcast.Interaction.Monitor
import WebhookBroadcast.Lifecycle.History

/-!
# The errand of an acceptance

A request that accepts a Broadcast commits Deliveries under ids that it has
drawn, once, and does not end before their jobs are queued or the Broadcast is
withdrawn again.  It touches no other jobs.
-/

namespace WebhookBroadcast

open Interaction

/-- What a run has drawn and committed, and whether it has offered the jobs to
the queue, has been told that they are queued, and has asked for its Broadcast
to be deleted. -/
structure Errand where
  drawn : List Uuid := []
  committed : Option Transaction := none
  offered : Bool := false
  queued : Bool := false
  withdrawn : Bool := false

namespace Errand

/-- The run has committed a Delivery with this id. -/
def Commits (s : Errand) (id : Uuid) : Prop :=
  ∃ tx, s.committed = some tx ∧ id ∈ tx.deliveries.map DeliveryRow.id

/-- Nothing has been committed yet. -/
def Open (s : Errand) : Prop :=
  s.committed = none ∧ s.offered = false ∧ s.queued = false ∧
    s.withdrawn = false

/-- What has been committed is queued or withdrawn. -/
def Done (s : Errand) : Prop :=
  ∀ id, s.Commits id → s.queued ∨ s.withdrawn

theorem Open.done {s : Errand} (h : s.Open) : s.Done := by
  rintro id ⟨tx, hcommitted, -⟩
  rw [h.1] at hcommitted
  cases hcommitted

end Errand

/-- A Delivery as `createDeliveriesForBroadcast` inserts it. -/
def DeliveryRow.Initial (row : DeliveryRow) : Prop :=
  row.progress = ⟨.pending, 0, none, none, none⟩

/-- The jobs are those of the Deliveries of the transaction. -/
structure BulkJobsOf (maxAttempts : ℕ) (tx : Transaction)
    (jobs : List BulkJob) : Prop where
  ids : jobs.map BulkJob.jobId = tx.deliveries.map DeliveryRow.id
  attempts : ∀ job ∈ jobs, job.attempts = maxAttempts
  data : ∀ job ∈ jobs, job.data.deliveryId = job.jobId

/-- The monitor of a run that accepts a Broadcast. -/
def errands (maxAttempts : ℕ) : Monitor AcceptEffects Errand where
  next
    | .inl .randomUUID, id, s => { s with drawn := id :: s.drawn }
    | .inr (.query (.commit tx)), .ok (), s => { s with committed := some tx }
    | .inr (.addBulk _), .ok (), s => { s with offered := true, queued := true }
    | .inr (.addBulk _), .error _, s => { s with offered := true }
    | .inr (.query (.deleteBroadcastById _)), _, s =>
        { s with withdrawn := true }
    | _, _, s => s
  allows
    | s, .inr (.query (.commit tx)) => s.Open ∧ tx.Own ∧
        ∀ d ∈ tx.deliveries, d.id ∈ s.drawn ∧ d.Initial
    | s, .inr (.query (.deleteBroadcastById id)) => s.queued = false ∧
        s.withdrawn = false ∧
        ∃ tx, s.committed = some tx ∧ tx.broadcast.id = id
    | s, .inr (.addBulk jobs) => s.offered = false ∧ s.withdrawn = false ∧
        ∃ tx, s.committed = some tx ∧ BulkJobsOf maxAttempts tx jobs
    | s, .inl (.queue (.remove id)) => s.offered = false ∧ s.Commits id
    | _, .inl (.queue (.add _ _ _)) => False
    | _, .inl (.query _) => False
    | _, _ => True

section Rules

variable {maxAttempts : ℕ} {α β : Type} {s : Errand}
  {post : Errand → Except Thrown α → Prop}

/-- Statements other than commits and deletions of Broadcasts pass. -/
def IngestQuery.Reads : IngestQuery → Prop
  | .commit _ => False
  | .deleteBroadcastById _ => False
  | _ => True

end Rules

/-! ## Fan-out -/

section FanOut

variable {maxAttempts : ℕ} {s : Errand}

end FanOut

/-! ## The two routes -/

section Routes

variable {maxAttempts : ℕ} {s : Errand}

end Routes

end WebhookBroadcast
