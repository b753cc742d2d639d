import WebhookBroadcast.Worker.Guarantees

/-!
# Histories of a Delivery

The system in which Deliveries live: any number of `processDelivery` runs, each
with its own settings and started at any time, stepping in any order, dying at
any call; operator retries and retention sweeps in between.  A history is a
list of such events, and what is proved of all histories is proved of all
interleavings.
-/

namespace WebhookBroadcast

open Interaction Timeline

/-! ## The system -/

/-- One call of `processDelivery`. -/
structure Task where
  deps : ProcessDeliveryDeps
  deliveryId : Uuid

/-- What changes the database besides the worker. -/
inductive Background where
  | retry (deliveryId : Uuid) (updatedAt : Instant)
  | sweep (cutoff : Instant)
deriving DecidableEq

def Background.run : Background → World → World
  | retry deliveryId updatedAt, w =>
      { w with db := (retryDeadLetteredDelivery w.db deliveryId updatedAt).2 }
  | sweep cutoff, w =>
      { w with db := deleteBroadcastsReceivedBefore w.db cutoff }

abbrev History := List (Event Task Choice Background)

def workers (dateParse : String → Option Instant) :
    System Effects Thrown Unit Task Choice Background World where
  handler := perform
  program task := processDelivery dateParse task.deps task.deliveryId
  background := Background.run

/-- The pool that a history leads to from world `w`. -/
def after (dateParse : String → Option Instant) (w : World)
    (history : History) : Pool Effects Thrown Unit Task World :=
  (workers dateParse).exec (Pool.idle w) history

/-- The database that a history leads to from world `w`. -/
def reached (dateParse : String → Option Instant) (w : World)
    (history : History) : Database :=
  (after dateParse w history).state.db

theorem after_concat (dateParse : String → Option Instant) (w : World)
    (history : History) (e : Event Task Choice Background) :
    after dateParse w (history ++ [e]) =
      (workers dateParse).apply (after dateParse w history) e :=
  System.exec_concat _ _ _ _

theorem after_append (dateParse : String → Option Instant) (w : World)
    (history later : History) :
    after dateParse w (history ++ later) =
      (workers dateParse).exec (after dateParse w history) later :=
  System.exec_append _ _ _ _

/-- A Delivery as fan-out creates it. -/
def Database.Fresh (db : Database) (deliveryId : Uuid) : Prop :=
  ∃ row, db.delivery? deliveryId = some row ∧
    row.progress = ⟨.pending, 0, none, none, none⟩ ∧
    db.attemptLog deliveryId = []

namespace Database.Fresh

variable {db : Database} {deliveryId : Uuid}

theorem timeline?_eq (h : db.Fresh deliveryId) :
    db.timeline? deliveryId = some ⟨.pending, []⟩ := by
  obtain ⟨row, hrow, hprogress, hlog⟩ := h
  have hstatus : row.status = .pending :=
    congrArg Progress.status hprogress
  simp [timeline?_eq_some hrow, DeliveryRow.timeline, hlog, hstatus]

theorem consistent (h : db.Fresh deliveryId) : db.Consistent deliveryId := by
  obtain ⟨row, hrow, hprogress, hlog⟩ := h
  intro row' hrow'
  rw [hrow] at hrow'
  cases hrow'
  have hstatus : row.status = .pending :=
    congrArg Progress.status hprogress
  have hcount : row.attemptCount = 0 :=
    congrArg Progress.attemptCount hprogress
  rw [hlog]
  constructor
  · simp [hcount]
  · simp [hprogress, Timeline.progress, hstatus]

end Database.Fresh

theorem fresh_ofTimeline (deliveryId : Uuid) :
    (Database.ofTimeline deliveryId ⟨.pending, []⟩).Fresh deliveryId :=
  ⟨_, Database.delivery?_ofTimeline _ _, rfl,
    Database.attemptLog_ofTimeline _ _⟩

/-! ## The system upholds the discipline of every Delivery -/

/-- An operator retry of the Delivery that will return true. -/
def acceptsRetry (d : Uuid) (db : Database) :
    Event Task Choice Background → Bool
  | .background (.retry deliveryId updatedAt) =>
      deliveryId = d && (retryDeadLetteredDelivery db d updatedAt).1
  | _ => false

theorem acceptsRetry_eq_true_iff {d : Uuid} {db : Database}
    {e : Event Task Choice Background} :
    acceptsRetry d db e = true ↔
      ∃ updatedAt, e = .background (.retry d updatedAt) ∧
        (retryDeadLetteredDelivery db d updatedAt).1 = true := by
  constructor
  · intro h
    match e, h with
    | .background (.retry deliveryId updatedAt), h =>
        simp only [acceptsRetry, Bool.and_eq_true, decide_eq_true_eq] at h
        obtain ⟨rfl, htrue⟩ := h
        exact ⟨updatedAt, rfl, htrue⟩
  · rintro ⟨updatedAt, rfl, htrue⟩
    simp [acceptsRetry, htrue]

theorem Background.consistent {d : Uuid} {w : World} (b : Background)
    (hw : w.db.Consistent d) : (b.run w).db.Consistent d := by
  cases b with
  | retry deliveryId updatedAt =>
      by_cases hid : d = deliveryId
      · subst hid
        exact hw.moveStatus
      · exact hw.congr (delivery?_moveStatus_of_ne hid) rfl
  | sweep cutoff =>
      rcases w.db.delivery?_deleteBroadcasts _ d with h | ⟨hrow, hlog⟩
      · exact Database.Consistent.of_none h
      · exact hw.congr hrow hlog

/-- A background event is an accepted retry, or the end of the Delivery at the
hands of retention, or nothing to its timeline. -/
theorem Background.timeline?_cases (d : Uuid) (w : World) (b : Background) :
    (acceptsRetry d w.db (.background b) = true ∧
      ∃ t u, w.db.timeline? d = some t ∧
        (b.run w).db.timeline? d = some u ∧ Reopens t u) ∨
    (acceptsRetry d w.db (.background b) = false ∧
      ((∃ cutoff, b = .sweep cutoff) ∧ (b.run w).db.timeline? d = none ∨
        (b.run w).db.timeline? d = w.db.timeline? d)) := by
  cases b with
  | retry deliveryId updatedAt =>
      by_cases hid : d = deliveryId
      · subst hid
        have hcases := @retryDeadLetteredDelivery_cases w.db d updatedAt
        rcases hcases with ⟨h, hreopens⟩ | ⟨h, hsame⟩
        · exact Or.inl ⟨by simp [acceptsRetry, h], hreopens⟩
        · exact Or.inr ⟨by simp [acceptsRetry, h], Or.inr hsame⟩
      · refine Or.inr ⟨by simp [acceptsRetry, Ne.symm hid], Or.inr ?_⟩
        exact Database.timeline?_congr (delivery?_moveStatus_of_ne hid) rfl
  | sweep cutoff =>
      refine Or.inr ⟨rfl, ?_⟩
      rcases w.db.delivery?_deleteBroadcasts
        (fun row => row.receivedAt < cutoff) d with h | ⟨hrow, hlog⟩
      · exact Or.inl ⟨⟨cutoff, rfl⟩, Database.timeline?_eq_none_iff.mpr h⟩
      · exact Or.inr (Database.timeline?_congr hrow hlog)

namespace Regime

variable (R : Regime) (d : Uuid)

/-- Runs of the Delivery keep to the budgets of the regime. -/
def Startable (task : Task) : Prop :=
  task.deliveryId = d → task.deps.maxAttempts ∈ R.budgets

/-- Retries of the Delivery occur only where the regime allows them. -/
def Occurs (b : Background) : Prop :=
  R.reopens ∨ ∀ updatedAt, b ≠ .retry d updatedAt

/-- What is known of a run that has ended. -/
def ended (task : Task) (r : Except Thrown Unit) (w : World) : Prop :=
  task.deliveryId = d → R.resolves d r w

theorem workers_uphold (dateParse : String → Option Instant) :
    (workers dateParse).Upholds (R.discipline d) (R.ended d)
      (R.Startable d) (R.Occurs d) where
  handler_eq := rfl
  program_ensures := by
    intro task htask w
    by_cases hid : task.deliveryId = d
    · subst hid
      exact (ensures_processDelivery (htask rfl) w).consequence
        fun r w h _ => h
    · exact (ensures_quiet (Quiet.of_shape hid
        (shape_processDelivery dateParse)) w).consequence
        fun r w _ h => absurd h hid
  guarantee_rely := fun w w' h => .change h
  background_invariant := fun b w _ hw => b.consistent hw
  background_rely := by
    intro b w hoccurs _
    change Evolves R.budgets R.reopens (w.db.timeline? d)
      ((b.run w).db.timeline? d)
    rcases b.timeline?_cases d w with
      ⟨haccepts, t, u, ht, hu, h⟩ | ⟨_, ⟨_, h⟩ | h⟩
    · rw [ht, hu]
      obtain ⟨updatedAt, hb, _⟩ := acceptsRetry_eq_true_iff.mp haccepts
      refine .reopen (hoccurs.resolve_right fun hother => ?_) h
      exact hother updatedAt (Event.background.inj hb)
    · rw [h]
      exact .vanish _
    · rw [h]
      exact .change (.stay _)

/-- The discipline holds after every history that it provides for. -/
theorem sound_after (dateParse : String → Option Instant) {w : World}
    (hw : w.db.Fresh d) {history : History}
    (hrun : (workers dateParse).AdmissibleRun (R.discipline d)
      (R.Startable d) (R.Occurs d) (Pool.idle w) history) :
    System.Sound (R.discipline d) (R.ended d)
      (after dateParse w history) :=
  (R.workers_uphold d dateParse).exec (.idle hw.consistent) hrun

/-- What one event does to the timeline: an accepted retry reopens it,
retention may end it, and all else is at most a worker step. -/
theorem timeline?_event_cases {dateParse : String → Option Instant}
    {e : Event Task Choice Background} {w w' : World}
    (htrans : (workers dateParse).Transition (R.discipline d) e w w') :
    (acceptsRetry d w.db e = true ∧
      ∃ t u, w.db.timeline? d = some t ∧ w'.db.timeline? d = some u ∧
        Reopens t u) ∨
    (acceptsRetry d w.db e = false ∧
      ((∃ cutoff, e = .background (.sweep cutoff)) ∧
          w'.db.timeline? d = none ∨
        Change R.budgets (w.db.timeline? d) (w'.db.timeline? d))) := by
  cases e with
  | start task =>
      have hsame : w' = w := htrans
      rw [hsame]
      exact Or.inr ⟨rfl, Or.inr (.stay _)⟩
  | step i x =>
      rcases htrans with hsame | hguarantee
      · rw [hsame]
        exact Or.inr ⟨rfl, Or.inr (.stay _)⟩
      · exact Or.inr ⟨rfl, Or.inr hguarantee⟩
  | background b =>
      have hrun : w' = b.run w := htrans
      rw [hrun]
      rcases b.timeline?_cases d w with
        h | ⟨hrefused, ⟨⟨cutoff, rfl⟩, hnone⟩ | hsame⟩
      · exact Or.inl h
      · exact Or.inr ⟨hrefused, Or.inl ⟨⟨cutoff, rfl⟩, hnone⟩⟩
      · rw [hsame]
        exact Or.inr ⟨hrefused, Or.inr (.stay _)⟩

/-- The regime that every history conforms to. -/
def any : Regime := ⟨Set.univ, True, True⟩

theorem admissible_any (dateParse : String → Option Instant)
    (P : Pool Effects Thrown Unit Task World) (history : History) :
    (workers dateParse).AdmissibleRun (any.discipline d) (any.Startable d)
      (any.Occurs d) P history := by
  apply System.AdmissibleRun.of_forall_mem
  intro e _ Q
  cases e with
  | start task => exact fun _ => Set.mem_univ _
  | step i x => exact fun _ _ _ _ _ => Or.inl trivial
  | background b => exact Or.inl trivial

end Regime

theorem consistent_reached (dateParse : String → Option Instant) {d : Uuid}
    {w : World} (hw : w.db.Fresh d) (history : History) :
    (reached dateParse w history).Consistent d :=
  (Regime.any.sound_after d dateParse hw
    (Regime.admissible_any d dateParse _ history)).invariant

/-- What every call of `processDelivery` satisfies is satisfied by every call
of every run of a history. -/
theorem everyCall_after {dateParse : String → Option Instant}
    {φ : Task → (c : Call) → (c.Answer → Action Unit) → Prop}
    (hφ : ∀ task, (processDelivery dateParse task.deps
      task.deliveryId).EveryCall (φ task)) (w : World) (history : History) :
    ∀ run ∈ (after dateParse w history).runs,
      run.program.EveryCall (φ run.task) := by
  refine System.exec_forall_runs (workers dateParse)
    (motive := fun task p => p.EveryCall (φ task)) hφ ?_ ?_ history
  · exact fun task p x s hp => hp.advance perform x s
  · simp [Pool.idle]

/-- Every run of a history has the shape of its task's run. -/
theorem shape_after (dateParse : String → Option Instant) (w : World)
    (history : History) :
    ∀ run ∈ (after dateParse w history).runs,
      run.program.EveryCall
        (Shape run.task.deliveryId run.task.deps.backoffMaxMs) :=
  everyCall_after (φ := fun task => Shape task.deliveryId task.deps.backoffMaxMs)
    (fun _ => shape_processDelivery dateParse) w history

end WebhookBroadcast
