import WebhookBroadcast.Lifecycle.Refinement
import WebhookBroadcast.Worker.ProcessDelivery

/-!
# The calls of a run

Which calls a `processDelivery` run makes, and how it goes on after those that
decide its fate.  These facts are about the program alone: they hold whatever
the calls answer, and so in every state and every interleaving.
-/

namespace WebhookBroadcast

open Interaction

/-- The calls of the `try` block. -/
def Call.Dials : Call → Prop
  | .fetch _ => True
  | .drainBody => True
  | .now => True
  | .hrtime => True
  | _ => False

/-- The statements of `maybeAutoDisableEndpoint`. -/
def Call.OnEndpoint : Call → Prop
  | .query (.selectEndpointEnablement _) => True
  | .query (.selectLastSuccess _) => True
  | .query (.selectStreakStart _ _) => True
  | .query (.stampAutoDisabled _ _) => True
  | _ => False

/-- Every call of the program is of one kind. -/
def MakesOnly (kind : Call → Prop) {α : Type} (p : Action α) : Prop :=
  p.EveryCall fun c _ => kind c

namespace MakesOnly

variable {kind : Call → Prop} {α β : Type}

theorem bind {p : Action α} {f : α → Action β} (hp : MakesOnly kind p)
    (hf : ∀ a, MakesOnly kind (f a)) : MakesOnly kind (p >>= f) :=
  Program.EveryCall.bind (fun _ _ h => h) (fun a _ => hf a) hp
    Program.EveryEnd.trivial

theorem done (a : α) : MakesOnly kind (Program.done a) := trivial

theorem call {c : Call} (h : kind c) :
    MakesOnly kind (Program.call c Program.done : Action c.Answer) :=
  ⟨h, fun _ => trivial⟩

theorem query {q : Query} (h : kind (.query q)) :
    MakesOnly kind (query q) := by
  refine ⟨h, ?_⟩
  intro answer
  cases answer with
  | ok result => trivial
  | error e => trivial

theorem computeBackoffDelayMs (input : BackoffInput) :
    MakesOnly (· = .random) (computeBackoffDelayMs input) := by
  unfold WebhookBroadcast.computeBackoffDelayMs
  split
  · exact done _
  · exact bind (call rfl) fun _ => done _

theorem readRetryAfterMs (dateParse : String → Option Instant)
    (status : ℕ) (retryAfter : Option String) :
    MakesOnly Call.Dials (readRetryAfterMs dateParse status retryAfter) := by
  unfold WebhookBroadcast.readRetryAfterMs
  split
  · exact bind (call trivial) fun _ => done _
  · exact done _

theorem dialEndpoint (dateParse : String → Option Instant)
    (deps : ProcessDeliveryDeps) (record : DeliveryForProcessing) :
    MakesOnly Call.Dials (dialEndpoint dateParse deps record) := by
  apply bind (call trivial)
  intro startedAt
  apply bind (call trivial)
  intro reply
  cases reply with
  | failure aborted message => exact bind (call trivial) fun _ => done _
  | response status retryAfter =>
      apply bind (readRetryAfterMs dateParse status retryAfter)
      intro retryAfterMs
      exact bind (call trivial) fun _ => bind (call trivial) fun _ => done _

theorem maybeAutoDisableEndpoint (endpointId : Uuid)
    (autoDisableAfterMs : ℕ) (now : Instant) :
    MakesOnly Call.OnEndpoint
      (maybeAutoDisableEndpoint endpointId autoDisableAfterMs now) := by
  apply bind (query trivial)
  intro endpoint
  cases endpoint with
  | none => exact done _
  | some endpoint =>
      dsimp only
      split
      · exact done _
      · apply bind (query trivial)
        intro lastSuccess
        apply bind (query trivial)
        intro streakStart
        cases streakStart with
        | none => exact done _
        | some start =>
            dsimp only
            split
            · exact done _
            · exact query trivial

end MakesOnly

/-! ## What an Attempt observes -/

/-- One of status code and error is there, and the other is not; a wish to
retry later does not lie in the past. -/
structure HttpAttempt.Observed (attempt : HttpAttempt) : Prop where
  exclusive : attempt.statusCode.isSome = attempt.error.isNone
  retryAfterMs_nonneg : ∀ ms, attempt.retryAfterMs = some ms → 0 ≤ ms

theorem readRetryAfterMs_nonneg (dateParse : String → Option Instant)
    (status : ℕ) (retryAfter : Option String) :
    (readRetryAfterMs dateParse status retryAfter).EveryEnd fun r =>
      ∃ retryAfterMs, r = .ok retryAfterMs ∧
        ∀ ms, retryAfterMs = some ms → 0 ≤ ms := by
  unfold readRetryAfterMs
  split
  · intro at_
    exact ⟨_, rfl, fun ms hms => parseRetryAfterMs_nonneg hms⟩
  · exact ⟨none, rfl, fun ms hms => by cases hms⟩

theorem dialEndpoint_observed (dateParse : String → Option Instant)
    (deps : ProcessDeliveryDeps) (record : DeliveryForProcessing) :
    (dialEndpoint dateParse deps record).EveryEnd fun r =>
      ∃ attempt, r = .ok attempt ∧ attempt.Observed := by
  intro startedAt reply
  cases reply with
  | failure aborted message =>
      intro endedAt
      exact ⟨_, rfl, rfl, fun ms hms => by cases hms⟩
  | response status retryAfter =>
      change (readRetryAfterMs dateParse status retryAfter >>= _).EveryEnd _
      refine Program.EveryEnd.bind ?_ ?_
        (readRetryAfterMs_nonneg dateParse status retryAfter)
      · rintro retryAfterMs ⟨_, hok, hms⟩ drained endedAt
        cases hok
        exact ⟨_, rfl, rfl, hms⟩
      · rintro e ⟨_, herror, _⟩
        cases herror

/-! ## Ends that ask for another run -/

/-- A `RetryableDeliveryError` with a delay between zero and the cap. -/
def AsksForRetry (capMs : ℕ) {α : Type} (r : Except Thrown α) : Prop :=
  ∃ message delayMs, r = .error (.retryableDeliveryError message delayMs) ∧
    0 ≤ delayMs ∧ delayMs ≤ capMs

/-- The program needs neither store any more, and all it can do is ask for
another run. -/
structure Retries (capMs : ℕ) {α : Type} (p : Action α) : Prop where
  calls : MakesOnly (· = .random) p
  ends : p.EveryEnd (AsksForRetry capMs)

theorem Retries.bind {capMs : ℕ} {α β : Type} {p : Action α}
    {f : α → Action β} (hp : Retries capMs p) : Retries capMs (p >>= f) where
  calls := Program.EveryCall.bind (fun _ _ h => h)
    (fun a h => by obtain ⟨_, _, h, _⟩ := h; cases h) hp.calls hp.ends
  ends := Program.EveryEnd.bind
    (fun a h => by obtain ⟨_, _, h, _⟩ := h; cases h)
    (fun e h => by
      obtain ⟨message, delayMs, h, hdelay⟩ := h
      cases h
      exact ⟨message, delayMs, rfl, hdelay⟩) hp.ends

theorem computeBackoffDelayMs_bounds {input : BackoffInput}
    (hinput : ∀ ms, input.retryAfterMs = some ms → 0 ≤ ms) :
    (computeBackoffDelayMs input).EveryEnd fun r =>
      ∃ delayMs : ℚ, r = .ok delayMs ∧ 0 ≤ delayMs ∧
        delayMs ≤ input.capMs := by
  unfold computeBackoffDelayMs
  split
  next ms hms =>
    exact ⟨_, rfl, le_min (hinput ms hms) (by positivity), min_le_right _ _⟩
  next =>
    intro draw
    exact ⟨_, rfl, jitteredDelayMs_nonneg input draw,
      jitteredDelayMs_le_cap input draw⟩

/-- Computing a delay and throwing it asks for another run. -/
theorem retries_after_delay (input : BackoffInput)
    (hinput : ∀ ms, input.retryAfterMs = some ms → 0 ≤ ms)
    (message : ℚ → RetryMessage) :
    Retries input.capMs (do
      let delayMs ← computeBackoffDelayMs input
      (Program.fail (.retryableDeliveryError (message delayMs) delayMs) :
        Action Unit)) where
  calls := MakesOnly.bind (MakesOnly.computeBackoffDelayMs input)
    fun _ => trivial
  ends := Program.EveryEnd.bind
    (fun delayMs h => by
      obtain ⟨_, h, hdelay⟩ := h
      cases h
      exact ⟨_, _, rfl, hdelay⟩)
    (fun e h => by obtain ⟨_, h, _⟩ := h; cases h)
    (computeBackoffDelayMs_bounds hinput)

/-- What a release ends in, whatever the release did. -/
theorem retries_notPersisted (deps : ProcessDeliveryDeps) (deliveryId : Uuid)
    (n : ℕ) (dbErr : DbError) (f : Unit → Action Unit) :
    Retries deps.backoffMaxMs ((do
      let delayMs ← computeBackoffDelayMs
        { attemptNumber := n
          baseMs := deps.backoffBaseMs
          capMs := deps.backoffMaxMs }
      (Program.fail (.retryableDeliveryError
        (.notPersisted deliveryId n dbErr delayMs) delayMs) :
          Action Unit)) >>= f) :=
  (retries_after_delay
    { attemptNumber := n
      baseMs := deps.backoffBaseMs
      capMs := deps.backoffMaxMs }
    (fun ms h => by cases h)
    (fun delayMs => .notPersisted deliveryId n dbErr delayMs)).bind

/-- What a retryable attempt ends in, once its outcome is recorded. -/
theorem retries_attemptFailed (deps : ProcessDeliveryDeps) (deliveryId : Uuid)
    (n : ℕ) {attempt : HttpAttempt} (hattempt : attempt.Observed) :
    Retries deps.backoffMaxMs (do
      let delayMs ← computeBackoffDelayMs
        { attemptNumber := n
          baseMs := deps.backoffBaseMs
          capMs := deps.backoffMaxMs
          retryAfterMs := attempt.retryAfterMs }
      (Program.fail (.retryableDeliveryError
        (.attemptFailed deliveryId n attempt.statusCode attempt.error delayMs)
        delayMs) : Action Unit)) :=
  retries_after_delay
    { attemptNumber := n
      baseMs := deps.backoffBaseMs
      capMs := deps.backoffMaxMs
      retryAfterMs := attempt.retryAfterMs }
    hattempt.retryAfterMs_nonneg
    (fun delayMs => .attemptFailed deliveryId n attempt.statusCode
      attempt.error delayMs)

/-! ## The shape of a run -/

/-- What a run of the Delivery does at a call: its statements are about that
Delivery or about an Endpoint; a claim that finds the row pending is the end of
it; and after a release, or an outcome that leaves the row pending, it only
asks for another run. -/
def Shape (deliveryId : Uuid) (capMs : ℕ) :
    (c : Call) → (c.Answer → Action Unit) → Prop
  | .query (.getDeliveryForProcessing id), _ => id = deliveryId
  | .query (.claimPendingDelivery id _), _ => id = deliveryId
  | .query (.selectDeliveryStatus id), k =>
      id = deliveryId ∧ k (.ok (some .pending)) = .done ()
  | .query (.resetInProgressDeliveryToPending id _), k =>
      id = deliveryId ∧ ∀ released, Retries capMs (k (.ok released))
  | .query (.completeDelivery input), k =>
      input.deliveryId = deliveryId ∧
        (¬ input.status.Terminal → Retries capMs (k (.ok ())))
  | .random, k => ∀ draw, Retries capMs (k draw)
  | c, _ => c.Dials ∨ c.OnEndpoint

theorem shape_of_dials {deliveryId : Uuid} {capMs : ℕ} {c : Call}
    (h : c.Dials) (k : c.Answer → Action Unit) :
    Shape deliveryId capMs c k := by
  cases c with
  | query q => cases h
  | queue q => cases h
  | random => cases h
  | randomUUID => cases h
  | _ => exact Or.inl h

theorem shape_of_onEndpoint {deliveryId : Uuid} {capMs : ℕ} {c : Call}
    (h : c.OnEndpoint) (k : c.Answer → Action Unit) :
    Shape deliveryId capMs c k := by
  cases c with
  | query q =>
      cases q with
      | selectEndpointEnablement _ => exact Or.inr h
      | selectLastSuccess _ => exact Or.inr h
      | selectStreakStart _ _ => exact Or.inr h
      | stampAutoDisabled _ _ => exact Or.inr h
      | _ => cases h
  | _ => cases h

/-- A program that only asks for another run has the shape of a run. -/
theorem Retries.shape {deliveryId : Uuid} {capMs : ℕ} {p : Action Unit}
    (hp : Retries capMs p) : p.EveryCall (Shape deliveryId capMs) := by
  induction p with
  | done a => trivial
  | fail e => trivial
  | call c k ih =>
      obtain ⟨hcalls, hends⟩ := hp
      have hrest (a : c.Answer) : Retries capMs (k a) :=
        ⟨hcalls.2 a, hends a⟩
      refine ⟨?_, fun a => ih a (hrest a)⟩
      have hrandom : c = .random := hcalls.1
      subst hrandom
      exact hrest

section Shape

variable {deliveryId : Uuid} {deps : ProcessDeliveryDeps}

/-- The calls of a sequence that begins with a statement. -/
theorem everyCall_query
    {φ : (c : Call) → (c.Answer → Action Unit) → Prop} {q : Query}
    {f : q.Result → Action Unit}
    (hcall : ∀ k, (∀ result, k (.ok result) = f result) → φ (.query q) k)
    (hf : ∀ result, (f result).EveryCall φ) :
    (query q >>= f).EveryCall φ := by
  refine ⟨hcall _ fun result => rfl, ?_⟩
  intro answer
  cases answer with
  | ok result => exact hf result
  | error e => trivial

theorem shape_markDeliveryInProgress {updatedAt : Instant}
    {f : Bool → Action Unit} (hfalse : f false = .done ())
    (hf : (f true).EveryCall (Shape deliveryId deps.backoffMaxMs)) :
    (markDeliveryInProgress deliveryId updatedAt >>= f).EveryCall
      (Shape deliveryId deps.backoffMaxMs) := by
  have hcont (claimed : Bool) :
      (f claimed).EveryCall (Shape deliveryId deps.backoffMaxMs) := by
    cases claimed with
    | true => exact hf
    | false => rw [hfalse]; trivial
  refine ⟨rfl, ?_⟩
  intro answer
  cases answer with
  | error e => trivial
  | ok claimed =>
      cases claimed with
      | true => exact hf
      | false =>
          refine ⟨⟨rfl, hfalse⟩, ?_⟩
          intro existing
          cases existing with
          | error e => trivial
          | ok status => exact hcont _

theorem shape_releaseClaim {n : ℕ} {at_ : Instant} {dbErr : DbError}
    (f : Unit → Action Unit) :
    (releaseClaim deps deliveryId n at_ dbErr >>= f).EveryCall
      (Shape deliveryId deps.backoffMaxMs) := by
  have hretries := retries_notPersisted deps deliveryId n dbErr f
  refine ⟨⟨rfl, fun _ => hretries⟩, ?_⟩
  intro answer
  cases answer with
  | error e => trivial
  | ok released => exact hretries.shape

theorem shape_finishAttempt {n : ℕ} {attempt : HttpAttempt} {at_ : Instant}
    {status : DeliveryStatus} {f : Unit → Action Unit}
    (hf : (f ()).EveryCall (Shape deliveryId deps.backoffMaxMs))
    (hpending : ¬ status.Terminal → Retries deps.backoffMaxMs (f ())) :
    (finishAttempt deps deliveryId n attempt at_ status >>= f).EveryCall
      (Shape deliveryId deps.backoffMaxMs) := by
  refine ⟨⟨rfl, hpending⟩, ?_⟩
  intro answer
  cases answer with
  | ok result => exact hf
  | error dbErr => exact shape_releaseClaim f

theorem shape_maybeAutoDisableEndpoint (endpointId : Uuid)
    (autoDisableAfterMs : ℕ) (now : Instant) :
    (do
      let _ ← maybeAutoDisableEndpoint endpointId autoDisableAfterMs now
      return ()).EveryCall (Shape deliveryId deps.backoffMaxMs) := by
  refine Program.EveryCall.bind (fun _ _ h => shape_of_onEndpoint h _) ?_
    (MakesOnly.maybeAutoDisableEndpoint _ _ _) Program.EveryEnd.trivial
  exact fun _ _ => trivial

theorem shape_settleAttempt {record : DeliveryForProcessing} {n : ℕ}
    {attempt : HttpAttempt} {at_ : Instant} (hattempt : attempt.Observed) :
    (settleAttempt deps record deliveryId n attempt at_).EveryCall
      (Shape deliveryId deps.backoffMaxMs) := by
  unfold settleAttempt
  split
  · rw [← Program.bind_done (finishAttempt _ _ _ _ _ _)]
    exact shape_finishAttempt trivial fun h => absurd (Or.inl rfl) h
  · split
    · exact shape_finishAttempt (shape_maybeAutoDisableEndpoint _ _ _)
        fun h => absurd (Or.inr (Or.inl rfl)) h
    · split
      · exact shape_finishAttempt (shape_maybeAutoDisableEndpoint _ _ _)
          fun h => absurd (Or.inr (Or.inr rfl)) h
      · have hretries := retries_attemptFailed deps deliveryId n hattempt
        exact shape_finishAttempt hretries.shape fun _ => hretries

theorem shape_processDelivery (dateParse : String → Option Instant) :
    (processDelivery dateParse deps deliveryId).EveryCall
      (Shape deliveryId deps.backoffMaxMs) := by
  apply everyCall_query (fun k _ => rfl)
  intro record
  cases record with
  | none => trivial
  | some record =>
      by_cases hguard : record.status ≠ .pending ∧
          record.status ≠ .inProgress
      · simp only [if_pos hguard]
        trivial
      · simp only [if_neg hguard]
        refine ⟨Or.inl trivial, fun claimedAt => ?_⟩
        apply shape_markDeliveryInProgress rfl
        refine Program.EveryCall.bind (fun _ _ h => shape_of_dials h _) ?_
          (MakesOnly.dialEndpoint dateParse deps record)
          (dialEndpoint_observed dateParse deps record)
        rintro attempt ⟨_, hok, hattempt⟩
        cases hok
        exact ⟨Or.inl trivial, fun at_ => shape_settleAttempt hattempt⟩

end Shape

/-! ## What a run writes -/

theorem writes_of_dials {c : Call} (h : c.Dials) : c.writes = none := by
  cases c with
  | query q => cases h
  | _ => rfl

theorem writes_of_onEndpoint {c : Call} (h : c.OnEndpoint) :
    c.writes = none := by
  cases c with
  | query q => cases q <;> first | rfl | cases h
  | _ => cases h

theorem writes_of_shape {deliveryId : Uuid} {capMs : ℕ} {c : Call}
    {k : c.Answer → Action Unit} (h : Shape deliveryId capMs c k) :
    c.writes = none ∨ c.writes = some deliveryId := by
  cases c with
  | query q =>
      cases q with
      | claimPendingDelivery id _ => exact Or.inr (congrArg some h)
      | resetInProgressDeliveryToPending id _ =>
          exact Or.inr (congrArg some h.1)
      | completeDelivery input => exact Or.inr (congrArg some h.1)
      | retryDeadLetteredDelivery id _ => rcases h with h | h <;> cases h
      | _ => exact Or.inl rfl
  | _ => exact Or.inl rfl

theorem not_queue_of_shape {d : Uuid} {capMs : ℕ} {c : Call}
    {k : c.Answer → Action Unit} (h : Shape d capMs c k) (q : QueueCall) :
    c ≠ .queue q := by
  rintro rfl
  rcases h with h | h
  · cases h
  · cases h

end WebhookBroadcast
