import WebhookBroadcast.Worker.Calls

/-!
# The way to an auto-disable

A `processDelivery` run issues statements about its Endpoint only after it has
recorded a terminal failure, and then the rest of it is one call of
`maybeAutoDisableEndpoint`.  `Prelude` describes a run before that point and
`Deciding` one after it, together with what its reads have told it.
-/

namespace WebhookBroadcast

open Interaction

/-- A terminal failure. -/
def DeliveryStatus.Fails (s : DeliveryStatus) : Prop :=
  s = failed ∨ s = deadLettered

instance (s : DeliveryStatus) : Decidable s.Fails :=
  inferInstanceAs (Decidable (_ ∨ _))

/-- What a run does after it has recorded a terminal failure. -/
def disableOnFailure (endpointId : Uuid) (autoDisableAfterMs : ℕ)
    (now : Instant) : Action Unit := do
  let _ ← maybeAutoDisableEndpoint endpointId autoDisableAfterMs now
  return ()

/-! ## Before the decision -/

/-- A run before it records a terminal failure, which is the only way for it to
turn to its Endpoint. -/
def Prelude (endpointId : Uuid) (autoDisableAfterMs : ℕ) :
    Action Unit → Prop
  | .done _ => True
  | .fail _ => True
  | .call (.query (.completeDelivery input)) k =>
      (if input.status.Fails then
        k (.ok ()) = disableOnFailure endpointId autoDisableAfterMs input.at_
      else Prelude endpointId autoDisableAfterMs (k (.ok ()))) ∧
        ∀ e, Prelude endpointId autoDisableAfterMs (k (.error e))
  | .call c k =>
      ¬ c.OnEndpoint ∧ ∀ a, Prelude endpointId autoDisableAfterMs (k a)

/-- The call neither records an outcome nor is about an Endpoint. -/
def Call.Prepares : Call → Prop
  | .query (.completeDelivery _) => False
  | c => ¬ c.OnEndpoint

section Prelude

variable {endpointId : Uuid} {ms : ℕ}

theorem prelude_call_iff {c : Call} (hc : c.Prepares)
    {k : c.Answer → Action Unit} :
    Prelude endpointId ms (.call c k) ↔ ∀ a, Prelude endpointId ms (k a) := by
  cases c with
  | query q =>
      cases q with
      | completeDelivery input => exact hc.elim
      | _ => exact and_iff_right hc
  | _ => exact and_iff_right hc

theorem Prelude.bind {kind : Call → Prop} (hkind : ∀ c, kind c → c.Prepares)
    {α : Type} {p : Action α} {f : α → Action Unit} (hp : MakesOnly kind p)
    (hf : ∀ a, Prelude endpointId ms (f a)) :
    Prelude endpointId ms (p >>= f) := by
  induction p with
  | done a => exact hf a
  | fail e => trivial
  | call c k ih =>
      exact (prelude_call_iff (hkind c hp.1)).mpr fun a => ih a (hp.2 a)

theorem prepares_of_dials {c : Call} (h : c.Dials) : c.Prepares := by
  cases c with
  | query q => cases h
  | queue q => cases h
  | random => cases h
  | randomUUID => cases h
  | _ => exact id

theorem prepares_random {c : Call} (h : c = .random) : c.Prepares := by
  subst h
  exact id

/-- The continuation of a statement that is not about the Endpoint. -/
theorem Prelude.query {q : Query} (hq : (Call.query q).Prepares)
    {f : q.Result → Action Unit}
    (hf : ∀ result, Prelude endpointId ms (f result)) :
    Prelude endpointId ms (query q >>= f) :=
  Prelude.bind (fun _ h => h) (MakesOnly.query hq) hf

end Prelude

section Run

variable {deps : ProcessDeliveryDeps} {deliveryId : Uuid}

theorem prelude_releaseClaim {endpointId : Uuid} {ms n : ℕ} {at_ : Instant}
    {dbErr : DbError} (f : Unit → Action Unit) :
    Prelude endpointId ms
      (releaseClaim deps deliveryId n at_ dbErr >>= f) := by
  rw [releaseClaim, Program.bind_assoc]
  refine Prelude.query (q := .resetInProgressDeliveryToPending _ _) id
    fun _ => ?_
  rw [Program.bind_assoc]
  exact Prelude.bind (fun _ => prepares_random)
    (MakesOnly.computeBackoffDelayMs _) fun _ => trivial

theorem prelude_finishAttempt {endpointId : Uuid} {ms n : ℕ}
    {attempt : HttpAttempt} {at_ : Instant} {status : DeliveryStatus}
    {f : Unit → Action Unit}
    (hfails : status.Fails → f () = disableOnFailure endpointId ms at_)
    (hf : ¬ status.Fails → Prelude endpointId ms (f ())) :
    Prelude endpointId ms
      (finishAttempt deps deliveryId n attempt at_ status >>= f) := by
  refine ⟨?_, fun e => prelude_releaseClaim f⟩
  split
  next h => exact hfails h
  next h => exact hf h

theorem prelude_settleAttempt {record : DeliveryForProcessing} {n : ℕ}
    {attempt : HttpAttempt} {at_ : Instant} :
    Prelude record.endpointId deps.endpointAutoDisableAfterMs
      (settleAttempt deps record deliveryId n attempt at_) := by
  unfold settleAttempt
  split
  · rw [← Program.bind_done (finishAttempt _ _ _ _ _ _)]
    refine prelude_finishAttempt ?_ fun _ => trivial
    rintro (h | h) <;> cases h
  · split
    · exact prelude_finishAttempt (fun _ => rfl) fun h => absurd (Or.inl rfl) h
    · split
      · exact prelude_finishAttempt (fun _ => rfl)
          fun h => absurd (Or.inr rfl) h
      · refine prelude_finishAttempt ?_ fun _ => ?_
        · rintro (h | h) <;> cases h
        · exact Prelude.bind (fun _ => prepares_random)
            (MakesOnly.computeBackoffDelayMs _) fun _ => trivial

/-- A run that has read its Delivery is on its way to a decision about the
Endpoint of that Delivery. -/
theorem prelude_of_read {dateParse : String → Option Instant}
    {k : Except DbError (Option DeliveryForProcessing) → Action Unit}
    (hk : processDelivery dateParse deps deliveryId =
      .call (.query (.getDeliveryForProcessing deliveryId)) k)
    (record : DeliveryForProcessing) :
    Prelude record.endpointId deps.endpointAutoDisableAfterMs
      (k (.ok (some record))) := by
  cases hk
  change Prelude _ _ (if record.status ≠ .pending ∧
    record.status ≠ .inProgress then _ else _)
  split
  · trivial
  · refine (prelude_call_iff (c := .now) id).mpr fun claimedAt => ?_
    change Prelude _ _ (markDeliveryInProgress deliveryId claimedAt >>= _)
    refine Prelude.bind (p := markDeliveryInProgress deliveryId claimedAt)
      (fun (c : Call) (h : c.Prepares) => h) ?_ ?_
    · refine MakesOnly.bind (MakesOnly.query id) fun claimed => ?_
      split
      · trivial
      · exact MakesOnly.bind (MakesOnly.query id) fun _ => trivial
    · intro inProgress
      split
      · trivial
      · refine Prelude.bind (fun _ => prepares_of_dials)
          (MakesOnly.dialEndpoint dateParse deps record) fun attempt => ?_
        exact (prelude_call_iff (c := .now) id).mpr
          fun at_ => prelude_settleAttempt

end Run

/-! ## The decision -/

/-- The end of `maybeAutoDisableEndpoint`, with the start of the streak. -/
def decideOnStreak (endpointId : Uuid) (autoDisableAfterMs : ℕ)
    (now : Instant) : Option Instant → Action Unit
  | none => return ()
  | some start =>
      if now - start < autoDisableAfterMs then return ()
      else do
        let _ ← query (.stampAutoDisabled endpointId now)
        return ()

/-- The same with the last success. -/
def readStreakStart (endpointId : Uuid) (autoDisableAfterMs : ℕ)
    (now : Instant) (lastSuccess : Option Instant) : Action Unit := do
  let streakStart ← query (.selectStreakStart endpointId lastSuccess)
  decideOnStreak endpointId autoDisableAfterMs now streakStart

/-- The same once the Endpoint has been found enabled. -/
def readLastSuccess (endpointId : Uuid) (autoDisableAfterMs : ℕ)
    (now : Instant) : Action Unit := do
  let lastSuccess ← query (.selectLastSuccess endpointId)
  readStreakStart endpointId autoDisableAfterMs now lastSuccess

/-- The same with the state of the Endpoint. -/
def onEnablement (endpointId : Uuid) (autoDisableAfterMs : ℕ)
    (now : Instant) : Option EndpointEnablement → Action Unit
  | none => return ()
  | some endpoint =>
      if endpoint.autoDisabledAt ≠ none ∨ endpoint.enabled = false then
        return ()
      else readLastSuccess endpointId autoDisableAfterMs now

theorem disableOnFailure_eq (endpointId : Uuid) (ms : ℕ) (now : Instant) :
    disableOnFailure endpointId ms now =
      (query (.selectEndpointEnablement endpointId) >>=
        onEnablement endpointId ms now) := by
  rw [disableOnFailure, maybeAutoDisableEndpoint, Program.bind_assoc]
  congr 1
  funext endpoint
  cases endpoint with
  | none => rfl
  | some endpoint =>
      dsimp only [onEnablement]
      split
      · rfl
      · rw [Program.bind_assoc, readLastSuccess]
        congr 1
        funext lastSuccess
        rw [Program.bind_assoc, readStreakStart]
        congr 1
        funext streakStart
        cases streakStart with
        | none => rfl
        | some start =>
            dsimp only [decideOnStreak]
            split <;> rfl

/-- A run that decides about its Endpoint, as long as what it has read is still
what the database holds. -/
inductive Deciding (db : Database) (endpointId : Uuid) (ms : ℕ)
    (now : Instant) : Action Unit → Prop
  | begins : Deciding db endpointId ms now (disableOnFailure endpointId ms now)
  | enabled : Deciding db endpointId ms now (readLastSuccess endpointId ms now)
  | succeeded : Deciding db endpointId ms now
      (readStreakStart endpointId ms now (selectLastSuccess db endpointId))
  | spans {start : Instant}
      (hstart : selectStreakStart db endpointId
        (selectLastSuccess db endpointId) = some start)
      (hspan : ms ≤ now - start) :
      Deciding db endpointId ms now (do
        let _ ← query (.stampAutoDisabled endpointId now)
        return ())
  | ended {p : Action Unit} (h : p.result?.isSome) :
      Deciding db endpointId ms now p

/-- The statements of `maybeAutoDisableEndpoint` after the first. -/
def Call.Midway : Call → Bool
  | .query (.selectLastSuccess _) => true
  | .query (.selectStreakStart _ _) => true
  | .query (.stampAutoDisabled _ _) => true
  | _ => false

section Deciding

variable {endpointId : Uuid} {ms : ℕ} {now : Instant} {p : Action Unit}

/-- A decision that is not under way knows nothing of the database. -/
theorem Deciding.of_not_midway {db : Database}
    (h : Deciding db endpointId ms now p)
    (hmidway : ∀ c ∈ p.next?, c.Midway = false) (db' : Database) :
    Deciding db' endpointId ms now p := by
  cases h with
  | begins => exact .begins
  | enabled => cases hmidway _ rfl
  | succeeded => cases hmidway _ rfl
  | spans _ _ => cases hmidway _ rfl
  | ended h => exact .ended h

/-- One step of a decision that nobody disturbs. -/
theorem Deciding.advance {w : World} (h : Deciding w.db endpointId ms now p)
    (x : Choice) :
    Deciding (p.advance perform x w).2.db endpointId ms now
      (p.advance perform x w).1 := by
  cases h with
  | begins =>
      rw [disableOnFailure_eq]
      rcases perform_read (x := x)
        (q := .selectEndpointEnablement endpointId) (w := w) rfl with
        ⟨hx, _⟩ | ⟨e, hx, _⟩
      · simp only [query, Program.call_bind, Program.advance, hx, Query.run,
          Program.done_bind]
        cases selectEndpointEnablement w.db endpointId with
        | none => exact .ended rfl
        | some endpoint =>
            dsimp only [onEnablement]
            split
            · exact .ended rfl
            · exact .enabled
      · simp only [query, Program.call_bind, Program.advance, hx]
        exact .ended rfl
  | enabled =>
      rcases perform_read (x := x)
        (q := .selectLastSuccess endpointId) (w := w) rfl with
        ⟨hx, _⟩ | ⟨e, hx, _⟩
      · simp only [readLastSuccess, query, Program.call_bind, Program.advance,
          hx, Query.run, Program.done_bind]
        exact .succeeded
      · simp only [readLastSuccess, query, Program.call_bind, Program.advance,
          hx]
        exact .ended rfl
  | succeeded =>
      rcases perform_read (x := x) (q := .selectStreakStart endpointId
        (selectLastSuccess w.db endpointId)) (w := w) rfl with
        ⟨hx, _⟩ | ⟨e, hx, _⟩
      · simp only [readStreakStart, query, Program.call_bind, Program.advance,
          hx, Query.run, Program.done_bind]
        cases hstart : selectStreakStart w.db endpointId
            (selectLastSuccess w.db endpointId) with
        | none => exact .ended rfl
        | some start =>
            dsimp only [decideOnStreak]
            split
            · exact .ended rfl
            next hspan => exact .spans hstart (not_lt.mp hspan)
      · simp only [readStreakStart, query, Program.call_bind, Program.advance,
          hx]
        exact .ended rfl
  | spans hstart hspan =>
      simp only [query, Program.call_bind, Program.advance]
      cases (perform x (.query (.stampAutoDisabled endpointId now)) w).1 with
      | ok _ => exact .ended rfl
      | error _ => exact .ended rfl
  | ended h =>
      cases p with
      | done a => exact .ended rfl
      | fail e => exact .ended rfl
      | call c k => cases h

end Deciding

end WebhookBroadcast
