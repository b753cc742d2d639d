import WebhookBroadcast.Worker.Discipline

/-!
# What the functions of the worker ensure

One lemma for each function of `processDelivery`, under the discipline of the
Delivery that it works on and from any state.
-/

namespace WebhookBroadcast

open Interaction Timeline

namespace Regime

variable {R : Regime} {d : Uuid}

/-- A status that is neither pending nor in progress settles the Delivery. -/
theorem settled_of_selectDeliveryStatus {db : Database}
    (hpending : selectDeliveryStatus db d ≠ some .pending)
    (hprogress : selectDeliveryStatus db d ≠ some .inProgress) :
    Settled (db.timeline? d) := by
  intro t ht hlive
  obtain ⟨row, hrow, rfl⟩ := Database.exists_of_timeline? ht
  rcases hlive with h | h
  · exact hpending (by simpa [selectDeliveryStatus, hrow] using h)
  · exact hprogress (by simpa [selectDeliveryStatus, hrow] using h)

/-- A claim that is refused has found the Delivery settled, unless its second
statement found it pending. -/
theorem ensures_markDeliveryInProgress (updatedAt : Instant) (w : World) :
    (R.discipline d).Ensures
      (fun r t => r = .ok false → R.Resolved d t)
      (markDeliveryInProgress d updatedAt) w := by
  apply ensures_query
  · intro t _ ht
    exact ⟨ht.moveStatus, change_claimPendingDelivery _⟩
  · intro t x claimed _ _ _ _ _
    cases claimed with
    | true => exact fun u _ h => by cases h
    | false =>
        apply ensures_query
        · exact fun u _ hu => keeps_quiet (by simp [Query.writes]) u hu
        · intro u y existing _ _ hy hfault hexisting v huv hrefused
          have hstatus : selectDeliveryStatus u.db d = existing := by
            simpa [Query.run] using hexisting
          have hprogress : existing ≠ some .inProgress := by
            simpa using hrefused
          refine huv.preserves (fun _ _ => Resolved.rely) ?_
          intro _ hmisses
          apply settled_of_selectDeliveryStatus
          · intro hpending
            rcases hy with hy | hy
            · exact hmisses hy
            · exact hy ⟨rfl, hfault, hpending⟩
          · exact hstatus ▸ hprogress
        · exact fun e u h => by cases h
  · exact fun e t h => by cases h

/-- Releasing the claim never resolves. -/
theorem ensures_releaseClaim {deps : ProcessDeliveryDeps} {n : ℕ}
    {at_ : Instant} {dbErr : DbError} (w : World) :
    (R.discipline d).Ensures (fun r _ => r ≠ .ok ())
      (releaseClaim deps d n at_ dbErr) w := by
  apply ensures_query
  · exact fun t _ ht => ⟨ht.moveStatus,
      change_resetInProgressDeliveryToPending _⟩
  · intro t x released _ _ _ _ _
    refine Discipline.Ensures.bind ?_ ?_
      (ensures_quiet (Quiet.computeBackoffDelayMs _) _)
    · exact fun delayMs u _ v _ h => by cases h
    · exact fun e u _ h => by cases h
  · exact fun e t h => by cases h

/-- Persisting an outcome is a worker step.  When it succeeds with a terminal
status, the Delivery is resolved. -/
theorem ensures_finishAttempt {deps : ProcessDeliveryDeps} {count : ℕ}
    {attempt : HttpAttempt} {at_ : Instant} {status : DeliveryStatus}
    {w : World} (hbehind : Behind count (w.db.timeline? d))
    (hM : deps.maxAttempts ∈ R.budgets)
    (hs : BudgetAllows deps.maxAttempts (count + 1) status) :
    (R.discipline d).Ensures
      (fun r t => r = .ok () → status.Terminal → R.Resolved d t)
      (finishAttempt deps d (count + 1) attempt at_ status) w := by
  apply ensures_tryQuery
  · intro t hwt ht
    exact completeDelivery_refines ht rfl
      (hwt.preserves (fun _ _ => behind_rely) hbehind) hM hs
  · intro t x _ _ _ _
    cases hresult : (completeDelivery t.db (completionInput d (count + 1)
      attempt at_ status)).1 with
    | ok result =>
        simp only [Query.run, hresult]
        intro u htu _ hterminal
        refine htu.preserves (fun _ _ => Resolved.rely) ?_
        intro _ _ v hv
        obtain ⟨v', hv', hstatus⟩ := status_of_completeDelivery_ok hresult
        rw [show v = v' from Option.some.inj (hv.symm.trans hv'), hstatus]
        exact DeliveryStatus.terminal_iff_not_live.mp hterminal
    | error e =>
        simp only [Query.run, hresult]
        exact (ensures_releaseClaim _).consequence
          fun r u hr h => absurd h hr
  · exact fun t message => (ensures_releaseClaim t).consequence
      fun r u hr h => absurd h hr

/-- After a terminal outcome the Endpoint may be disabled on the way out. -/
theorem ensures_disableAfter {p : Action Unit} {q : Action Bool}
    {status : DeliveryStatus} {w : World} (hterminal : status.Terminal)
    (hp : (R.discipline d).Ensures
      (fun r t => r = .ok () → status.Terminal → R.Resolved d t) p w)
    (hq : Quiet d q) :
    (R.discipline d).Ensures (R.resolves d)
      (do p; let _ ← q; return ()) w := by
  refine Discipline.Ensures.bind ?_ (fun _ _ _ => trivial) hp
  intro _ t ht
  refine Discipline.Ensures.bind ?_ (fun _ _ _ => trivial)
    ((ensures_quiet hq t).frame (fun _ _ => Resolved.rely)
      (fun _ _ => Resolved.guarantee) (ht rfl hterminal))
  intro _ u hu v huv
  exact huv.preserves (fun _ _ => Resolved.rely) hu.2

theorem ensures_settleAttempt {deps : ProcessDeliveryDeps}
    {record : DeliveryForProcessing} {count : ℕ} {attempt : HttpAttempt}
    {at_ : Instant} {w : World}
    (hbehind : Behind count (w.db.timeline? d))
    (hM : deps.maxAttempts ∈ R.budgets) :
    (R.discipline d).Ensures (R.resolves d)
      (settleAttempt deps record d (count + 1) attempt at_) w := by
  have hdisable : Quiet d (maybeAutoDisableEndpoint record.endpointId
      deps.endpointAutoDisableAfterMs at_) :=
    Quiet.maybeAutoDisableEndpoint _ _ _
  unfold settleAttempt
  by_cases hsuccess : isSuccess attempt.statusCode
  · simp only [hsuccess, if_true]
    have hsucceeded : BudgetAllows deps.maxAttempts (count + 1) .succeeded :=
      trivial
    apply (ensures_finishAttempt hbehind hM hsucceeded).consequence
    intro r t ht
    cases r with
    | ok _ => exact ht rfl (Or.inl rfl)
    | error e => trivial
  · by_cases hretryable : isRetryableOutcome attempt.statusCode
    · simp only [hsuccess, hretryable, Bool.not_true, Bool.false_eq_true,
        if_false]
      by_cases hexhausted : deps.maxAttempts ≤ count + 1
      · simp only [hexhausted, if_true]
        exact ensures_disableAfter (Or.inr (Or.inr rfl))
          (ensures_finishAttempt hbehind hM hexhausted) hdisable
      · simp only [hexhausted, if_false]
        have hpending : BudgetAllows deps.maxAttempts (count + 1) .pending :=
          Nat.lt_of_not_le hexhausted
        refine Discipline.Ensures.bind ?_ (fun _ _ _ => trivial)
          (ensures_finishAttempt hbehind hM hpending)
        intro _ t _
        refine Discipline.Ensures.bind ?_ (fun _ _ _ => trivial)
          (ensures_quiet (Quiet.computeBackoffDelayMs _) t)
        exact fun delayMs u _ v _ => trivial
    · simp only [hsuccess, hretryable, Bool.not_false, Bool.false_eq_true,
        if_false, if_true]
      have hfailed : BudgetAllows deps.maxAttempts (count + 1) .failed :=
        trivial
      exact ensures_disableAfter (Or.inr (Or.inl rfl))
        (ensures_finishAttempt hbehind hM hfailed) hdisable

/-- What the first read of a run knows, and will still know later. -/
theorem behind_of_read {db : Database} (hcons : db.Consistent d)
    {record : DeliveryForProcessing}
    (hread : getDeliveryForProcessing db d = some record)
    (hlive : record.status.Live) :
    Behind record.attemptCount (db.timeline? d) := by
  intro t ht
  obtain ⟨row, hrow, rfl⟩ := Database.exists_of_timeline? ht
  obtain ⟨record', hread', _, _, hstatus, hcount⟩ :=
    getDeliveryForProcessing_of_row hrow
  rw [hread] at hread'
  cases hread'
  right
  constructor
  · rw [hcount, ← (hcons row hrow).length_eq]
    simp
  · rw [DeliveryRow.timeline_status, ← hstatus]
    exact hlive

theorem settled_of_read {db : Database}
    (hread : ∀ record, getDeliveryForProcessing db d = some record →
      ¬ record.status.Live) : Settled (db.timeline? d) := by
  intro t ht
  obtain ⟨row, hrow, rfl⟩ := Database.exists_of_timeline? ht
  obtain ⟨record, hrecord, _, _, hstatus, _⟩ :=
    getDeliveryForProcessing_of_row hrow
  rw [DeliveryRow.timeline_status, ← hstatus]
  exact hread record hrecord

/-- The contract of a whole run on its own Delivery. -/
theorem ensures_processDelivery {dateParse : String → Option Instant}
    {deps : ProcessDeliveryDeps} (hM : deps.maxAttempts ∈ R.budgets)
    (w : World) :
    (R.discipline d).Ensures (R.resolves d)
      (processDelivery dateParse deps d) w := by
  have hdone {t : World} (ht : R.Resolved d t) :
      (R.discipline d).Ensures (R.resolves d)
        (Program.done () : Action Unit) t :=
    fun u htu => htu.preserves (fun _ _ => Resolved.rely) ht
  apply ensures_query
  · exact fun t _ ht => keeps_quiet (by simp [Query.writes]) t ht
  · intro t x record _ hcons _ _ hread
    have hrecord : getDeliveryForProcessing t.db d = record := by
      simpa [Query.run] using hread
    cases record with
    | none =>
        apply hdone
        intro _ _
        exact settled_of_read (by simp [Query.run, hrecord])
    | some record =>
        by_cases hlive : record.status.Live
        · have hguard : ¬ (record.status ≠ .pending ∧
              record.status ≠ .inProgress) := by
            rintro ⟨h, h'⟩
            rcases hlive with hlive | hlive
            · exact h hlive
            · exact h' hlive
          have hbehind := behind_of_read hcons hrecord hlive
          simp only [if_neg hguard]
          -- The clock reading before the claim.
          refine Discipline.Ensures.bind ?_ (fun _ _ _ => trivial)
            ((ensures_quiet Quiet.now _).frame
              (fun _ _ => behind_rely) (fun _ _ => behind_guarantee) hbehind)
          intro claimedAt u hu
          refine Discipline.Ensures.bind ?_ (fun _ _ _ => trivial)
            ((ensures_markDeliveryInProgress claimedAt u).frame
              (fun _ _ => behind_rely) (fun _ _ => behind_guarantee) hu.2)
          intro claimed v hv
          cases claimed with
          | false => exact hdone (hv.1 rfl)
          | true =>
              refine Discipline.Ensures.bind ?_ (fun _ _ _ => trivial)
                ((ensures_quiet (Quiet.dialEndpoint _ _ _) v).frame
                  (fun _ _ => behind_rely) (fun _ _ => behind_guarantee) hv.2)
              intro attempt v' hv'
              refine Discipline.Ensures.bind ?_ (fun _ _ _ => trivial)
                ((ensures_quiet Quiet.now v').frame
                  (fun _ _ => behind_rely) (fun _ _ => behind_guarantee)
                  hv'.2)
              exact fun at_ v'' hv'' => ensures_settleAttempt hv''.2 hM
        · have hguard : record.status ≠ .pending ∧
              record.status ≠ .inProgress :=
            ⟨fun h => hlive (Or.inl h), fun h => hlive (Or.inr h)⟩
          simp only [if_pos hguard]
          apply hdone
          intro _ _
          apply settled_of_read
          intro record' hrecord'
          rw [show record' = record from
            Option.some.inj (hrecord'.symm.trans hrecord)]
          exact hlive
  · exact fun e t => trivial

end Regime

end WebhookBroadcast
