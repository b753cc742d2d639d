import WebhookBroadcast.Lifecycle.Deployed
import WebhookBroadcast.Worker.Guarantees

/-!
# One run of a job

A job has one run at a time, so that nobody else works on its Delivery
meanwhile; the most that happens is that the Delivery goes.  A run of
`processDelivery` whose statements are not rejected then settles the Delivery,
or it records one Attempt, leaves the Delivery pending within its budget and
asks for another run.
-/

namespace WebhookBroadcast

open Interaction Timeline

/-- If the Delivery is there, its timeline is like this. -/
def World.Shows (d : Uuid) (P : Timeline → Prop) (w : World) : Prop :=
  ∀ t, w.db.timeline? d = some t → P t

/-- The timeline is pending and has this many outcomes. -/
def Timeline.Awaits (count : ℕ) (t : Timeline) : Prop :=
  t.status = .pending ∧ t.outcomes.length = count

/-- The discipline of a run that nobody else shares its Delivery with. -/
def exclusive (d : Uuid) : Discipline Effects Choice World where
  handler := perform
  permits _ _ x := x.fault = none
  invariant w := w.db.Consistent d
  rely w w' := w.db.LeavesOrEnds d w'.db
  guarantee _ _ := True

/-- The end of a run that began after `count` Attempts. -/
def RunEnds (d : Uuid) (maxAttempts count : ℕ) :
    Except Thrown Unit → World → Prop
  | .ok _, w => Settled (w.db.timeline? d)
  | .error e, w => 0 ≤ backoffStrategy e ∧
      w.Shows d fun t => t.Awaits (count + 1) ∧ count + 1 < maxAttempts

namespace World.Shows

variable {d : Uuid} {P : Timeline → Prop} {w w' : World}

theorem rely (h : (exclusive d).rely w w') (hw : w.Shows d P) :
    w'.Shows d P := by
  rcases h with hnone | ⟨hrow, hlog⟩
  · intro t ht
    rw [Database.timeline?_eq_none_iff.mpr hnone] at ht
    cases ht
  · intro t ht
    exact hw t ((Database.timeline?_congr hrow hlog).symm.trans ht)

theorem interferes (h : (exclusive d).Interferes w w') (hw : w.Shows d P) :
    w'.Shows d P :=
  h.preserves (fun _ _ => rely) hw

theorem of_none (h : w.db.timeline? d = none) : w.Shows d P := by
  intro t ht
  rw [h] at ht
  cases ht

theorem imp {Q : Timeline → Prop} (hw : w.Shows d P) (h : ∀ t, P t → Q t) :
    w.Shows d Q :=
  fun t ht => h t (hw t ht)

/-- A Delivery of which nothing can be shown is gone. -/
theorem timeline?_eq_none (hw : w.Shows d fun _ => False) :
    w.db.timeline? d = none :=
  Option.eq_none_iff_forall_ne_some.mpr hw

end World.Shows

section Rules

variable {d : Uuid} {α : Type}

/-- A quiet program changes nothing about the Delivery. -/
theorem exclusive_quiet {p : Action α} (hp : Quiet d p)
    {ends : Except Thrown α → Prop} (hends : p.EveryEnd ends)
    {P : Timeline → Prop} {w : World} (hw : w.Shows d P) :
    (exclusive d).Ensures (fun r t => ends r ∧ t.Shows d P) p w := by
  have hcalls : p.EveryCall fun c _ => ∀ w x, (exclusive d).invariant w →
      (exclusive d).permits w c x → w.Shows d P →
      (exclusive d).invariant (perform x c w).2 ∧
        (exclusive d).guarantee w (perform x c w).2 ∧
          (perform x c w).2.Shows d P := by
    refine Program.EveryCall.mono (fun c k hc w x hw _ hshows => ?_) hp
    obtain ⟨hrow, hlog⟩ := perform_frame hc x w
    exact ⟨hw.congr hrow hlog, trivial, hshows.rely (Or.inr ⟨hrow, hlog⟩)⟩
  exact Discipline.Ensures.of_everyCall (fun _ _ => World.Shows.rely) hcalls
    hends hw

/-- A statement is carried out. -/
theorem exclusive_tryQuery {q : Query} {post : Except Thrown α → World → Prop}
    {f : Except DbError q.Result → Action α} {w : World}
    (hrun : ∀ t, (exclusive d).Interferes w t → t.db.Consistent d →
      (q.run t.db).2.Consistent d ∧
        (exclusive d).Ensures post (f (q.run t.db).1)
          { t with db := (q.run t.db).2 }) :
    (exclusive d).Ensures post (tryQuery q >>= f) w := by
  intro t hwt ht x hx
  obtain ⟨hcons, hf⟩ := hrun t hwt ht
  have hperform : perform x (.query q) t =
      ((q.run t.db).1, { t with db := (q.run t.db).2 }) :=
    perform_query_of_none hx q t
  change t.db.Consistent d at ht
  change (perform x (.query q) t).2.db.Consistent d ∧ _
  simp only [exclusive]
  rw [hperform]
  exact ⟨hcons, trivial, hf⟩

theorem exclusive_query {q : Query} {post : Except Thrown α → World → Prop}
    {f : q.Result → Action α} {w : World}
    (hrun : ∀ t, (exclusive d).Interferes w t → t.db.Consistent d →
      ∃ result, (q.run t.db).1 = .ok result ∧
        (q.run t.db).2.Consistent d ∧ (exclusive d).Ensures post (f result)
          { t with db := (q.run t.db).2 }) :
    (exclusive d).Ensures post (query q >>= f) w := by
  let settled : Except DbError q.Result → Action α := fun answer =>
    (match answer with
      | .ok result => Program.done result
      | .error e => Program.fail (.database e)) >>= f
  have hsettled : query q >>= f = tryQuery q >>= settled := by
    simp only [query, tryQuery, Program.call_bind, Program.done_bind]
    congr 1
  rw [hsettled]
  refine exclusive_tryQuery fun t hwt ht => ?_
  obtain ⟨result, hresult, hcons, hf⟩ := hrun t hwt ht
  rw [hresult]
  exact ⟨hcons, hf⟩

end Rules

/-! ## The statements of a run -/

section Statements

variable {d : Uuid} {count : ℕ} {w : World}

/-- A claim that is refused has found the Delivery gone. -/
theorem shows_claim (hw : w.Shows d (Awaits count)) (updatedAt : Instant) :
    let r := claimPendingDelivery w.db d updatedAt
    (r.1 = true → World.Shows d (fun t => t.outcomes.length = count)
      { w with db := r.2 }) ∧
    (r.1 = false → r.2.timeline? d = none) := by
  intro r
  have hafter : r.2.timeline? d = _ := timeline?_moveStatus_self
  constructor
  · rintro - t ht
    have ht : r.2.timeline? d = some t := ht
    rw [hafter] at ht
    obtain ⟨u, hu, rfl⟩ := Option.map_eq_some_iff.mp ht
    have hcount := (hw u hu).2
    split <;> exact hcount
  · intro hrefused
    rw [hafter, Option.map_eq_none_iff]
    by_contra hsome
    obtain ⟨t, ht⟩ := Option.ne_none_iff_exists'.mp hsome
    obtain ⟨row, hrow, rfl⟩ := Database.exists_of_timeline? ht
    have hclaimed : r.1 = true :=
      moveStatus_result_iff.mpr ⟨row, hrow, (hw _ ht).1⟩
    rw [hrefused] at hclaimed
    cases hclaimed

/-- An outcome is recorded, unless the Delivery is gone. -/
theorem shows_completeDelivery {input : CompleteDeliveryInput}
    (hw : w.Shows input.deliveryId fun t => t.outcomes.length = count)
    (hcons : w.db.Consistent input.deliveryId) (hn : input.n = count + 1) :
    let r := completeDelivery w.db input
    r.2.Consistent input.deliveryId ∧
      (r.1 = .ok () ∧ World.Shows input.deliveryId
          (fun t => t.status = input.status ∧ t.outcomes.length = count + 1)
          { w with db := r.2 } ∨
        (∃ e, r.1 = .error e) ∧ r.2.timeline? input.deliveryId = none) := by
  intro r
  cases hrow : w.db.delivery? input.deliveryId with
  | none =>
      have hrec : ¬ Recordable w.db input := by
        rintro ⟨hsome, -⟩
        rw [hrow] at hsome
        cases hsome
      obtain ⟨herror, hsame⟩ := completeDelivery_of_not_recordable hrec
      have hsame : r.2 = w.db := hsame
      rw [hsame]
      exact ⟨hcons, Or.inr ⟨herror,
        Database.timeline?_eq_none_iff.mpr hrow⟩⟩
  | some row =>
      have hsum := hcons row hrow
      have hlength := hw _ (Database.timeline?_eq_some hrow)
      have hlength : row.attemptCount = count := by
        simpa [DeliveryRow.timeline, hsum.length_eq] using hlength
      have hrec : Recordable w.db input := by
        refine ⟨by rw [hrow]; rfl, ?_⟩
        exact (hsum.number_free_iff (by omega)).mpr (by omega)
      refine ⟨?_, Or.inl ⟨completeDelivery_result_of_recordable hrec, ?_⟩⟩
      · intro row' hrow'
        rw [delivery?_completeDelivery_self hrec, hrow] at hrow'
        cases hrow'
        rw [attemptLog_completeDelivery_self hrec]
        exact hsum.complete (by omega)
      · intro t ht
        have ht : r.2.timeline? input.deliveryId = some t := ht
        rw [timeline?_completeDelivery_self hrec hrow] at ht
        cases ht
        refine ⟨rfl, ?_⟩
        simp [hsum.length_eq, hlength]

end Statements

/-! ## The functions of a run -/

section Functions

variable {d : Uuid} {count : ℕ} {w : World} {deps : ProcessDeliveryDeps}

theorem exclusive_markDeliveryInProgress (hw : w.Shows d (Awaits count))
    (updatedAt : Instant) :
    (exclusive d).Ensures
      (fun r t => ∃ claimed, r = .ok claimed ∧
        (claimed = true → t.Shows d fun t => t.outcomes.length = count) ∧
        (claimed = false → t.db.timeline? d = none))
      (markDeliveryInProgress d updatedAt) w := by
  refine exclusive_query fun t hwt ht => ?_
  obtain ⟨hclaimed, hrefused⟩ := shows_claim (hw.interferes hwt) updatedAt
  refine ⟨(claimPendingDelivery t.db d updatedAt).1, rfl, ht.moveStatus, ?_⟩
  cases hresult : (claimPendingDelivery t.db d updatedAt).1 with
  | true =>
      intro u htu
      exact ⟨true, rfl, fun _ => (hclaimed hresult).interferes htu,
        fun h => by cases h⟩
  | false =>
      -- the Delivery is gone, so that there is no status to find
      refine exclusive_query fun u htu hu => ?_
      have hgone : World.Shows d (fun _ => False) u :=
        (World.Shows.of_none (hrefused hresult)).interferes htu
      have hnone := Database.timeline?_eq_none_iff.mp hgone.timeline?_eq_none
      refine ⟨none, ?_, hu, ?_⟩
      · simp [Query.run, selectDeliveryStatus, hnone]
      · intro v huv
        exact ⟨false, rfl, fun h => (by cases h),
          fun _ => (hgone.interferes huv).timeline?_eq_none⟩

/-- A claim is released only if the Delivery is gone. -/
theorem exclusive_releaseClaim (hgone : w.db.timeline? d = none) {n : ℕ}
    {at_ : Instant} {dbErr : DbError} :
    (exclusive d).Ensures
      (fun r t => ∃ e, r = .error e ∧
        RunEnds d deps.maxAttempts count (.error e) t)
      (releaseClaim deps d n at_ dbErr) w := by
  refine exclusive_query fun t hwt ht => ?_
  have hnone := ((World.Shows.of_none hgone (P := fun _ => False)).interferes
    hwt).timeline?_eq_none
  refine ⟨_, rfl, ht.moveStatus, ?_⟩
  have hafter : World.Shows d (fun _ => False)
      { t with db := (resetInProgressDeliveryToPending t.db d at_).2 } := by
    refine .of_none ?_
    rw [resetInProgressDeliveryToPending, timeline?_moveStatus_self, hnone]
    rfl
  refine Discipline.Ensures.bind ?_ ?_ (exclusive_quiet
    (Quiet.computeBackoffDelayMs _) (computeBackoffDelayMs_bounds
      fun ms hms => by cases hms) hafter)
  · rintro delayMs u ⟨⟨_, hok, hdelay, -⟩, hu⟩ v huv
    cases hok
    exact ⟨_, rfl, hdelay, (hu.interferes huv).imp fun _ h => h.elim⟩
  · rintro e u ⟨⟨_, herror, -⟩, -⟩
    cases herror

/-- Persisting an outcome succeeds, unless the Delivery is gone. -/
theorem exclusive_finishAttempt
    (hw : w.Shows d fun t => t.outcomes.length = count) {attempt : HttpAttempt}
    {at_ : Instant} {status : DeliveryStatus} :
    (exclusive d).Ensures
      (fun r t => r = .ok () ∧ t.Shows d (fun t => t.status = status ∧
          t.outcomes.length = count + 1) ∨
        ∃ e, r = .error e ∧ RunEnds d deps.maxAttempts count (.error e) t)
      (finishAttempt deps d (count + 1) attempt at_ status) w := by
  refine exclusive_tryQuery fun t hwt ht => ?_
  obtain ⟨hcons, ⟨hok, hshows⟩ | ⟨⟨e, herror⟩, hnone⟩⟩ :=
    @shows_completeDelivery count t
      (completionInput d (count + 1) attempt at_ status) (hw.interferes hwt) ht
      rfl
  · refine ⟨hcons, ?_⟩
    rw [show (Query.run (.completeDelivery (completionInput d (count + 1)
      attempt at_ status)) t.db).1 = .ok () from hok]
    exact fun u htu => Or.inl ⟨rfl, hshows.interferes htu⟩
  · refine ⟨hcons, ?_⟩
    rw [show (Query.run (.completeDelivery (completionInput d (count + 1)
      attempt at_ status)) t.db).1 = .error e from herror]
    exact (exclusive_releaseClaim hnone).consequence fun r u hr => Or.inr hr

/-- A statement on the Endpoint is carried out and changes nothing about the
Delivery. -/
theorem exclusive_onEndpoint {q : Query} (hq : Call.OnEndpoint (.query q))
    {P : Timeline → Prop} (hw : w.Shows d P) {α : Type}
    {post : Except Thrown α → World → Prop} {f : q.Result → Action α}
    (hf : ∀ result t, t.Shows d P → (exclusive d).Ensures post (f result) t) :
    (exclusive d).Ensures post (query q >>= f) w := by
  refine exclusive_query fun t hwt ht => ?_
  have hquiet : q.writes ≠ some d := by
    have hnone : q.writes = none := writes_of_onEndpoint hq
    rw [hnone]
    exact Option.some_ne_none d |>.symm
  obtain ⟨hrow, hlog⟩ := Query.run_frame hquiet t.db
  have hafter : World.Shows d P { t with db := (q.run t.db).2 } :=
    (hw.interferes hwt).rely (Or.inr ⟨hrow, hlog⟩)
  have hresult : ∃ result, (q.run t.db).1 = .ok result := by
    cases q with
    | selectEndpointEnablement id => exact ⟨_, rfl⟩
    | selectLastSuccess id => exact ⟨_, rfl⟩
    | selectStreakStart id lastSuccess => exact ⟨_, rfl⟩
    | stampAutoDisabled id now => exact ⟨_, rfl⟩
    | _ => exact hq.elim
  obtain ⟨result, hresult⟩ := hresult
  exact ⟨result, hresult, ht.congr hrow hlog, hf result _ hafter⟩

theorem exclusive_maybeAutoDisableEndpoint {P : Timeline → Prop}
    (hw : w.Shows d P) (endpointId : Uuid) (autoDisableAfterMs : ℕ)
    (now : Instant) :
    (exclusive d).Ensures (fun r t => (∃ b, r = .ok b) ∧ t.Shows d P)
      (maybeAutoDisableEndpoint endpointId autoDisableAfterMs now) w := by
  have hdone (b : Bool) {t : World} (ht : t.Shows d P) :
      (exclusive d).Ensures (fun r t => (∃ b, r = .ok b) ∧ t.Shows d P)
        (Program.done b : Action Bool) t :=
    fun u htu => ⟨⟨b, rfl⟩, ht.interferes htu⟩
  refine exclusive_onEndpoint (q := .selectEndpointEnablement endpointId)
    trivial hw fun endpoint t ht => ?_
  cases endpoint with
  | none => exact hdone _ ht
  | some endpoint =>
      dsimp only
      split
      · exact hdone _ ht
      · refine exclusive_onEndpoint (q := .selectLastSuccess endpointId)
          trivial ht fun lastSuccess u hu => ?_
        refine exclusive_onEndpoint
          (q := .selectStreakStart endpointId lastSuccess) trivial hu
          fun streakStart v hv => ?_
        cases streakStart with
        | none => exact hdone _ hv
        | some start =>
            dsimp only
            split
            · exact hdone _ hv
            · rw [← Program.bind_done (query _)]
              exact exclusive_onEndpoint
                (q := .stampAutoDisabled endpointId now) trivial hv
                fun b _ => hdone b

/-- A terminal outcome settles the Delivery, also if the Endpoint is disabled
on the way out. -/
theorem exclusive_terminal (hw : w.Shows d fun t => t.outcomes.length = count)
    {attempt : HttpAttempt} {at_ : Instant} {status : DeliveryStatus}
    (hterminal : status.Terminal) (endpointId : Uuid) :
    (exclusive d).Ensures (RunEnds d deps.maxAttempts count)
      (do
        finishAttempt deps d (count + 1) attempt at_ status
        let _ ← maybeAutoDisableEndpoint endpointId
          deps.endpointAutoDisableAfterMs at_
        return ()) w := by
  refine Discipline.Ensures.bind ?_ ?_ (exclusive_finishAttempt hw)
  · rintro _ t (⟨-, ht⟩ | ⟨e, herror, -⟩)
    · have hsettled : t.Shows d fun t => ¬ t.status.Live :=
        ht.imp fun u hu => hu.1 ▸ DeliveryStatus.terminal_iff_not_live.mp
          hterminal
      refine Discipline.Ensures.bind ?_ ?_
        (exclusive_maybeAutoDisableEndpoint hsettled _ _ _)
      · exact fun _ u hu v huv => hu.2.interferes huv
      · rintro e u ⟨⟨b, h⟩, -⟩
        cases h
    · cases herror
  · rintro e t (⟨h, -⟩ | ⟨e', herror, hends⟩)
    · cases h
    · cases herror
      exact hends

theorem exclusive_settleAttempt
    (hw : w.Shows d fun t => t.outcomes.length = count)
    {record : DeliveryForProcessing} {attempt : HttpAttempt}
    (hattempt : attempt.Observed) {at_ : Instant} :
    (exclusive d).Ensures (RunEnds d deps.maxAttempts count)
      (settleAttempt deps record d (count + 1) attempt at_) w := by
  unfold settleAttempt
  by_cases hsuccess : isSuccess attempt.statusCode
  · simp only [hsuccess, if_true]
    refine (exclusive_finishAttempt hw).consequence ?_
    rintro r t (⟨rfl, ht⟩ | ⟨e, rfl, hends⟩)
    · intro u hu
      rw [(ht u hu).1]
      exact DeliveryStatus.terminal_iff_not_live.mp (Or.inl rfl)
    · exact hends
  · by_cases hretryable : isRetryableOutcome attempt.statusCode
    · simp only [hsuccess, hretryable, Bool.not_true, Bool.false_eq_true,
        if_false]
      by_cases hexhausted : deps.maxAttempts ≤ count + 1
      · simp only [hexhausted, if_true]
        exact exclusive_terminal hw (Or.inr (Or.inr rfl)) _
      · simp only [hexhausted, if_false]
        refine Discipline.Ensures.bind ?_ ?_ (exclusive_finishAttempt hw)
        · rintro _ t (⟨-, ht⟩ | ⟨e, herror, -⟩)
          · refine Discipline.Ensures.bind ?_ ?_ (exclusive_quiet
              (Quiet.computeBackoffDelayMs _) (computeBackoffDelayMs_bounds
                hattempt.retryAfterMs_nonneg) ht)
            · rintro delayMs u ⟨⟨_, hok, hdelay, -⟩, hu⟩ v huv
              cases hok
              exact ⟨hdelay, (hu.interferes huv).imp fun _ h =>
                ⟨h, Nat.lt_of_not_le hexhausted⟩⟩
            · rintro e u ⟨⟨_, herror, -⟩, -⟩
              cases herror
          · cases herror
        · rintro e t (⟨h, -⟩ | ⟨e', herror, hends⟩)
          · cases h
          · cases herror
            exact hends
    · simp only [hsuccess, hretryable, Bool.not_false, Bool.false_eq_true,
        if_false, if_true]
      exact exclusive_terminal hw (Or.inr (Or.inl rfl)) _

/-- The contract of a run that begins after `count` Attempts. -/
theorem exclusive_processDelivery {dateParse : String → Option Instant}
    (hw : w.Shows d (Awaits count)) :
    (exclusive d).Ensures (RunEnds d deps.maxAttempts count)
      (processDelivery dateParse deps d) w := by
  have hgone {t : World} (ht : t.db.timeline? d = none) :
      (exclusive d).Ensures (RunEnds d deps.maxAttempts count)
        (Program.done () : Action Unit) t :=
    fun u htu => ((World.Shows.of_none ht (P := fun _ => False)).interferes
      htu).imp fun _ h => h.elim
  have hnow : now.EveryEnd fun r => ∃ at_, r = .ok at_ := fun at_ => ⟨at_, rfl⟩
  refine exclusive_query fun t hwt ht => ?_
  have hshows := hw.interferes hwt
  refine ⟨_, rfl, ht, ?_⟩
  change (exclusive d).Ensures _ _ t
  cases hrecord : getDeliveryForProcessing t.db d with
  | none =>
      refine hgone (Option.eq_none_iff_forall_ne_some.mpr fun u hu => ?_)
      obtain ⟨row, hrow, rfl⟩ := Database.exists_of_timeline? hu
      obtain ⟨record, hfound, -⟩ := getDeliveryForProcessing_of_row hrow
      rw [hrecord] at hfound
      cases hfound
  | some record =>
      obtain ⟨row, hrow⟩ := Option.isSome_iff_exists.mp
        (isSome_of_getDeliveryForProcessing hrecord)
      obtain ⟨record', hfound, -, -, hstatus, hcount⟩ :=
        getDeliveryForProcessing_of_row hrow
      rw [hrecord] at hfound
      cases hfound
      obtain ⟨hpending, hlength⟩ := hshows _ (Database.timeline?_eq_some hrow)
      have hguard : ¬ (record.status ≠ .pending ∧
          record.status ≠ .inProgress) :=
        fun h => h.1 (hstatus.trans hpending)
      have hcount : record.attemptCount = count := by
        rw [hcount, ← hlength, ← (ht row hrow).length_eq]
        simp
      simp only [if_neg hguard, hcount]
      refine Discipline.Ensures.bind ?_ ?_
        (exclusive_quiet Quiet.now hnow hshows)
      · rintro claimedAt u ⟨-, hu⟩
        refine Discipline.Ensures.bind ?_ ?_
          (exclusive_markDeliveryInProgress hu claimedAt)
        · rintro claimed v ⟨_, hok, hclaimed, hrefused⟩
          cases hok
          cases claimed with
          | false => exact hgone (hrefused rfl)
          | true =>
              refine Discipline.Ensures.bind ?_ ?_ (exclusive_quiet
                (Quiet.dialEndpoint _ _ _) (dialEndpoint_observed _ _ _)
                  (hclaimed rfl))
              · rintro attempt v' ⟨⟨_, hok, hattempt⟩, hv'⟩
                cases hok
                refine Discipline.Ensures.bind ?_ ?_
                  (exclusive_quiet Quiet.now hnow hv')
                · exact fun at_ v'' hv'' =>
                    exclusive_settleAttempt hv''.2 hattempt
                · rintro e v'' ⟨⟨_, herror⟩, -⟩
                  cases herror
              · rintro e v' ⟨⟨_, herror, -⟩, -⟩
                cases herror
        · rintro e v ⟨_, herror, -⟩
          cases herror
      · rintro e u ⟨⟨_, herror⟩, -⟩
        cases herror

end Functions

end WebhookBroadcast
