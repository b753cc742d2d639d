import WebhookBroadcast.Interaction.Ghost
import WebhookBroadcast.Lifecycle.Invariants

/-!
# Recorded times

A run reads the clock after its response and may be overtaken before it writes
what it read.  The order of the recorded times survives that: a transaction
with number `n` commits only while the count is still the `n - 1` that the run
read, and the clock was read after that.

The proof runs the histories with the latest reading of the clock recorded
beside the world.
-/

namespace WebhookBroadcast

open Interaction Timeline

/-- The readings of the worker's clock along a history. -/
def readings (history : History) : List Instant :=
  history.filterMap fun
    | .step _ x => some x.time
    | _ => none

/-! ## Times on a timeline -/

/-- The outcomes were recorded in the order of their times, and none of them
after `latest`. -/
structure Timeline.RecordedBy (latest : Instant) (t : Timeline) : Prop where
  sorted : (t.outcomes.map Outcome.at_).Pairwise (· ≤ ·)
  past : ∀ o ∈ t.outcomes, o.at_ ≤ latest

namespace Timeline

theorem RecordedBy.mono {latest latest' : Instant} {t : Timeline}
    (h : t.RecordedBy latest) (hle : latest ≤ latest') :
    t.RecordedBy latest' where
  sorted := h.sorted
  past o ho := (h.past o ho).trans hle

theorem RecordedBy.concat {latest : Instant} {outcomes : List Outcome}
    {o : Outcome} {old new : DeliveryStatus}
    (h : RecordedBy latest ⟨old, outcomes⟩)
    (hlast : ∀ o' ∈ outcomes, o'.at_ ≤ o.at_) (ho : o.at_ ≤ latest) :
    RecordedBy latest ⟨new, outcomes ++ [o]⟩ where
  sorted := by
    rw [List.map_append, List.pairwise_append]
    refine ⟨h.sorted, List.pairwise_singleton _ _, ?_⟩
    intro s hs s' hs'
    obtain ⟨o', ho', rfl⟩ := List.mem_map.mp hs
    rw [List.map_singleton, List.mem_singleton] at hs'
    rw [hs']
    exact hlast o' ho'
  past o' ho' := by
    rcases List.mem_append.mp ho' with ho' | ho'
    · exact h.past o' ho'
    · rw [List.mem_singleton.mp ho']
      exact ho

/-- No outcome is ever taken back. -/
theorem Evolves.outcomes_prefix {B : Set ℕ} {reopens : Prop}
    {t : Option Timeline} {u : Timeline} (h : Evolves B reopens t (some u)) :
    ∃ t', t = some t' ∧ t'.outcomes <+: u.outcomes := by
  generalize hu : some u = u' at h
  cases h with
  | change h =>
      cases h with
      | stay t => exact ⟨u, hu.symm, List.prefix_refl _⟩
      | work h =>
          cases hu
          refine ⟨_, rfl, ?_⟩
          cases h with
          | claim h => exact List.prefix_refl _
          | release h => exact List.prefix_refl _
          | record o s hlive hM hs => exact List.prefix_append _ _
  | vanish t => cases hu
  | reopen hreopens h =>
      cases hu
      cases h with
      | reopen h => exact ⟨_, rfl, List.prefix_refl _⟩

theorem Behind.le_length {count : ℕ} {u : Timeline}
    (h : Behind count (some u)) : count ≤ u.outcomes.length := by
  rcases h u rfl with hlt | ⟨heq, _⟩
  · exact hlt.le
  · exact heq.le

end Timeline

/-! ## Times in the database -/

/-- A terminal Delivery shows the time of the Attempt that its count numbers. -/
def Database.Stamped (db : Database) (d : Uuid) : Prop :=
  ∀ row, db.delivery? d = some row → row.status.Terminal →
    ∃ a ∈ db.attemptLog d, a.n = row.attemptCount ∧ a.at_ = row.updatedAt

/-- The invariant, at a clock that was last read at `latest`. -/
structure Database.Punctual (db : Database) (d : Uuid) (latest : Instant) :
    Prop where
  consistent : db.Consistent d
  stamped : db.Stamped d
  recorded : ∀ t, db.timeline? d = some t → t.RecordedBy latest

namespace Database.Punctual

variable {db db' : Database} {d : Uuid} {latest latest' : Instant}

theorem mono (h : db.Punctual d latest) (hle : latest ≤ latest') :
    db.Punctual d latest' :=
  ⟨h.consistent, h.stamped, fun t ht => (h.recorded t ht).mono hle⟩

theorem congr (h : db.Punctual d latest)
    (hrow : db'.delivery? d = db.delivery? d)
    (hlog : db'.attemptLog d = db.attemptLog d) : db'.Punctual d latest where
  consistent := h.consistent.congr hrow hlog
  stamped := by
    rw [Stamped, hrow, hlog]
    exact h.stamped
  recorded := by
    rw [timeline?_congr hrow hlog]
    exact h.recorded

theorem of_none (h : db.delivery? d = none) : db.Punctual d latest where
  consistent := .of_none h
  stamped row hrow := by rw [h] at hrow; cases hrow
  recorded t ht := by rw [timeline?_eq_none_iff.mpr h] at ht; cases ht

/-- A move to a status that is not terminal leaves no stamp to check. -/
theorem moveStatus {old new : DeliveryStatus} {updatedAt : Instant}
    (h : db.Punctual d latest) (hnew : ¬ new.Terminal) :
    (moveStatus old new db d updatedAt).2.Punctual d latest where
  consistent := h.consistent.moveStatus
  stamped := by
    intro row' hrow' hterminal
    rw [delivery?_moveStatus_self] at hrow'
    rw [attemptLog_moveStatus]
    obtain ⟨row, hrow, rfl⟩ := Option.map_eq_some_iff.mp hrow'
    split at hterminal
    · exact absurd hterminal hnew
    next hold =>
      rw [if_neg hold]
      exact h.stamped row hrow hterminal
  recorded := by
    intro t ht
    rw [timeline?_moveStatus_self] at ht
    obtain ⟨t', ht', rfl⟩ := Option.map_eq_some_iff.mp ht
    split
    · exact ⟨(h.recorded t' ht').sorted, (h.recorded t' ht').past⟩
    · exact h.recorded t' ht'

end Database.Punctual

/-- What a run knows that read `count` Attempts when the clock showed `time` or
earlier. -/
structure ReadBy (d : Uuid) (count : ℕ) (time : Instant)
    (s : World × Instant) : Prop where
  behind : Behind count (s.1.db.timeline? d)
  past : ∀ t, s.1.db.timeline? d = some t →
    ∀ o ∈ t.outcomes.take count, o.at_ ≤ time
  shown : time ≤ s.2

/-! ## The discipline -/

namespace Times

variable {d : Uuid} {count : ℕ} {time : Instant}

/-- The clock does not go back, and the Delivery evolves. -/
def Passes (d : Uuid) (s s' : World × Instant) : Prop :=
  s.2 ≤ s'.2 ∧ Evolves Set.univ True (s.1.db.timeline? d) (s'.1.db.timeline? d)

def discipline (d : Uuid) : Discipline Effects Choice (World × Instant) where
  handler := perform.recording fun x _ => x.time
  permits s _ x := s.2 ≤ x.time
  invariant s := s.1.db.Punctual d s.2
  rely := Passes d
  guarantee := Passes d

theorem readBy_passes {s s' : World × Instant} (h : Passes d s s')
    (hs : ReadBy d count time s) : ReadBy d count time s' where
  behind := hs.behind.evolves h.2
  past := by
    intro u hu o ho
    have hevolves := h.2
    rw [hu] at hevolves
    obtain ⟨t, ht, hprefix⟩ := hevolves.outcomes_prefix
    have hbehind := hs.behind
    rw [ht] at hbehind
    obtain ⟨rest, hrest⟩ := hprefix
    rw [← hrest, List.take_append_of_le_length hbehind.le_length] at ho
    exact hs.past t ht o ho
  shown := hs.shown.trans h.1

/-! ## Calls -/

/-- A claim or release of the Delivery, or a call that does not write it. -/
def Moves (d : Uuid) (c : Call) : Prop :=
  c.writes ≠ some d ∨
    (∃ updatedAt, c = .query (.claimPendingDelivery d updatedAt)) ∨
    ∃ updatedAt, c = .query (.resetInProgressDeliveryToPending d updatedAt)

/-- What a run with that knowledge calls: moves, and the transaction that
records its outcome. -/
def Records (d : Uuid) (count : ℕ) (time : Instant) (c : Call) : Prop :=
  Moves d c ∨ ∃ input M, c = .query (.completeDelivery input) ∧
    input.deliveryId = d ∧ input.n = count + 1 ∧ input.at_ = time ∧
      BudgetAllows M input.n input.status

theorem query_moves {db : Database} {latest : Instant}
    (hdb : db.Punctual d latest) {q : Query} (hq : Moves d (.query q)) :
    (q.run db).2.Punctual d latest ∧
      Evolves Set.univ True (db.timeline? d) ((q.run db).2.timeline? d) := by
  rcases hq with hquiet | ⟨updatedAt, hq⟩ | ⟨updatedAt, hq⟩
  · obtain ⟨hrow, hlog⟩ := Query.run_frame hquiet db
    refine ⟨hdb.congr hrow hlog, ?_⟩
    rw [Database.timeline?_congr hrow hlog]
    exact .change (.stay _)
  · cases hq
    exact ⟨hdb.moveStatus (by decide), .change (change_claimPendingDelivery _)⟩
  · cases hq
    exact ⟨hdb.moveStatus (by decide),
      .change (change_resetInProgressDeliveryToPending _)⟩

/-- The transaction of a run that knows what it needs. -/
theorem completeDelivery_records {w : World} {latest : Instant}
    (hw : w.db.Punctual d latest) (hread : ReadBy d count time (w, latest))
    {input : CompleteDeliveryInput} {M : ℕ} (hid : input.deliveryId = d)
    (hn : input.n = count + 1) (hat : input.at_ = time)
    (hbudget : BudgetAllows M input.n input.status) :
    (completeDelivery w.db input).2.Punctual d latest ∧
      Evolves Set.univ True (w.db.timeline? d)
        ((completeDelivery w.db input).2.timeline? d) := by
  subst hid
  obtain ⟨hcons, hchange⟩ := completeDelivery_refines hw.consistent hn
    hread.behind (Set.mem_univ M) hbudget
  refine ⟨⟨hcons, ?_, ?_⟩, .change hchange⟩
  · by_cases hrec : Recordable w.db input
    · intro row' hrow' _
      rw [delivery?_completeDelivery_self hrec] at hrow'
      obtain ⟨row, _, rfl⟩ := Option.map_eq_some_iff.mp hrow'
      rw [attemptLog_completeDelivery_self hrec]
      exact ⟨input.attempt, by simp, rfl, rfl⟩
    · rw [(completeDelivery_of_not_recordable hrec).2]
      exact hw.stamped
  · by_cases hrec : Recordable w.db input
    · obtain ⟨row, hrow, hcount, _⟩ :=
        hw.consistent.recordable_current hn hread.behind hrec
      have ht := Database.timeline?_eq_some hrow
      rw [timeline?_completeDelivery_self hrec hrow]
      intro t ht'
      cases ht'
      have hlength : (row.timeline
          (w.db.attemptLog input.deliveryId)).outcomes.length = count := by
        simpa [hcount] using (hw.consistent row hrow).length_eq
      -- the run has read every Attempt that there is
      refine (hw.recorded _ ht).concat (fun o ho => ?_) ?_
      · refine (hread.past _ ht o ?_).trans_eq hat.symm
        rwa [← hlength, List.take_length]
      · exact hat.trans_le hread.shown
    · rw [(completeDelivery_of_not_recordable hrec).2]
      exact hw.recorded

/-- A call that moves, at any time. -/
theorem keeps_moves {s : World × Instant} {c : Call} {x : Choice}
    (hs : (discipline d).invariant s) (hx : (discipline d).permits s c x)
    (hc : Moves d c) :
    (discipline d).invariant ((discipline d).handler x c s).2 ∧
      (discipline d).guarantee s ((discipline d).handler x c s).2 := by
  have hdb : (perform x c s.1).2.db.Punctual d s.2 ∧
      Evolves Set.univ True (s.1.db.timeline? d)
        ((perform x c s.1).2.db.timeline? d) := by
    by_cases hquery : ∃ q, c = .query q
    · obtain ⟨q, rfl⟩ := hquery
      rcases perform_query_db x q s.1 with h | h
      · rw [h]
        exact ⟨hs, .change (.stay _)⟩
      · rw [h]
        exact query_moves hs hc
    · rw [perform_db_of_not_query fun q hq => hquery ⟨q, hq⟩]
      exact ⟨hs, .change (.stay _)⟩
  exact ⟨hdb.1.mono hx, hx, hdb.2⟩

/-- A call of a run that has read the Attempts. -/
theorem keeps_records {s : World × Instant} {c : Call} {x : Choice}
    (hs : (discipline d).invariant s) (hx : (discipline d).permits s c x)
    (hread : ReadBy d count time s) (hc : Records d count time c) :
    (discipline d).invariant ((discipline d).handler x c s).2 ∧
      (discipline d).guarantee s ((discipline d).handler x c s).2 ∧
      ReadBy d count time ((discipline d).handler x c s).2 := by
  have hkeeps : (discipline d).invariant ((discipline d).handler x c s).2 ∧
      (discipline d).guarantee s ((discipline d).handler x c s).2 := by
    rcases hc with hc | ⟨input, M, rfl, hid, hn, hat, hbudget⟩
    · exact keeps_moves hs hx hc
    · have hdb : (perform x (.query (.completeDelivery input)) s.1).2.db.Punctual
          d s.2 ∧ Evolves Set.univ True (s.1.db.timeline? d)
            ((perform x (.query (.completeDelivery input)) s.1).2.db.timeline?
              d) := by
        rcases perform_query_db x (.completeDelivery input) s.1 with h | h
        · rw [h]
          exact ⟨hs, .change (.stay _)⟩
        · rw [h]
          exact completeDelivery_records hs hread hid hn hat hbudget
      exact ⟨hdb.1.mono hx, hx, hdb.2⟩
  exact ⟨hkeeps.1, hkeeps.2, readBy_passes hkeeps.2 hread⟩

/-! ## Functions -/

variable {α : Type}

theorem ensures_moves {p : Action α} (hp : MakesOnly (Moves d) p)
    (s : World × Instant) : (discipline d).Ensures (fun _ _ => True) p s := by
  have hcalls : p.EveryCall fun c _ => ∀ s x, (discipline d).invariant s →
      (discipline d).permits s c x → True →
      (discipline d).invariant ((discipline d).handler x c s).2 ∧
        (discipline d).guarantee s ((discipline d).handler x c s).2 ∧ True :=
    Program.EveryCall.mono (fun c k hc s x hs hx _ =>
      ⟨(keeps_moves hs hx hc).1, (keeps_moves hs hx hc).2, trivial⟩) hp
  exact (Discipline.Ensures.of_everyCall (fun _ _ _ h => h) hcalls
    Program.EveryEnd.trivial trivial).consequence fun _ _ _ => trivial

/-- What a run knows is not lost while it does nothing else than it says. -/
theorem ensures_records {p : Action α}
    (hp : MakesOnly (Records d count time) p)
    {s : World × Instant} (hs : ReadBy d count time s) :
    (discipline d).Ensures (fun _ t => ReadBy d count time t) p s := by
  have hcalls : p.EveryCall fun c _ => ∀ s x, (discipline d).invariant s →
      (discipline d).permits s c x → ReadBy d count time s →
      (discipline d).invariant ((discipline d).handler x c s).2 ∧
        (discipline d).guarantee s ((discipline d).handler x c s).2 ∧
        ReadBy d count time ((discipline d).handler x c s).2 :=
    Program.EveryCall.mono (fun c k hc s x hs hx hread =>
      keeps_records hs hx hread hc) hp
  exact (Discipline.Ensures.of_everyCall
    (fun _ _ h hread => readBy_passes h hread) hcalls
    Program.EveryEnd.trivial hs).consequence fun _ _ h => h.2

theorem moves_of_writes {c : Call} (hc : c.writes = none) : Moves d c := by
  left
  rw [hc]
  exact (Option.some_ne_none d).symm

theorem moves_markDeliveryInProgress (updatedAt : Instant) :
    MakesOnly (Moves d) (markDeliveryInProgress d updatedAt) := by
  refine ⟨Or.inr (Or.inl ⟨updatedAt, rfl⟩), ?_⟩
  intro answer
  cases answer with
  | error e => trivial
  | ok claimed =>
      cases claimed with
      | true => trivial
      | false =>
          refine ⟨moves_of_writes rfl, ?_⟩
          intro existing
          cases existing with
          | error e => trivial
          | ok status => trivial

theorem records_of_kind {kind : Call → Prop}
    (hkind : ∀ c, kind c → c.writes = none) {p : Action α}
    (hp : MakesOnly kind p) : MakesOnly (Records d count time) p :=
  Program.EveryCall.mono
    (fun c _ hc => Or.inl (moves_of_writes (hkind c hc))) hp

theorem records_computeBackoffDelayMs (input : BackoffInput) :
    MakesOnly (Records d count time) (computeBackoffDelayMs input) :=
  records_of_kind (fun c hc => by rw [hc]; rfl)
    (MakesOnly.computeBackoffDelayMs input)

theorem records_finishAttempt (deps : ProcessDeliveryDeps)
    (attempt : HttpAttempt) {status : DeliveryStatus} {M : ℕ}
    (hbudget : BudgetAllows M (count + 1) status) :
    MakesOnly (Records d count time)
      (finishAttempt deps d (count + 1) attempt time status) := by
  refine ⟨Or.inr ⟨_, M, rfl, rfl, rfl, rfl, hbudget⟩, ?_⟩
  intro answer
  cases answer with
  | ok result => trivial
  | error e =>
      refine ⟨Or.inl (Or.inr (Or.inr ⟨time, rfl⟩)), ?_⟩
      intro released
      cases released with
      | error e => trivial
      | ok released =>
          refine MakesOnly.bind trivial fun _ => ?_
          exact MakesOnly.bind (records_computeBackoffDelayMs _)
            fun _ => trivial

theorem records_settleAttempt (deps : ProcessDeliveryDeps)
    (record : DeliveryForProcessing) (attempt : HttpAttempt) :
    MakesOnly (Records d count time)
      (settleAttempt deps record d (count + 1) attempt time) := by
  have hdisable : MakesOnly (Records d count time) (do
      let _ ← maybeAutoDisableEndpoint record.endpointId
        deps.endpointAutoDisableAfterMs time
      return ()) :=
    MakesOnly.bind (records_of_kind (fun _ => writes_of_onEndpoint)
      (MakesOnly.maybeAutoDisableEndpoint _ _ _)) fun _ => trivial
  unfold settleAttempt
  split
  · exact records_finishAttempt (M := 0) deps attempt trivial
  · split
    · have hfailed : BudgetAllows 0 (count + 1) .failed := trivial
      exact (records_finishAttempt deps attempt hfailed).bind fun _ => hdisable
    · split
      next hexhausted =>
        have hdead : BudgetAllows deps.maxAttempts (count + 1) .deadLettered :=
          hexhausted
        exact (records_finishAttempt deps attempt hdead).bind
          fun _ => hdisable
      next hleft =>
        have hpending : BudgetAllows deps.maxAttempts (count + 1) .pending :=
          Nat.lt_of_not_le hleft
        exact (records_finishAttempt deps attempt hpending).bind
          fun _ => MakesOnly.bind (records_computeBackoffDelayMs _)
            fun _ => trivial

/-- The first read of a run is of all Attempts that there are by now. -/
theorem readBy_of_read {s : World × Instant} (hs : (discipline d).invariant s)
    {x : Choice} (hx : (discipline d).permits s .now x)
    {record : DeliveryForProcessing}
    (hread : getDeliveryForProcessing s.1.db d = some record)
    (hlive : record.status.Live) :
    ReadBy d record.attemptCount x.time (s.1, x.time) where
  behind := Regime.behind_of_read hs.consistent hread hlive
  past t ht o ho :=
    ((hs.recorded t ht).past o (List.mem_of_mem_take ho)).trans hx
  shown := le_refl _

/-- A later reading of the clock will do as well. -/
theorem readBy_later {s : World × Instant} (h : ReadBy d count time s)
    {later : Instant} (hlater : s.2 ≤ later) :
    ReadBy d count later (s.1, later) where
  behind := h.behind
  past t ht o ho := (h.past t ht o ho).trans (h.shown.trans hlater)
  shown := le_refl _

theorem ensures_done (t : World × Instant) :
    (discipline d).Ensures (fun _ _ => True) (Program.done () : Action Unit) t :=
  fun _ _ => trivial

/-- The run after its first read. -/
theorem ensures_attempt (dateParse : String → Option Instant)
    (deps : ProcessDeliveryDeps) (record : DeliveryForProcessing)
    {s : World × Instant} (hs : ReadBy d record.attemptCount time s) :
    (discipline d).Ensures (fun _ _ => True) (do
      let claimedAt ← now
      let inProgress ← markDeliveryInProgress d claimedAt
      if !inProgress then
        return ()
      else
        let attempt ← dialEndpoint dateParse deps record
        let n := record.attemptCount + 1
        let at_ ← now
        settleAttempt deps record d n attempt at_) s := by
  have hmoves {α : Type} {p : Action α} (hp : MakesOnly (Moves d) p) :
      MakesOnly (Records d record.attemptCount time) p :=
    Program.EveryCall.mono (fun _ _ hc => Or.inl hc) hp
  refine Discipline.Ensures.bind ?_ (fun _ _ _ => trivial) (ensures_records
    (hmoves (MakesOnly.call (moves_of_writes rfl))) hs)
  intro claimedAt t ht
  refine Discipline.Ensures.bind ?_ (fun _ _ _ => trivial) (ensures_records
    (hmoves (moves_markDeliveryInProgress claimedAt)) ht)
  intro inProgress u hu
  cases inProgress with
  | false => exact ensures_done u
  | true =>
      refine Discipline.Ensures.bind ?_ (fun _ _ _ => trivial) (ensures_records
        (records_of_kind (fun _ => writes_of_dials)
          (MakesOnly.dialEndpoint dateParse deps record)) hu)
      -- the next reading is the one that the Attempt will carry
      intro attempt v hv v' hvv' hinv x hx
      have hmoves := keeps_moves hinv hx (c := .now) (moves_of_writes rfl)
      have hstill : ReadBy d record.attemptCount time v' :=
        hvv'.preserves (fun _ _ => readBy_passes) hv
      exact ⟨hmoves.1, hmoves.2,
        (ensures_records (records_settleAttempt deps record attempt)
          (readBy_later hstill hx)).consequence fun _ _ _ => trivial⟩

/-- A run of the Delivery keeps the times in order. -/
theorem ensures_processDelivery (dateParse : String → Option Instant)
    (deps : ProcessDeliveryDeps) (s : World × Instant) :
    (discipline d).Ensures (fun _ _ => True)
      (processDelivery dateParse deps d) s := by
  intro t _ ht x hx
  obtain ⟨hinv, hguarantee⟩ := keeps_moves ht hx
    (c := .query (.getDeliveryForProcessing d)) (moves_of_writes rfl)
  refine ⟨hinv, hguarantee, ?_⟩
  rcases perform_read (x := x) (q := .getDeliveryForProcessing d) (w := t.1) rfl
    with ⟨hanswer, -⟩ | ⟨e, hanswer, -⟩
  · dsimp only [discipline, Handler.recording]
    rw [hanswer]
    dsimp only [Query.run]
    cases hrecord : getDeliveryForProcessing t.1.db d with
    | none => exact ensures_done _
    | some record =>
        change (discipline d).Ensures _ (if record.status ≠ .pending ∧
          record.status ≠ .inProgress then _ else _) _
        split
        next => exact ensures_done _
        next hguard =>
          have hlive : record.status.Live := by
            rcases Classical.not_and_iff_not_or_not.mp hguard with h | h
            · exact Or.inl (not_not.mp h)
            · exact Or.inr (not_not.mp h)
          exact ensures_attempt dateParse deps record
            (readBy_of_read ht hx hrecord hlive)
  · dsimp only [discipline, Handler.recording]
    rw [hanswer]
    exact fun _ _ => trivial

/-! ## Histories -/

/-- The workers, with the latest reading of the clock beside the world. -/
def clocked (dateParse : String → Option Instant) :
    System Effects Thrown Unit Task Choice Background (World × Instant) :=
  (workers dateParse).recording fun x _ => x.time

theorem background_punctual (b : Background) {w : World} {latest : Instant}
    (hw : w.db.Punctual d latest) :
    (b.run w).db.Punctual d latest ∧
      Evolves Set.univ True (w.db.timeline? d) ((b.run w).db.timeline? d) := by
  cases b with
  | retry deliveryId updatedAt =>
      by_cases hid : d = deliveryId
      · subst hid
        exact ⟨hw.moveStatus (by decide),
          evolves_retryDeadLetteredDelivery trivial⟩
      · have hrow : (retryDeadLetteredDelivery w.db deliveryId
            updatedAt).2.delivery? d = w.db.delivery? d :=
          delivery?_moveStatus_of_ne hid
        refine ⟨hw.congr hrow rfl, ?_⟩
        rw [show (Background.run (.retry deliveryId updatedAt) w).db.timeline? d =
          w.db.timeline? d from Database.timeline?_congr hrow rfl]
        exact .change (.stay _)
  | sweep cutoff =>
      rcases w.db.delivery?_deleteBroadcasts
        (fun row => row.receivedAt < cutoff) d with hgone | ⟨hrow, hlog⟩
      · refine ⟨.of_none hgone, ?_⟩
        rw [show (Background.run (.sweep cutoff) w).db.timeline? d = none from
          Database.timeline?_eq_none_iff.mpr hgone]
        exact .vanish _
      · refine ⟨hw.congr hrow hlog, ?_⟩
        rw [show (Background.run (.sweep cutoff) w).db.timeline? d =
          w.db.timeline? d from Database.timeline?_congr hrow hlog]
        exact .change (.stay _)

theorem clocked_upholds (dateParse : String → Option Instant) (d : Uuid) :
    (clocked dateParse).Upholds (discipline d) (fun _ _ _ => True)
      (fun _ => True) (fun _ => True) where
  handler_eq := rfl
  program_ensures := by
    intro task _ s
    by_cases hid : task.deliveryId = d
    · subst hid
      exact ensures_processDelivery dateParse task.deps s
    · exact ensures_moves (Program.EveryCall.mono (fun _ _ hc => Or.inl hc)
        (Quiet.of_shape hid (shape_processDelivery dateParse))) s
  guarantee_rely := fun _ _ h => h
  background_invariant := fun b _ _ hs => (background_punctual b hs).1
  background_rely := fun b _ _ hs =>
    ⟨le_refl _, (background_punctual b hs).2⟩

/-- The latest reading is not later than the next one. -/
theorem clocked_admissible (dateParse : String → Option Instant) (d : Uuid)
    {history : History} (hclock : (readings history).Pairwise (· ≤ ·))
    {start : Instant} (hstart : ∀ t ∈ readings history, start ≤ t) (w : World) :
    (clocked dateParse).AdmissibleRun (discipline d) (fun _ => True)
      (fun _ => True) (Pool.idle (w, start)) history := by
  rintro before e after rfl
  cases e with
  | start task => trivial
  | background b => trivial
  | step i x =>
      intro run c k _ _
      have hnow : x.time ∈ readings (before ++ .step i x :: after) := by
        simp [readings]
      rcases (workers dateParse).recorded_cases Choice.time
        (P := Pool.idle (w, start)) before with h | ⟨i', x', hmem, h⟩
      · exact (le_of_eq h).trans (hstart _ hnow)
      · have hle : x'.time ≤ x.time := by
          rw [readings, List.filterMap_append, List.pairwise_append] at hclock
          refine hclock.2.2 _ ?_ _ ?_
          · exact List.mem_filterMap.mpr ⟨_, hmem, rfl⟩
          · simp
        exact (le_of_eq h).trans hle

theorem exists_start {times : List Instant}
    (htimes : times.Pairwise (· ≤ ·)) : ∃ start, ∀ t ∈ times, start ≤ t := by
  cases times with
  | nil => exact ⟨0, by simp⟩
  | cons first rest =>
      refine ⟨first, ?_⟩
      intro t ht
      rcases List.mem_cons.mp ht with rfl | ht
      · exact le_refl _
      · exact (List.pairwise_cons.mp htimes).1 t ht

theorem punctual_fresh {db : Database} (h : db.Fresh d) (latest : Instant) :
    db.Punctual d latest where
  consistent := h.consistent
  stamped := by
    obtain ⟨row, hrow, hprogress, -⟩ := h
    intro row' hrow' hterminal
    rw [hrow] at hrow'
    cases hrow'
    rw [show row.status = .pending from congrArg Progress.status hprogress]
      at hterminal
    exact absurd hterminal (by decide)
  recorded := by
    intro t ht
    rw [h.timeline?_eq] at ht
    cases ht
    exact ⟨List.Pairwise.nil, by simp⟩

theorem punctual_reached (dateParse : String → Option Instant) {w : World}
    (hw : w.db.Fresh d) {history : History}
    (hclock : (readings history).Pairwise (· ≤ ·)) :
    ∃ latest, (reached dateParse w history).Punctual d latest := by
  obtain ⟨start, hstart⟩ := exists_start hclock
  have hsound := (clocked_upholds dateParse d).exec
    (P := Pool.idle (w, start)) (.idle (punctual_fresh hw start))
    (clocked_admissible dateParse d hclock hstart w)
  have hforget := (workers dateParse).forget_exec (fun x _ => x.time)
    (Pool.idle (w, start)) history
  have hstate : ((clocked dateParse).exec (Pool.idle (w, start))
      history).state.1.db = reached dateParse w history :=
    congrArg (fun P => P.state.db) hforget
  rw [← hstate]
  exact ⟨_, hsound.invariant⟩

/-- Sorted by number and by time, a log has both orders at once. -/
theorem at_le_of_n_le {log : List AttemptRow}
    (hn : (log.map AttemptRow.n).Pairwise (· < ·))
    (hat : (log.map AttemptRow.at_).Pairwise (· ≤ ·)) {a b : AttemptRow}
    (ha : a ∈ log) (hb : b ∈ log) (hle : a.n ≤ b.n) : a.at_ ≤ b.at_ := by
  rw [List.pairwise_map, List.pairwise_iff_getElem] at hn hat
  obtain ⟨i, hi, rfl⟩ := List.mem_iff_getElem.mp ha
  obtain ⟨j, hj, rfl⟩ := List.mem_iff_getElem.mp hb
  rcases lt_trichotomy i j with hij | rfl | hij
  · exact hat i j hi hj hij
  · exact le_refl _
  · exact absurd (hn j i hj hi hij) (not_lt.mpr hle)

end Times

/-- On one clock that never goes back the times of the Attempts follow their
numbers, and a terminal Delivery was last updated when its last Attempt was
observed. -/
theorem attempt_times (dateParse : String → Option Instant) (d : Uuid)
    (w : World) (hw : w.db.Fresh d) (history : History)
    (hclock : (readings history).Pairwise (· ≤ ·)) :
    let db := reached dateParse w history
    (∀ a ∈ db.attemptLog d, ∀ b ∈ db.attemptLog d,
      a.n ≤ b.n → a.at_ ≤ b.at_) ∧
    ∀ row, db.delivery? d = some row → row.status.Terminal →
      ∃ a ∈ db.attemptLog d, a.n = row.attemptCount ∧
        a.at_ = row.updatedAt := by
  obtain ⟨latest, hpunctual⟩ := Times.punctual_reached dateParse hw hclock
  refine ⟨?_, hpunctual.stamped⟩
  intro a ha b hb hle
  cases hrow : (reached dateParse w history).delivery? d with
  | none =>
      rw [Database.attemptLog_eq_nil hrow] at ha
      exact absurd ha List.not_mem_nil
  | some row =>
      refine Times.at_le_of_n_le ?_ ?_ ha hb hle
      · rw [(hpunctual.consistent row hrow).numbers]
        exact List.pairwise_lt_range'
      · have hsorted := (hpunctual.recorded _
          (Database.timeline?_eq_some hrow)).sorted
        rwa [DeliveryRow.timeline_outcomes, List.map_map] at hsorted

/-- A run that stalls between its reading and its write, another one that dead
letters the Delivery meanwhile, and a retry with an old time. -/
def stalledRun : History :=
  let task : Task :=
    ⟨{ defaultTimeoutMs := 1000, maxAttempts? := some 1 }, 0⟩
  let refused (time : Instant) : Choice :=
    { time := time, reply := .response 500 none }
  [.start task, .start task] ++ List.replicate 8 (.step 0 (refused 10)) ++
    List.replicate 12 (.step 1 (refused 20)) ++
    .background (.retry 0 5) :: List.replicate 4 (.step 0 (refused 30)) ++
    .start task :: List.replicate 12 (.step 2 (refused 40))

theorem attempt_times_stalledRun :
    ((reached (fun _ => none) (World.ofTimeline 0 ⟨.pending, []⟩)
        stalledRun).attemptLog 0).map (fun a => (a.n, a.at_)) =
      [(1, 20), (2, 40)] ∧
    ∀ row, (reached (fun _ => none) (World.ofTimeline 0 ⟨.pending, []⟩)
        stalledRun).delivery? 0 = some row → row.status.Terminal →
      ∃ a ∈ (reached (fun _ => none) (World.ofTimeline 0 ⟨.pending, []⟩)
        stalledRun).attemptLog 0, a.n = row.attemptCount ∧
          a.at_ = row.updatedAt :=
  ⟨by decide, (attempt_times _ 0 _ (fresh_ofTimeline 0) stalledRun
    (by decide)).2⟩

end WebhookBroadcast
