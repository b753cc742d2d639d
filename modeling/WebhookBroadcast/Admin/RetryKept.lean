import WebhookBroadcast.Admin.RetryRace

/-!
# When an accepted retry is kept

The route is verified against the worker.  After the update it has to find out
what became of the old job: no job, a finished one that it removes, or one that
will still run.  Only a job with a stale run passes for one that will still run
and does not.
-/

namespace WebhookBroadcast

open Interaction Timeline

/-! ## The discipline of the route -/

section Discipline

variable (dateParse : String → Option Instant) (deps : ProcessDeliveryDeps)
  (d : Uuid) (steady : Prop)

/-- The worker may do whatever does not give up the job, and `getState` does
not show a stale run. -/
def retrying : Discipline Effects Choice Scene where
  handler := routeHandler
  permits s c x := ¬ s.ShowsStaleRun d c x
  invariant s := s.Orderly dateParse deps d steady
  rely s s' := s.Orderly dateParse deps d steady ∧
    ∃ e, s.Moves dateParse deps d e s' ∧ ¬ s.GivesUp d e
  guarantee _ _ := True

/-- An answer of `200` leaves a job that will work on the Delivery. -/
def keepsRetry (r : Except Thrown Response) (s : Scene) : Prop :=
  (∃ row, r = .ok ⟨200, .delivery row⟩) → s.Fresh ∧ s.Kept d

/-- `add` will create a job, or finds one that will still run. -/
structure Scene.Ready (s : Scene) : Prop where
  fresh : s.Fresh
  job : s.world.jobs d = none ∨ s.Kept d

/-- The worker does not disturb the fact. -/
def Lasting (fact : Scene → Prop) : Prop :=
  ∀ s t, (retrying dateParse deps d steady).rely s t → fact s → fact t

variable {dateParse deps d steady}

theorem lasting_accepted (b : Bool) :
    Lasting dateParse deps d steady fun s => s.accepted = b := by
  rintro s t ⟨_, e, he, _⟩ hs
  rw [he.accepted_eq]
  exact hs

theorem lasting_fresh : Lasting dateParse deps d steady Scene.Fresh := by
  rintro s t ⟨_, e, he, _⟩ hs
  exact hs.moves he

theorem lasting_kept :
    Lasting dateParse deps d steady fun s => s.Fresh ∧ s.Kept d := by
  rintro s t ⟨hs, e, he, hgives⟩ ⟨hfresh, hkept⟩
  exact ⟨hfresh.moves he, hkept.moves hs hfresh he hgives⟩

theorem lasting_ready : Lasting dateParse deps d steady (Scene.Ready d) := by
  rintro s t ⟨hs, e, he, hgives⟩ hready
  rcases hready.job with hnone | hkept
  · rw [hs.moves_of_none he hnone]
    exact hready
  · exact ⟨hready.fresh.moves he,
      Or.inr (hkept.moves hs hready.fresh he hgives)⟩

end Discipline

/-! ## The calls of the route -/

section Calls

variable {dateParse : String → Option Instant} {deps : ProcessDeliveryDeps}
  {d : Uuid} {steady : Prop}

/-- A run does not notice what happens to the jobs. -/
theorem always_congr_db {script : RunScript} {p : Action Unit} {capMs : ℕ}
    {post : Except Thrown Unit → World → Prop}
    (hp : p.EveryCall (Shape d capMs))
    (hpost : ∀ r w w', w.db = w'.db → post r w → post r w')
    {w w' : World} (hdb : w.db = w'.db) (h : p.Always script.perform post w) :
    p.Always script.perform post w' := by
  have hcalls : p.EveryCall fun c _ => ∀ x (s t : World), s.db = t.db →
      (script.perform x c s).1 = (script.perform x c t).1 ∧
        (script.perform x c s).2.db = (script.perform x c t).2.db :=
    hp.mono fun c k hc x s t hst =>
      perform_congr_db (not_queue_of_shape hc) _ hst
  exact Program.Always.transport hpost hcalls hdb h

/-- A queue call keeps the scene in order if it leaves an active job alone and
makes no job active. -/
theorem Scene.Orderly.setJobs {s : Scene}
    (hs : s.Orderly dateParse deps d steady) {jobs : JobStore}
    (hjobs : (jobs d).map Job.state = some .active ↔
      (s.world.jobs d).map Job.state = some .active) :
    Scene.Orderly dateParse deps d steady
      ⟨{ s.world with jobs := jobs }, s.run, s.accepted⟩ := by
  refine ⟨hs.consistent, hs.exhausted, hjobs.trans hs.active_iff, ?_⟩
  intro run hrun
  have h := hs.run run hrun
  refine ⟨h.shape, ?_, h.unread, h.faultless, ?_⟩
  · refine h.ensures.interfere (Relation.ReflTransGen.single ?_)
    exact .change (.stay _)
  · intro haccepted hstale
    refine always_congr_db (w := s.world) h.shape ?_ rfl
      (h.finishes haccepted hstale)
    rintro r w w' hdb ⟨hsettled, hresolves⟩
    rw [hdb] at hsettled
    exact ⟨hsettled, hresolves⟩

/-- An accepted retry overtakes the current run.  A run that has not read the
row yet will find it as the retry left it. -/
theorem Scene.Orderly.overtaken {s : Scene}
    (hs : s.Orderly dateParse deps d steady) (haccepted : s.accepted = false)
    {at_ : Instant}
    (hretried : (retryDeadLetteredDelivery s.world.db d at_).1 = true) :
    Scene.Orderly dateParse deps d steady
      ⟨{ s.world with
          db := (retryDeadLetteredDelivery s.world.db d at_).2 },
        s.run.map JobRun.overtaken, true⟩ := by
  have hconsistent : (retryDeadLetteredDelivery s.world.db d at_).2.Consistent
      d := hs.consistent.moveStatus
  obtain ⟨t, u, ht, hu, hreopens⟩ :=
    reopens_of_retryDeadLetteredDelivery hretried
  have hexhausted (hsteady : steady) : Exhausted deps.maxAttempts true
      ((retryDeadLetteredDelivery s.world.db d at_).2.timeline? d) := by
    have hbefore := hs.exhausted hsteady
    rw [haccepted, ht] at hbefore
    rw [hu]
    exact hbefore.reopens hreopens
  refine ⟨hconsistent, hexhausted, ?_, ?_⟩
  · rw [hs.active_iff, Option.isSome_map]
  · intro run hrun
    obtain ⟨old, hold, rfl⟩ := Option.map_eq_some_iff.mp hrun
    have h := hs.run old hold
    refine ⟨h.shape, ?_, h.unread, h.faultless, fun _ hunread => ?_⟩
    · refine h.ensures.interfere (Relation.ReflTransGen.single ?_)
      exact evolves_retryDeadLetteredDelivery trivial
    · have hprogram : old.overtaken.program =
          processDelivery dateParse deps d := h.unread hunread
      rw [hprogram]
      exact finishes_of_exhausted hconsistent hexhausted h.faultless

/-- The update keeps the scene in order also when no answer of it arrives. -/
theorem Scene.Orderly.unanswered {s : Scene}
    (hs : s.Orderly dateParse deps d steady) (haccepted : s.accepted = false)
    (at_ : Instant) :
    Scene.Orderly dateParse deps d steady
      ⟨{ s.world with
          db := (retryDeadLetteredDelivery s.world.db d at_).2 },
        s.run, s.accepted⟩ := by
  refine ⟨hs.consistent.moveStatus, ?_, hs.active_iff, ?_⟩
  · intro hsteady
    have hbefore := hs.exhausted hsteady
    rw [haccepted] at hbefore ⊢
    exact hbefore.evolves (evolves_retryDeadLetteredDelivery trivial)
  · intro run hrun
    have h := hs.run run hrun
    refine ⟨h.shape, ?_, h.unread, h.faultless, fun haccepted' => ?_⟩
    · refine h.ensures.interfere (Relation.ReflTransGen.single ?_)
      exact evolves_retryDeadLetteredDelivery trivial
    · have haccepted' : s.accepted = true := haccepted'
      rw [haccepted] at haccepted'
      cases haccepted'

end Calls

/-! ## The route -/

section Route

variable {dateParse : String → Option Instant} {deps : ProcessDeliveryDeps}
  {d : Uuid} {steady : Prop}

variable (dateParse deps d steady) in
/-- From here on, the route answers `200` only if the retry is kept. -/
def Keeps (p : Action Response) (s : Scene) : Prop :=
  (retrying dateParse deps d steady).Ensures (keepsRetry d) p s

theorem keeps_fail (e : Thrown) (s : Scene) :
    Keeps dateParse deps d steady (.fail e) s := by
  rintro t _ ⟨row, h⟩
  cases h

theorem keeps_done {response : Response}
    (h : ∀ row, response ≠ ⟨200, .delivery row⟩) (s : Scene) :
    Keeps dateParse deps d steady (.done response) s := by
  rintro t _ ⟨row, hrow⟩
  exact absurd (Except.ok.inj hrow) (h row)

theorem routeHandler_of_not_accepts {x : Choice} {c : Call} {s : Scene}
    (h : accepts c (perform x c s.world).1 = false) :
    routeHandler x c s = ((perform x c s.world).1,
      ⟨(perform x c s.world).2, s.run, s.accepted⟩) := by
  simp [routeHandler, h]

theorem routeHandler_of_accepts {x : Choice} {c : Call} {s : Scene}
    (h : accepts c (perform x c s.world).1) :
    routeHandler x c s = ((perform x c s.world).1,
      ⟨(perform x c s.world).2, s.run.map JobRun.overtaken, true⟩) := by
  simp [routeHandler, h]

section Rules

variable {fact : Scene → Prop} {s : Scene}

/-- The rule for a call, with a fact that lasts until it is made. -/
theorem keeps_call {c : Call} {k : c.Answer → Action Response}
    (hlasting : Lasting dateParse deps d steady fact) (hs : fact s)
    (hcall : ∀ (t : Scene) x, t.Orderly dateParse deps d steady → fact t →
      ¬ t.ShowsStaleRun d c x →
      (routeHandler x c t).2.Orderly dateParse deps d steady ∧
        Keeps dateParse deps d steady (k (routeHandler x c t).1)
          (routeHandler x c t).2) :
    Keeps dateParse deps d steady (.call c k) s := by
  intro t hst ht x hx
  obtain ⟨hinv, hk⟩ := hcall t x ht (hst.preserves hlasting hs) hx
  exact ⟨hinv, trivial, hk⟩

theorem keeps_read {f : Option DeliveryDetailRow → Action Response}
    (hlasting : Lasting dateParse deps d steady fact) (hs : fact s)
    (hf : ∀ t, fact t →
      Keeps dateParse deps d steady
        (f (getDeliveryDetailById t.world.db d)) t) :
    Keeps dateParse deps d steady
      (query (.getDeliveryDetailById d) >>= f) s := by
  refine keeps_call hlasting hs fun t x ht hfact _ => ?_
  rw [routeHandler_of_not_accepts rfl]
  cases hfault : x.fault with
  | none =>
      rw [perform_query_of_none hfault]
      exact ⟨ht, hf t hfact⟩
  | some fault =>
      rw [perform_query_of_some hfault]
      refine ⟨?_, keeps_fail _ _⟩
      change Scene.Orderly _ _ _ _
        ⟨if fault.applied then t.world else t.world, t.run, t.accepted⟩
      rw [ite_self]
      exact ht

theorem keeps_queueCall {q : QueueCall} {f : q.Result → Action Response}
    (hlasting : Lasting dateParse deps d steady fact) (hs : fact s)
    (hq : ∀ t : Scene, t.Orderly dateParse deps d steady →
      Scene.Orderly dateParse deps d steady
        ⟨{ t.world with jobs := (q.run t.world.jobs).2 }, t.run, t.accepted⟩)
    (hf : ∀ t : Scene, t.Orderly dateParse deps d steady → fact t →
      (q = .getState d → ¬ t.run.any JobRun.stale) →
      Keeps dateParse deps d steady (f (q.run t.world.jobs).1)
        ⟨{ t.world with jobs := (q.run t.world.jobs).2 }, t.run,
          t.accepted⟩) :
    Keeps dateParse deps d steady (queueCall q >>= f) s := by
  refine keeps_call hlasting hs fun t x ht hfact hx => ?_
  rw [routeHandler_of_not_accepts rfl]
  cases hfault : x.fault with
  | none =>
      rw [perform_queue_of_none hfault]
      refine ⟨hq t ht, hf t ht hfact fun hstate hstale => hx ?_⟩
      exact ⟨congrArg Call.queue hstate, hfault, hstale⟩
  | some fault =>
      rw [perform_queue_of_some hfault]
      refine ⟨?_, keeps_fail _ _⟩
      by_cases happlied : fault.applied
      · rw [if_pos happlied]
        exact hq t ht
      · rw [if_neg happlied]
        exact ht

end Rules

theorem keeps_add {maxAttempts : ℕ} {item : DeliveryWorkItem}
    {f : Unit → Action Response} {s : Scene} (hs : s.Ready d)
    (hf : ∀ t, t.Fresh ∧ t.Kept d → Keeps dateParse deps d steady (f ()) t) :
    Keeps dateParse deps d steady
      (queueCall (.add d maxAttempts item) >>= f) s := by
  refine keeps_queueCall lasting_ready hs ?_ ?_
  · exact fun t ht => ht.setJobs (t.world.jobs.add_active_iff d _ _)
  · intro t _ hready _
    refine hf _ ⟨⟨hready.fresh.accepted, hready.fresh.run⟩, ?_⟩
    intro hpending
    exact unfinished_add (hready.job.imp_right fun hkept => hkept hpending)

/-- The job is removed, or it is active by now and its run is not stale. -/
theorem keeps_remove {f : Unit → Action Response} {s : Scene} (hs : s.Fresh)
    (hf : ∀ t : Scene, t.Ready d → Keeps dateParse deps d steady (f ()) t) :
    Keeps dateParse deps d steady (queueCall (.remove d) >>= f) s := by
  refine keeps_queueCall lasting_fresh hs ?_ ?_
  · intro t ht
    refine ht.setJobs ?_
    rcases t.world.jobs.remove_self d with ⟨hnone, hne⟩ | ⟨hsame, _⟩
    · simp [QueueCall.run, hnone, hne]
    · simp [QueueCall.run, hsame]
  · intro t _ hfresh _
    refine hf _ ⟨⟨hfresh.accepted, hfresh.run⟩, ?_⟩
    rcases t.world.jobs.remove_self d with ⟨hnone, _⟩ | ⟨hsame, hactive⟩
    · exact Or.inl hnone
    · right
      intro _
      obtain ⟨job, hjob, hstate⟩ := Option.map_eq_some_iff.mp hactive
      refine ⟨job, ?_, by simp [hstate, JobState.Finished]⟩
      change t.world.jobs.remove d d = some job
      rw [hsame, hjob]

theorem Scene.Orderly.fresh_of_none {s : Scene}
    (hs : s.Orderly dateParse deps d steady) (haccepted : s.accepted = true)
    (hnone : s.world.jobs d = none) : s.Fresh := by
  have hidle := hs.active_iff
  rw [hnone] at hidle
  have hrun : s.run = none := by simpa using hidle
  refine ⟨haccepted, fun run hsome => ?_⟩
  rw [hrun] at hsome
  cases hsome

theorem Scene.fresh_of_getState {s : Scene} (haccepted : s.accepted = true)
    (hstale : ¬ s.run.any JobRun.stale) : s.Fresh := by
  refine ⟨haccepted, fun run hrun => ?_⟩
  rw [hrun] at hstale
  simpa using hstale

/-- Removing a finished job makes the queue ready, unless `getState` shows a
stale run. -/
theorem keeps_removeFinishedJob {f : Unit → Action Response} {s : Scene}
    (hs : s.accepted = true)
    (hf : ∀ t : Scene, t.Ready d → Keeps dateParse deps d steady (f ()) t) :
    Keeps dateParse deps d steady (removeFinishedJob d >>= f) s := by
  unfold removeFinishedJob
  rw [Program.bind_assoc]
  refine keeps_queueCall (lasting_accepted true) hs (fun t ht => ht) ?_
  intro t ht haccepted _
  change Keeps dateParse deps d steady
    ((if (!(t.world.jobs d).isSome) then _ else _ : Action Unit) >>= f) t
  cases hjob : t.world.jobs d with
  | none => exact hf t ⟨ht.fresh_of_none haccepted hjob, Or.inl hjob⟩
  | some job =>
      simp only [Option.isSome_some, Bool.not_true, Bool.false_eq_true,
        if_false, Program.bind_assoc]
      -- The job may have moved on between the two calls.
      refine keeps_queueCall (lasting_accepted true) haccepted
        (fun u hu => hu) ?_
      intro u _ haccepted hstale
      have hfresh : u.Fresh :=
        Scene.fresh_of_getState haccepted (hstale rfl)
      change Keeps dateParse deps d steady
        ((if (u.world.jobs d).map Job.state = some .completed ∨
            (u.world.jobs d).map Job.state = some .failed then _ else _ :
          Action Unit) >>= f) u
      split
      · exact keeps_remove hfresh hf
      next hunfinished =>
        refine hf u ⟨hfresh, ?_⟩
        cases hjob : u.world.jobs d with
        | none => exact Or.inl rfl
        | some job =>
            rw [hjob, Option.map_some, Option.some.injEq,
              Option.some.injEq] at hunfinished
            exact Or.inr fun _ => ⟨job, hjob, hunfinished⟩

theorem keeps_enqueue {maxAttempts : ℕ} {item : DeliveryWorkItem}
    (hid : item.deliveryId = d) {f : Unit → Action Response} {s : Scene}
    (hs : s.accepted = true)
    (hf : ∀ t, t.Fresh ∧ t.Kept d → Keeps dateParse deps d steady (f ()) t) :
    Keeps dateParse deps d steady (enqueue maxAttempts item >>= f) s := by
  subst hid
  unfold enqueue
  rw [Program.bind_assoc]
  exact keeps_removeFinishedJob hs fun t ht => keeps_add ht hf

/-- The last read decides the answer and nothing else. -/
theorem keeps_reread {s : Scene} (hs : s.Fresh ∧ s.Kept d)
    {f : Option DeliveryDetailRow → Action Response}
    (hf : ∀ updated, ∃ response, f updated = .done response) :
    Keeps dateParse deps d steady
      (query (.getDeliveryDetailById d) >>= f) s := by
  refine keeps_read lasting_kept hs fun t ht => ?_
  obtain ⟨response, hresponse⟩ := hf (getDeliveryDetailById t.world.db d)
  rw [hresponse]
  exact fun u htu _ => htu.preserves lasting_kept ht

/-- From the update to the next call: the retry is refused, or it is accepted
and the current run notices. -/
theorem keeps_update {at_ : Instant} {f : Bool → Action Response} {s : Scene}
    (hs : s.accepted = false)
    (hrefused : ∀ t : Scene, t.accepted = false →
      Keeps dateParse deps d steady (f false) t)
    (haccepted : ∀ t : Scene, t.accepted = true →
      Keeps dateParse deps d steady (f true) t) :
    Keeps dateParse deps d steady
      (query (.retryDeadLetteredDelivery d at_) >>= f) s := by
  refine keeps_call (lasting_accepted false) hs fun t x ht hfalse _ => ?_
  let update : Query := .retryDeadLetteredDelivery d at_
  let retried := (retryDeadLetteredDelivery t.world.db d at_).1
  cases hfault : x.fault with
  | none =>
      have haccepts : accepts (.query update)
          (perform x (.query update) t.world).1 = retried := by
        rw [perform_query_of_none hfault]
        rfl
      cases hretried : retried with
      | true =>
          rw [hretried] at haccepts
          rw [routeHandler_of_accepts haccepts, perform_query_of_none hfault]
          refine ⟨ht.overtaken hfalse hretried, ?_⟩
          change Keeps dateParse deps d steady (f retried) _
          rw [hretried]
          exact haccepted _ rfl
      | false =>
          rw [hretried] at haccepts
          rw [routeHandler_of_not_accepts haccepts,
            perform_query_of_none hfault]
          refine ⟨ht.unanswered hfalse at_, ?_⟩
          change Keeps dateParse deps d steady (f retried) _
          rw [hretried]
          exact hrefused _ hfalse
  | some fault =>
      have haccepts : accepts (.query update)
          (perform x (.query update) t.world).1 = false := by
        rw [perform_query_of_some hfault]
        rfl
      rw [routeHandler_of_not_accepts haccepts, perform_query_of_some hfault]
      refine ⟨?_, keeps_fail _ _⟩
      by_cases happlied : fault.applied
      · rw [if_pos happlied]
        exact ht.unanswered hfalse at_
      · rw [if_neg happlied]
        exact ht

theorem keeps_retryDelivery {maxAttempts : ℕ} {s : Scene}
    (hs : s.accepted = false) :
    Keeps dateParse deps d steady (retryDelivery maxAttempts d) s := by
  refine keeps_call (lasting_accepted false) hs fun t x ht ht' _ => ⟨ht, ?_⟩
  refine keeps_update ht' ?_ ?_
  · intro u hu
    refine keeps_read (lasting_accepted false) hu fun v _ => ?_
    cases getDeliveryDetailById v.world.db d with
    | none => exact keeps_done (by simp [deliveryNotFound]) v
    | some row => exact keeps_done (by simp [notDeadLettered]) v
  · intro u hu
    refine keeps_read (lasting_accepted true) hu fun v hv => ?_
    cases hrow : getDeliveryDetailById v.world.db d with
    | none => exact keeps_done (by simp [deliveryNotFound]) v
    | some row =>
        have hid : row.id = d := id_of_getDeliveryDetailById hrow
        refine keeps_call (lasting_accepted true) hv fun z y hz hz' _ =>
          ⟨hz, ?_⟩
        change Keeps dateParse deps d steady (enqueue maxAttempts _ >>= _) z
        refine keeps_enqueue hid hz' fun z' hkept => keeps_reread hkept ?_
        intro updated
        cases updated with
        | none => exact ⟨_, rfl⟩
        | some updated => exact ⟨_, rfl⟩

end Route

/-! ## The race -/

section Race

variable {dateParse : String → Option Instant} {deps : ProcessDeliveryDeps}
  {d : Uuid} {steady : Prop}

/-- The scene is in order, and the route keeps the retry from here on. -/
structure Race.Sound (dateParse : String → Option Instant)
    (deps : ProcessDeliveryDeps) (d : Uuid) (steady : Prop)
    (race : Race) : Prop where
  orderly : race.scene.Orderly dateParse deps d steady
  keeps : Keeps dateParse deps d steady race.route race.scene

theorem Race.Sound.start {w : World} (hw : w.db.Consistent d)
    (hexhausted : steady →
      Exhausted deps.maxAttempts false (w.db.timeline? d))
    (hjob : (w.jobs d).map Job.state ≠ some .active) :
    (Race.start deps d w).Sound dateParse deps d steady := by
  refine ⟨⟨hw, hexhausted, ?_, fun _ h => by cases h⟩,
    keeps_retryDelivery rfl⟩
  exact iff_of_false hjob (by simp [Race.start])

theorem Race.Sound.step {race : Race}
    (h : race.Sound dateParse deps d steady) {e : RaceEvent}
    (hfaultless : steady → e.Faultless) (he : ¬ race.Loses d e) :
    (race.step dateParse deps d e).Sound dateParse deps d steady := by
  cases e with
  | worker e =>
      have hmoves := race.scene.moves_worker dateParse deps d e
      refine ⟨h.orderly.moves hmoves hfaultless, h.keeps.interfere ?_⟩
      exact Relation.ReflTransGen.single ⟨h.orderly, e, hmoves, he⟩
  | route x =>
      have hpermits (c : Call) (k : c.Answer → Action Response)
          (hcall : race.route = .call c k) :
          ¬ race.scene.ShowsStaleRun d c x := by
        intro hshows
        apply he
        simp only [Race.Loses, hcall, Program.next?]
        exact hshows
      obtain ⟨horderly, _, hkeeps⟩ :=
        h.keeps.advance (x := x) h.orderly hpermits
      exact ⟨horderly, hkeeps⟩

/-- The run lemma: no event but the two ways to lose a retry disturbs it. -/
theorem Race.Sound.exec {events : List RaceEvent} :
    ∀ {race : Race}, race.Sound dateParse deps d steady →
      (∀ e ∈ events, steady → e.Faultless) →
      race.Never dateParse deps d (Race.Loses d) events →
      (race.exec dateParse deps d events).Sound dateParse deps d steady := by
  induction events with
  | nil => exact fun h _ _ => h
  | cons e events ih =>
      intro race h hfaultless he
      refine ih (h.step (hfaultless e List.mem_cons_self) he.1) ?_ he.2
      exact fun e' he' => hfaultless e' (List.mem_cons_of_mem _ he')

/-- What has been kept will run. -/
theorem Race.Sound.notLost {race : Race}
    (h : race.Sound dateParse deps d steady) : race.NotLost d := by
  rintro ⟨row, hanswer⟩ hpending
  obtain ⟨hfresh, hkept⟩ := h.keeps.of_result? hanswer ⟨row, rfl⟩
  obtain ⟨job, hjob, hunfinished⟩ := hkept hpending
  refine ⟨job, hjob, ?_⟩
  cases hstate : job.state with
  | waiting => exact Or.inl rfl
  | delayed => exact Or.inr (Or.inl rfl)
  | active =>
      have hactive : (race.scene.world.jobs d).map Job.state =
          some .active := by rw [hjob, Option.map_some, hstate]
      obtain ⟨run, hrun⟩ :=
        Option.isSome_iff_exists.mp (h.orderly.active_iff.mp hactive)
      exact Or.inr (Or.inr ⟨rfl, run, hrun, hfresh.run run hrun⟩)
  | completed => exact absurd (Or.inl hstate) hunfinished
  | failed => exact absurd (Or.inr hstate) hunfinished

/-- If no statement of a run fails, only a stale run can lose the retry. -/
theorem Race.Sound.never_loses {events : List RaceEvent} :
    ∀ {race : Race}, race.Sound dateParse deps d True →
      (∀ e ∈ events, e.Faultless) →
      race.Never dateParse deps d (fun race e => ∃ x, e = .route x ∧
        race.Loses d e) events →
      race.Never dateParse deps d (Race.Loses d) events := by
  induction events with
  | nil => exact fun _ _ _ => trivial
  | cons e events ih =>
      intro race h hfaultless he
      have hsafe : ¬ race.Loses d e := by
        cases e with
        | worker e => exact h.orderly.not_givesUp trivial e
        | route x => exact fun hloses => he.1 ⟨x, rfl, hloses⟩
      have hstep := h.step (fun _ => hfaultless e List.mem_cons_self) hsafe
      exact ⟨hsafe, ih hstep
        (fun e' he' => hfaultless e' (List.mem_cons_of_mem _ he')) he.2⟩

end Race

/-- In a race without failing statements, from a state within the Attempt
budget, `getState` showing a stale run is the only way to lose the retry. -/
theorem never_loses_of_faultless (dateParse : String → Option Instant)
    (deps : ProcessDeliveryDeps) (d : Uuid) (w : World)
    (hw : w.db.Consistent d)
    (hbudget : ∀ t, w.db.timeline? d = some t →
      ∃ retries, WithinBudget deps.maxAttempts retries t)
    (hjob : (w.jobs d).map Job.state ≠ some .active)
    (events : List RaceEvent) (hfaultless : ∀ e ∈ events, e.Faultless)
    (hevents : (Race.start deps d w).Never dateParse deps d
      (fun race e => ∃ x, e = .route x ∧ race.Loses d e) events) :
    (Race.start deps d w).Never dateParse deps d (Race.Loses d) events :=
  (Race.Sound.start hw (fun _ => exhausted_of_withinBudget hbudget)
    hjob).never_loses hfaultless hevents

/-- However the route and the job interleave, an accepted retry is not lost
unless a stale run passes for one that will still work on the Delivery, or the
job gives up. -/
theorem notLost_of_never_loses (dateParse : String → Option Instant)
    (deps : ProcessDeliveryDeps) (d : Uuid) (w : World)
    (hw : w.db.Consistent d)
    (hjob : (w.jobs d).map Job.state ≠ some .active)
    (events : List RaceEvent)
    (hevents : (Race.start deps d w).Never dateParse deps d (Race.Loses d)
      events) :
    ((Race.start deps d w).exec dateParse deps d events).NotLost d :=
  ((Race.Sound.start hw (fun h => False.elim h) hjob).exec
    (fun _ _ h => False.elim h) hevents).notLost

/-! ## Two races -/

def raceDeps : ProcessDeliveryDeps where
  defaultTimeoutMs := 1000
  maxAttempts? := some 1

/-- A new Delivery with its job. -/
def queuedWorld : World where
  db := Database.ofTimeline 0 ⟨.pending, []⟩
  jobs := fun _ => some (Job.added 1 ⟨0, 0, 0, 0, 0⟩)

/-- The job is taken, the Endpoint answers `500`, and the run makes `calls`
calls; the row is dead-lettered after nine of them. -/
def firstRun (calls : ℕ) : List RaceEvent :=
  .worker (.take { reply := .response 500 none }) ::
    List.replicate calls (.worker (.work {}))

/-- The retry begins after the job has completed. -/
def retryAfterRun : List RaceEvent :=
  firstRun 12 ++ .worker .settle :: List.replicate 9 (.route {})

theorem notLost_of_never_loses_afterRun :
    ((Race.start raceDeps 0 queuedWorld).exec (fun _ => none) raceDeps 0
      retryAfterRun).NotLost 0 :=
  notLost_of_never_loses (fun _ => none) raceDeps 0 queuedWorld
    (Database.consistent_ofTimeline 0 _) (by decide) retryAfterRun (by decide)

/-- The retry begins and ends between the outcome and the calls that disable
the Endpoint. -/
def retryDuringRun : List RaceEvent :=
  firstRun 9 ++ List.replicate 8 (.route {}) ++
    List.replicate 3 (.worker (.work {})) ++ [.worker .settle]

def lostRace : Race :=
  (Race.start raceDeps 0 queuedWorld).exec (fun _ => none) raceDeps 0
    retryDuringRun

/-- The route has answered `200`, the row is pending, and its job is done. -/
theorem not_willRun_lostRace : ¬ lostRace.scene.WillRun 0 := by
  rintro ⟨job, hjob, hwill⟩
  have hstate : (lostRace.scene.world.jobs 0).map Job.state =
      some .completed := by decide
  rw [hjob, Option.map_some, Option.some.injEq] at hstate
  simp [hstate] at hwill

theorem not_notLost_duringRun :
    ¬ ∀ (dateParse : String → Option Instant) (deps : ProcessDeliveryDeps)
        (d : Uuid) (w : World) (events : List RaceEvent),
      w.HasTimeline d ⟨.pending, []⟩ →
        (w.jobs d).map Job.state ≠ some .active →
        (∀ e ∈ events, e.Faultless) →
        ((Race.start deps d w).exec dateParse deps d events).NotLost d := by
  intro hall
  have hfaultless : ∀ e ∈ retryDuringRun, e.Faultless := by
    simp [retryDuringRun, firstRun, RaceEvent.Faultless,
      WorkerEvent.Faultless]
  have hkept : lostRace.NotLost 0 :=
    hall (fun _ => none) raceDeps 0 queuedWorld retryDuringRun
      ⟨Database.consistent_ofTimeline 0 _, Database.timeline?_ofTimeline 0 _⟩
      (by decide) hfaultless
  have hanswer : ∃ row, lostRace.route.result? =
      some (.ok ⟨200, .delivery row⟩) := ⟨_, rfl⟩
  have hpending : selectDeliveryStatus lostRace.scene.world.db 0 =
      some .pending := by decide
  exact not_willRun_lostRace (hkept hanswer hpending)

end WebhookBroadcast
