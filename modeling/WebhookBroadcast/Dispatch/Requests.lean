import WebhookBroadcast.Dispatch.Floor

/-!
# Requests on the floor

What a call of a request does to the Deliveries whose ids the request has drawn,
and to all others.
-/

namespace WebhookBroadcast

open Interaction Relational Timeline

/-- A rejected commit has not been carried out, and the compensating deletion
has. -/
def Dependable (c : AcceptEffects.Call) (x : Choice) : Prop :=
  (∀ tx, c = .inr (.query (.commit tx)) →
    ∀ fault ∈ x.fault, fault.applied = false) ∧
  ∀ id, c = .inr (.query (.deleteBroadcastById id)) → x.carriesOut

namespace Errand

variable {M : ℕ} {e : Errand} {c : AcceptEffects.Call}

/-- The kinds of calls that the monitor allows: nearly all of them change
neither store and concern no Delivery. -/
inductive Move (M : ℕ) (e : Errand) : AcceptEffects.Call → Prop
  | aside {c : AcceptEffects.Call}
      (hworld : ∀ x w, (performAccept x c w).2 = w)
      (hnext : ∀ a, ∃ drawn,
        (errands M).next c a e = { e with drawn := drawn } ∧
          ∀ id ∈ e.drawn, id ∈ drawn) : Move M e c
  | commit {tx : Transaction} (hopen : e.Open) (hown : tx.Own)
      (hrows : ∀ row ∈ tx.deliveries, row.id ∈ e.drawn ∧ row.Initial) :
      Move M e (.inr (.query (.commit tx)))
  | delete {tx : Transaction} (hqueued : e.queued = false)
      (hwithdrawn : e.withdrawn = false) (hcommitted : e.committed = some tx) :
      Move M e (.inr (.query (.deleteBroadcastById tx.broadcast.id)))
  | bulk {tx : Transaction} {jobs : List BulkJob} (hoffered : e.offered = false)
      (hwithdrawn : e.withdrawn = false) (hcommitted : e.committed = some tx)
      (hjobs : BulkJobsOf M tx jobs) : Move M e (.inr (.addBulk jobs))
  | remove {id : Uuid} (hoffered : e.offered = false) (hcommits : e.Commits id) :
      Move M e (.inl (.queue (.remove id)))

/-- A call that reads changes neither store, rejected or not. -/
theorem move_of_read {c : AcceptEffects.Call}
    (hworld : ∀ x w, (performAccept x c w).2 = w)
    (hnext : ∀ a, (errands M).next c a e = e) : e.Move M c :=
  .aside hworld fun a => ⟨e.drawn, hnext a, fun _ h => h⟩

theorem move_of_allows (hallows : (errands M).allows e c) : e.Move M c := by
  cases c with
  | inl c =>
      cases c with
      | query q => exact hallows.elim
      | queue q =>
          have hread (hq : ∀ jobs, (q.run jobs).2 = jobs) (x : Choice)
              (w : World) : (perform x (.queue q) w).2 = w := by
            cases hx : x.fault with
            | none => rw [perform_queue_of_none hx, hq]
            | some fault =>
                rw [perform_queue_of_some hx, hq]
                split <;> rfl
          cases q with
          | getJob id => exact move_of_read (hread fun _ => rfl) fun _ => rfl
          | getState id => exact move_of_read (hread fun _ => rfl) fun _ => rfl
          | remove id => exact .remove hallows.1 hallows.2
          | add id attempts data => exact hallows.elim
      | randomUUID =>
          exact .aside (fun _ _ => rfl) fun id =>
            ⟨id :: e.drawn, rfl, fun _ h => List.mem_cons_of_mem _ h⟩
      | _ => exact move_of_read (fun _ _ => rfl) fun _ => rfl
  | inr c =>
      cases c with
      | addBulk jobs =>
          obtain ⟨hoffered, hwithdrawn, tx, hcommitted, hjobs⟩ := hallows
          exact .bulk hoffered hwithdrawn hcommitted hjobs
      | query q =>
          have hread (hq : ∀ db, (q.run db).2 = db) (x : Choice) (w : World) :
              (performIngest x (.query q) w).2 = w := by
            cases hx : x.fault with
            | none => rw [performIngest_query_of_none hx, hq]
            | some fault =>
                rw [performIngest_query_of_some hx, hq]
                split <;> rfl
          cases q with
          | commit tx => exact .commit hallows.1 hallows.2.1 hallows.2.2
          | deleteBroadcastById id =>
              obtain ⟨hqueued, hwithdrawn, tx, hcommitted, rfl⟩ := hallows
              exact .delete hqueued hwithdrawn hcommitted
          | _ => exact move_of_read (hread fun _ => rfl) fun _ => rfl

/-- What has been committed was drawn. -/
def Sound (e : Errand) : Prop := ∀ id, e.Commits id → id ∈ e.drawn

theorem Sound.next (he : e.Sound) (hmove : e.Move M c)
    (a : AcceptEffects.Answer c) : ((errands M).next c a e).Sound := by
  cases hmove with
  | aside _ hnext =>
      obtain ⟨drawn, heq, hdrawn⟩ := hnext a
      rw [heq]
      rintro id ⟨tx, htx, hid⟩
      exact hdrawn id (he id ⟨tx, htx, hid⟩)
  | commit _ _ hrows =>
      cases a with
      | error error => exact he
      | ok _ =>
          rintro id ⟨tx', htx', hid⟩
          cases htx'
          obtain ⟨row, hrow, rfl⟩ := List.mem_map.mp hid
          exact (hrows row hrow).1
  | delete =>
      rintro id ⟨tx, htx, hid⟩
      cases a <;> exact he id ⟨tx, htx, hid⟩
  | bulk =>
      rintro id ⟨tx, htx, hid⟩
      cases a <;> exact he id ⟨tx, htx, hid⟩
  | remove => exact he

/-- Ids stay drawn. -/
theorem subset_drawn_next (hmove : e.Move M c) (a : AcceptEffects.Answer c) :
    e.drawn ⊆ ((errands M).next c a e).drawn := by
  cases hmove with
  | aside _ hnext =>
      obtain ⟨drawn, heq, hdrawn⟩ := hnext a
      rw [heq]
      exact hdrawn
  | commit => cases a <;> exact fun _ h => h
  | delete => cases a <;> exact fun _ h => h
  | bulk => cases a <;> exact fun _ h => h
  | remove => exact fun _ h => h

/-- A call draws at most the id with which it is answered. -/
theorem mem_drawn_next {x : Choice} {w : World} {id : Uuid}
    (h : id ∈ ((errands M).next c (performAccept x c w).1 e).drawn) :
    id ∈ e.drawn ∨ c = .inl .randomUUID ∧ x.uuid = id := by
  cases c with
  | inl c =>
      cases c with
      | randomUUID =>
          rcases List.mem_cons.mp h with rfl | h
          · exact Or.inr ⟨rfl, rfl⟩
          · exact Or.inl h
      | _ => exact Or.inl h
  | inr c =>
      cases c with
      | addBulk jobs =>
          left
          generalize (performAccept x (.inr (.addBulk jobs)) w).1 = a at h
          cases a <;> exact h
      | query q =>
          left
          cases q with
          | commit tx =>
              generalize (performAccept x (.inr (.query (.commit tx))) w).1 = a
                at h
              cases a <;> exact h
          | _ => exact h

end Errand

/-! ## What the calls do -/

/-- Removing a job leaves every other job alone. -/
theorem JobStore.remove_of_ne (jobs : JobStore) {jobId id : Uuid}
    (h : id ≠ jobId) : jobs.remove jobId id = jobs id := by
  cases hjob : jobs jobId with
  | none => simp [remove, hjob]
  | some job =>
      simp only [remove, hjob]
      split
      · rfl
      · exact Function.update_of_ne h _ _

theorem JobStore.remove_of_none {jobs : JobStore} {id : Uuid}
    (h : jobs id = none) (jobId : Uuid) : jobs.remove jobId id = none := by
  by_cases hid : id = jobId
  · subst hid
    rcases jobs.remove_self id with ⟨hnone, -⟩ | ⟨hsame, -⟩
    · exact hnone
    · rw [hsame, h]
  · rw [jobs.remove_of_ne hid, h]

/-- A bulk add stores one of the jobs of a free id. -/
theorem JobStore.addBulk_of_none {bulk : List BulkJob} {id : Uuid} :
    ∀ {jobs : JobStore}, jobs id = none → id ∈ bulk.map BulkJob.jobId →
      ∃ job ∈ bulk, job.jobId = id ∧
        jobs.addBulk bulk id = some (Job.added job.attempts job.data) := by
  have hkept {jobs : JobStore} {stored : Job} (h : jobs id = some stored) :
      ∀ rest : List BulkJob, jobs.addBulk rest id = some stored := by
    intro rest
    induction rest generalizing jobs with
    | nil => exact h
    | cons job rest ih =>
        change (jobs.add job.jobId job.attempts job.data).addBulk rest id = _
        refine ih ?_
        by_cases hid : job.jobId = id
        · rw [JobStore.add_of_some (hid ▸ h), h]
        · rw [jobs.add_of_ne hid, h]
  induction bulk with
  | nil => exact fun _ h => absurd h List.not_mem_nil
  | cons first bulk ih =>
      intro jobs hfree hmem
      by_cases hid : first.jobId = id
      · subst hid
        exact ⟨first, List.mem_cons_self, rfl,
          hkept (JobStore.add_of_none hfree _ _) bulk⟩
      · have hrest : id ∈ bulk.map BulkJob.jobId :=
          (List.mem_cons.mp hmem).resolve_left (Ne.symm hid)
        obtain ⟨job, hjob, hjobId, hstored⟩ :=
          ih ((jobs.add_of_ne hid first.attempts first.data).trans hfree) hrest
        exact ⟨job, List.mem_cons_of_mem _ hjob, hjobId, hstored⟩

/-- A statement is carried out or not. -/
theorem performAccept_query_state (x : Choice) (q : IngestQuery) (w : World) :
    (performAccept x (.inr (.query q)) w).2 =
      if x.carriesOut then { w with db := (q.run w.db).2 } else w := by
  change (performIngest x (.query q) w).2 = _
  cases hx : x.fault with
  | none =>
      rw [performIngest_query_of_none hx]
      simp [Choice.carriesOut, hx]
  | some fault =>
      rw [performIngest_query_of_some hx]
      simp [Choice.carriesOut, hx]

theorem performAccept_addBulk_state (x : Choice) (bulk : List BulkJob)
    (w : World) :
    (performAccept x (.inr (.addBulk bulk)) w).2 =
      if x.carriesOut then { w with jobs := w.jobs.addBulk bulk } else w := by
  change (performIngest x (.addBulk bulk) w).2 = _
  cases hx : x.fault with
  | none =>
      rw [performIngest_addBulk_of_none hx]
      simp [Choice.carriesOut, hx]
  | some fault =>
      rw [performIngest_addBulk_of_some hx]
      simp [Choice.carriesOut, hx]

theorem performAccept_remove_state (x : Choice) (id : Uuid) (w : World) :
    (performAccept x (.inl (.queue (.remove id))) w).2 =
      if x.carriesOut then { w with jobs := w.jobs.remove id } else w := by
  change (perform x (.queue (.remove id)) w).2 = _
  cases hx : x.fault with
  | none =>
      rw [perform_queue_of_none hx]
      simp [Choice.carriesOut, hx, QueueCall.run]
  | some fault =>
      rw [perform_queue_of_some hx]
      simp [Choice.carriesOut, hx, QueueCall.run]

/-- The jobs of a transaction are those of its Deliveries. -/
theorem BulkJobsOf.mem_iff {M : ℕ} {tx : Transaction} {jobs : List BulkJob}
    (h : BulkJobsOf M tx jobs) {e : Errand} (he : e.committed = some tx)
    {id : Uuid} : id ∈ jobs.map BulkJob.jobId ↔ e.Commits id := by
  rw [h.ids]
  constructor
  · exact fun hid => ⟨tx, he, hid⟩
  · rintro ⟨tx', htx', hid⟩
    rw [he] at htx'
    cases htx'
    exact hid

namespace Floor

variable {deps : ProcessDeliveryDeps} {F : Floor} {d : Uuid} {e : Errand}
  {M : ℕ} {c : AcceptEffects.Call}

/-! ## Deliveries of others -/

theorem leaves_db {db : Database} (h : F.world.db.LeavesOrEnds d db) :
    F.Leaves (F.set { F.world with db := db }) d := ⟨h, rfl, rfl⟩

theorem leaves_jobs {jobs : JobStore} (h : jobs d = F.world.jobs d) :
    F.Leaves (F.set { F.world with jobs := jobs }) d := ⟨.refl _, h, rfl⟩

/-- What is carried out or not leaves the Delivery, if carrying it out does. -/
theorem leaves_ite {p : Prop} [Decidable p] {w : World}
    (h : F.Leaves (F.set w) d) : F.Leaves (F.set (if p then w else F.world)) d := by
  split
  · exact h
  · exact .refl F d

/-- A request leaves every Delivery alone that it does not commit. -/
theorem leaves_call (hmove : e.Move M c) (hd : ¬ e.Commits d)
    (hcommit : ∀ tx, c = .inr (.query (.commit tx)) → OtherIds d tx)
    (x : Choice) : F.Leaves (F.set (performAccept x c F.world).2) d := by
  cases hmove with
  | aside hworld =>
      rw [hworld]
      exact .refl F d
  | commit =>
      rw [performAccept_query_state]
      exact leaves_ite (leaves_db (leavesOrEnds_commit (hcommit _ rfl) _))
  | delete =>
      rw [performAccept_query_state]
      exact leaves_ite (leaves_db (leavesOrEnds_deleteBroadcasts _ _ d))
  | bulk _ _ hcommitted hjobs =>
      rw [performAccept_addBulk_state]
      refine leaves_ite (leaves_jobs (JobStore.addBulk_of_ne fun job hjob hid => ?_))
      exact hd ((hjobs.mem_iff hcommitted).mp
        (hid ▸ List.mem_map_of_mem hjob))
  | @remove id _ hcommits =>
      rw [performAccept_remove_state]
      refine leaves_ite (leaves_jobs (JobStore.remove_of_ne _ ?_))
      rintro rfl
      exact hd hcommits

/-! ## Deliveries of the request -/

/-- What a commit leaves of a Delivery that was not there. -/
theorem delivery?_of_grows {db db' : Database} {tx : Transaction}
    (h : Database.Grows db db' [tx.broadcast] tx.deliveries)
    (hnone : db.delivery? d = none)
    (hrows : ∀ row ∈ tx.deliveries,
      row.broadcastId = tx.broadcast.id ∧ row.Initial) :
    db'.delivery? d = none ∨ ∃ row, db'.delivery? d = some row ∧
      row.broadcastId = tx.broadcast.id ∧ db'.Fresh d := by
  rcases h.delivery?_cases d with hsame | ⟨-, row, hmem, -, hrow⟩
  · exact Or.inl (hsame.trans hnone)
  · refine Or.inr ⟨row, hrow, (hrows row hmem).1, row, hrow,
      (hrows row hmem).2, ?_⟩
    rw [h.attemptLog d, Database.attemptLog_eq_nil hnone]

/-- A commit that is carried out, or not. -/
theorem stands_commit {tx : Transaction} (hopen : e.Open) (hown : tx.Own)
    (hrows : ∀ row ∈ tx.deliveries, row.id ∈ e.drawn ∧ row.Initial)
    (hF : F.Stands deps d e) {x : Choice}
    (hx : ∀ fault ∈ x.fault, fault.applied = false) :
    (F.set (performAccept x (.inr (.query (.commit tx))) F.world).2).Stands deps
      d ((errands M).next (.inr (.query (.commit tx)))
        (performAccept x (.inr (.query (.commit tx))) F.world).1 e) := by
  have hnone : ¬ e.Commits d := by
    rintro ⟨tx', htx', -⟩
    rw [hopen.1] at htx'
    cases htx'
  have hlacks : F.Lacks d := by
    cases hF with
    | unseen _ hlacks => exact hlacks
    | accepted hcommitted hmem => exact absurd ⟨_, hcommitted, hmem⟩ hnone
    | withdrawn hcommits => exact absurd hcommits hnone
    | placed hcommits => exact absurd hcommits hnone
  rcases performAccept_query_cases x (.commit tx) F.world with
    ⟨result, hresult, hrun⟩ | ⟨error, w, hrun, hsame⟩
  · rw [hrun]
    change Stands deps (F.set { F.world with db := tx.commit F.world.db }) d
      { e with committed := some tx }
    have hgrows : Database.Grows F.world.db (tx.commit F.world.db)
        [tx.broadcast] tx.deliveries := Transaction.grows_commit hresult
    by_cases hmem : d ∈ tx.deliveries.map DeliveryRow.id
    · have hcases := delivery?_of_grows hgrows hlacks.row
        fun row hrow => ⟨hown row hrow, (hrows row hrow).2⟩
      refine .accepted rfl hmem hopen.2.2.1 hopen.2.2.2 hlacks.job hlacks.run
        ?_ ?_ ?_
      · rcases hcases with hgone | ⟨-, -, -, hfresh⟩
        · exact .of_none hgone
        · exact hfresh.consistent
      · rcases hcases with hgone | ⟨-, -, -, hfresh⟩
        · exact .of_none (Database.timeline?_eq_none_iff.mpr hgone)
        · intro t ht
          have ht : (tx.commit F.world.db).timeline? d = some t := ht
          rw [hfresh.timeline?_eq] at ht
          cases ht
          exact ⟨rfl, rfl⟩
      · intro row hrow
        have hrow : (tx.commit F.world.db).delivery? d = some row := hrow
        rcases hcases with hgone | ⟨row', hrow', hid, -⟩
        · rw [hgone] at hrow
          cases hrow
        · rw [hrow'] at hrow
          cases hrow
          exact hid
    · have hother : OtherIds d tx :=
        fun row hrow hid => hmem (List.mem_map.mpr ⟨row, hrow, hid⟩)
      refine .unseen ?_ ((leaves_db
        (leavesOrEnds_commit hother _)).lacks hlacks)
      rintro ⟨tx', htx', hid⟩
      cases htx'
      exact hmem hid
  · rw [hrun, hsame hx]
    exact hF

/-- The compensating deletion takes the Deliveries along. -/
theorem stands_delete {tx : Transaction} (hcommitted : e.committed = some tx)
    (hF : F.Stands deps d e) {x : Choice} (hx : x.carriesOut) :
    (F.set (performAccept x (.inr (.query (.deleteBroadcastById
      tx.broadcast.id))) F.world).2).Stands deps d
        { e with withdrawn := true } := by
  rw [performAccept_query_state, if_pos hx]
  have hleaves : F.Leaves (F.set { F.world with
      db := (deleteBroadcastById F.world.db tx.broadcast.id).2 }) d :=
    leaves_db (leavesOrEnds_deleteBroadcasts _ _ d)
  cases hleaves.stands hF with
  | unseen hcommits hlacks => exact .unseen hcommits hlacks
  | accepted hcommitted' hmem _ _ hjob hrun _ _ hown =>
      rw [hcommitted] at hcommitted'
      cases hcommitted'
      refine .withdrawn ⟨tx, hcommitted, hmem⟩ rfl ⟨?_, hjob, hrun⟩
      -- a row that is left refers to a Broadcast that is left
      by_contra hrow
      obtain ⟨row, hrow⟩ := Option.ne_none_iff_exists'.mp hrow
      have hmem := Database.mem_of_delivery? hrow
      obtain ⟨b, hb, hid⟩ := Database.delivery_broadcast _ row hmem
      have hkept := (Table.mem_delete.mp hb).2
      rw [hown row hrow] at hid
      simp [hid] at hkept
  | withdrawn hcommits _ hlacks => exact .withdrawn hcommits rfl hlacks
  | placed hcommits hoffered hplaced =>
      exact .placed hcommits hoffered hplaced

/-- Jobs that are added are those of the Deliveries. -/
theorem Stands.added (hF : F.Stands deps d e) {tx : Transaction}
    {jobs : List BulkJob} (hoffered : e.offered = false) (hwithdrawn : e.withdrawn = false)
    (hcommitted : e.committed = some tx)
    (hjobs : BulkJobsOf deps.maxAttempts tx jobs) (queued : Bool) :
    (F.set { F.world with jobs := F.world.jobs.addBulk jobs }).Stands deps d
      { e with offered := true, queued := queued } := by
  cases hF with
  | unseen hcommits hlacks =>
      refine .unseen hcommits ((leaves_jobs
        (JobStore.addBulk_of_ne fun job hjob hid => ?_)).lacks hlacks)
      exact hcommits ((hjobs.mem_iff hcommitted).mp
        (hid ▸ List.mem_map_of_mem hjob))
  | accepted hcommitted' hmem _ _ hjob hrun hcons hshows =>
      obtain ⟨job, hmem', rfl, hstored⟩ := JobStore.addBulk_of_none hjob
        ((hjobs.mem_iff hcommitted).mpr ⟨_, hcommitted', hmem⟩)
      exact .placed ⟨_, hcommitted', hmem⟩ rfl
        ⟨hstored, hjobs.attempts job hmem', hjobs.data job hmem', hcons,
          .waits (Or.inl rfl) hrun hshows⟩
  | withdrawn _ hgone =>
      rw [hwithdrawn] at hgone
      cases hgone
  | placed _ hdone =>
      rw [hoffered] at hdone
      cases hdone

/-- The jobs of the Deliveries are queued, or not. -/
theorem stands_bulk {tx : Transaction} {jobs : List BulkJob}
    (hoffered : e.offered = false) (hwithdrawn : e.withdrawn = false)
    (hcommitted : e.committed = some tx)
    (hjobs : BulkJobsOf deps.maxAttempts tx jobs) (hF : F.Stands deps d e)
    (x : Choice) :
    (F.set (performAccept x (.inr (.addBulk jobs)) F.world).2).Stands deps d
      ((errands M).next (.inr (.addBulk jobs))
        (performAccept x (.inr (.addBulk jobs)) F.world).1 e) := by
  have hadded := hF.added hoffered hwithdrawn hcommitted hjobs
  rcases performAccept_addBulk_cases x jobs F.world with
    hrun | ⟨message, w, hrun, -⟩
  · rw [hrun]
    exact hadded true
  · have hstate := performAccept_addBulk_state x jobs F.world
    rw [hrun] at hstate ⊢
    change w = _ at hstate
    subst hstate
    split
    · exact hadded e.queued
    · -- the queue was told nothing, which leaves the Delivery without a job
      cases hF with
      | unseen hcommits hlacks => exact .unseen hcommits hlacks
      | accepted hcommitted' hmem hqueued _ hjob hrun hcons hshows hown =>
          exact .accepted hcommitted' hmem hqueued hwithdrawn hjob hrun hcons
            hshows hown
      | withdrawn _ hgone =>
          rw [hwithdrawn] at hgone
          cases hgone
      | placed _ hdone =>
          rw [hoffered] at hdone
          cases hdone

/-- A job is removed before the jobs are queued, so that there is none. -/
theorem stands_remove {id : Uuid} (hoffered : e.offered = false)
    (hF : F.Stands deps d e) (x : Choice) :
    (F.set (performAccept x (.inl (.queue (.remove id))) F.world).2).Stands
      deps d e := by
  rw [performAccept_remove_state]
  rcases hF.job_cases with ⟨hjob, -⟩ | ⟨job, -, hdone, -⟩
  · refine (leaves_ite (leaves_jobs ?_)).stands hF
    rw [JobStore.remove_of_none hjob, hjob]
  · rw [hoffered] at hdone
    cases hdone

/-- A call of the request that has drawn the id of the Delivery. -/
theorem Stands.call (hF : F.Stands deps d e)
    (hmove : e.Move deps.maxAttempts c) {x : Choice} (hx : Dependable c x) :
    (F.set (performAccept x c F.world).2).Stands deps d
      ((errands deps.maxAttempts).next c (performAccept x c F.world).1 e) := by
  cases hmove with
  | aside hworld hnext =>
      obtain ⟨drawn, heq, -⟩ := hnext (performAccept x c F.world).1
      rw [heq, hworld]
      cases hF with
      | unseen hcommits hlacks => exact .unseen hcommits hlacks
      | accepted hcommitted hmem hqueued hwithdrawn hjob hrun hcons hshows hown =>
          exact .accepted hcommitted hmem hqueued hwithdrawn hjob hrun hcons
            hshows hown
      | withdrawn hcommits hwithdrawn hlacks =>
          exact .withdrawn hcommits hwithdrawn hlacks
      | placed hcommits hoffered hplaced =>
          exact .placed hcommits hoffered hplaced
  | commit hopen hown hrows =>
      exact stands_commit hopen hown hrows hF (hx.1 _ rfl)
  | @delete tx _ _ hcommitted =>
      have hdeleted := stands_delete hcommitted hF (hx.2 _ rfl)
      generalize (performAccept x (.inr (.query (.deleteBroadcastById
        tx.broadcast.id))) F.world).1 = a
      cases a <;> exact hdeleted
  | bulk hoffered hwithdrawn hcommitted hjobs =>
      exact stands_bulk hoffered hwithdrawn hcommitted hjobs hF x
  | remove hoffered => exact stands_remove hoffered hF x

end Floor

end WebhookBroadcast
