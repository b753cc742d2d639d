import WebhookBroadcast.Action
import WebhookBroadcast.Db.Channels
import WebhookBroadcast.Interaction.Sum

/-!
# What accepting a Broadcast asks of the stores

The calls that ingest, replay and fan-out make besides those of `Effects`, and
their handler.  The statements of a transaction see the committed database and
the rows that the transaction has inserted so far; nobody else sees these rows
before the commit, which carries them.  A lock that makes another writer wait
until the commit is modelled by a commit that fails instead.
-/

namespace WebhookBroadcast

open Interaction

/-- The rows that an open transaction of `fanOutBroadcast` has inserted. -/
structure Transaction where
  broadcast : BroadcastRow
  deliveries : List DeliveryRow
deriving DecidableEq

namespace Transaction

/-- The database as the transaction sees it, unless a constraint refuses one
of its inserts. -/
def applied? (tx : Transaction) (db : Database) : Option Database :=
  (db.insertBroadcast? tx.broadcast).bind fun db' =>
    db'.insertDeliveries? tx.deliveries

/-- The error of a refused insert. -/
def refusal (tx : Transaction) (db : Database) : DbError :=
  if ∀ id ∈ tx.deliveries.map DeliveryRow.endpointId,
      ∃ e ∈ db.endpoints.rows, e.id = id then
    if ∃ c ∈ db.channels.rows, c.id = tx.broadcast.channelId then
      .uniqueViolation "broadcast_pkey, delivery_pkey"
    else .foreignKeyViolation "broadcast_channel_id_channel_id_fk"
  else .foreignKeyViolation "delivery_endpoint_id_endpoint_id_fk"

/-- Whether the transaction can go on. -/
def check (tx : Transaction) (db : Database) : Except DbError Unit :=
  if (tx.applied? db).isSome then .ok () else .error (tx.refusal db)

/-- The database after a commit. -/
def commit (tx : Transaction) (db : Database) : Database :=
  (tx.applied? db).getD db

end Transaction

/-- The statements of ingest, replay and fan-out. -/
inductive IngestQuery where
  | getActiveChannelBySlug (slug : String)
  | findChannelTokenByHash (channelId : Uuid) (tokenHash : String)
  | getChannelById (id : Uuid)
  | getBroadcastById (channelId id : Uuid)
  | insertBroadcast (row : BroadcastRow)
  | listEnabledEndpointsByChannel (channelId : Uuid)
  | insertDeliveries (tx : Transaction)
  | commit (tx : Transaction)
  | deleteBroadcastById (id : Uuid)
deriving DecidableEq

/-- The result of a statement that is not rejected. -/
@[reducible] def IngestQuery.Result : IngestQuery → Type
  | getActiveChannelBySlug _ => Option ChannelRow
  | findChannelTokenByHash _ _ => Option ChannelTokenRow
  | getChannelById _ => Option ChannelRow
  | getBroadcastById _ _ => Option BroadcastRow
  | insertBroadcast _ => BroadcastRow
  | listEnabledEndpointsByChannel _ => List EndpointRow
  | insertDeliveries _ => List DeliveryRow
  | commit _ => Unit
  | deleteBroadcastById _ => Bool

/-- A job as `addBulk` takes it: its id, its runs in all and its payload. -/
structure BulkJob where
  jobId : Uuid
  attempts : ℕ
  data : DeliveryWorkItem
deriving DecidableEq

/-- The further calls of ingest, replay and fan-out. -/
inductive IngestCall where
  | query (q : IngestQuery)
  | addBulk (jobs : List BulkJob)
deriving DecidableEq

@[reducible] def IngestCall.Answer : IngestCall → Type
  | query q => Except DbError q.Result
  | addBulk _ => Except String Unit

@[reducible] def IngestEffects : Signature := ⟨IngestCall, IngestCall.Answer⟩

/-- The signature of ingest, replay and fan-out. -/
@[reducible] def AcceptEffects : Signature := Effects.sum IngestEffects

/-- An asynchronous function on the accept path. -/
abbrev AcceptAction (α : Type) := Program AcceptEffects Thrown α

/-! ## The handler -/

/-- Carry out one statement. -/
def IngestQuery.run : (q : IngestQuery) → Database →
    Except DbError q.Result × Database
  | .getActiveChannelBySlug slug, db =>
      (.ok (WebhookBroadcast.getActiveChannelBySlug db slug), db)
  | .findChannelTokenByHash channelId tokenHash, db =>
      (.ok (WebhookBroadcast.findChannelTokenByHash db channelId tokenHash), db)
  | .getChannelById id, db => (.ok (WebhookBroadcast.getChannelById db id), db)
  | .getBroadcastById channelId id, db =>
      (.ok (WebhookBroadcast.getBroadcastById db channelId id), db)
  | .insertBroadcast row, db =>
      ((Transaction.check ⟨row, []⟩ db).map fun _ => row, db)
  | .listEnabledEndpointsByChannel channelId, db =>
      (.ok (WebhookBroadcast.listEnabledEndpointsByChannel db channelId), db)
  | .insertDeliveries tx, db => ((tx.check db).map fun _ => tx.deliveries, db)
  | .commit tx, db => (tx.check db, tx.commit db)
  | .deleteBroadcastById id, db =>
      let r := WebhookBroadcast.deleteBroadcastById db id
      (.ok r.1, r.2)

/-- `queue.addBulk`. -/
def JobStore.addBulk (jobs : JobStore) (bulk : List BulkJob) : JobStore :=
  bulk.foldl (fun jobs job => jobs.add job.jobId job.attempts job.data) jobs

/-- A bulk add leaves every other job alone. -/
theorem JobStore.addBulk_of_ne {bulk : List BulkJob} {id : Uuid} :
    ∀ {jobs : JobStore}, (∀ job ∈ bulk, job.jobId ≠ id) →
      jobs.addBulk bulk id = jobs id := by
  induction bulk with
  | nil => exact fun _ => rfl
  | cons job bulk ih =>
      intro jobs hne
      exact (ih fun other hother => hne other (by simp [hother])).trans
        (jobs.add_of_ne (hne job (by simp)) job.attempts job.data)

/-- A bulk add under free and different ids stores every job. -/
theorem JobStore.addBulk_of_mem {bulk : List BulkJob} :
    ∀ {jobs : JobStore}, (bulk.map BulkJob.jobId).Nodup →
      (∀ job ∈ bulk, jobs job.jobId = none) → ∀ job ∈ bulk,
        jobs.addBulk bulk job.jobId =
          some (Job.added job.attempts job.data) := by
  induction bulk with
  | nil => simp
  | cons first bulk ih =>
      intro jobs hnodup hfree job hjob
      obtain ⟨hnew, hnodup⟩ := List.nodup_cons.mp hnodup
      have hne : ∀ other ∈ bulk, other.jobId ≠ first.jobId := by
        intro other hother heq
        rw [← heq] at hnew
        exact hnew (List.mem_map_of_mem hother)
      have hadd := JobStore.add_of_none (hfree first (by simp))
        first.attempts first.data
      rcases List.mem_cons.mp hjob with rfl | hjob
      · exact (JobStore.addBulk_of_ne hne).trans hadd
      · refine ih hnodup ?_ job hjob
        intro other hother
        exact (jobs.add_of_ne (hne other hother).symm _ _).trans
          (hfree other (by simp [hother]))

/-- The handler of the further calls. -/
def performIngest : Handler IngestEffects Choice World
  | x, .query q, w =>
      match x.fault with
      | none => ((q.run w.db).1, { w with db := (q.run w.db).2 })
      | some fault =>
          (.error (.unavailable fault.message),
            if fault.applied then { w with db := (q.run w.db).2 } else w)
  | x, .addBulk bulk, w =>
      match x.fault with
      | none => (.ok (), { w with jobs := w.jobs.addBulk bulk })
      | some fault =>
          (.error fault.message,
            if fault.applied then { w with jobs := w.jobs.addBulk bulk }
            else w)

/-- The handler of the accept path. -/
def performAccept : Handler AcceptEffects Choice World :=
  Handler.sum perform performIngest

theorem performIngest_query_of_none {x : Choice} (hx : x.fault = none)
    (q : IngestQuery) (w : World) : performIngest x (.query q) w =
      ((q.run w.db).1, { w with db := (q.run w.db).2 }) := by
  simp [performIngest, hx]

theorem performIngest_query_of_some {x : Choice} {fault : Fault}
    (hx : x.fault = some fault) (q : IngestQuery) (w : World) :
    performIngest x (.query q) w =
      (.error (.unavailable fault.message),
        if fault.applied then { w with db := (q.run w.db).2 } else w) := by
  simp [performIngest, hx]

theorem performIngest_addBulk_of_none {x : Choice} (hx : x.fault = none)
    (bulk : List BulkJob) (w : World) : performIngest x (.addBulk bulk) w =
      (.ok (), { w with jobs := w.jobs.addBulk bulk }) := by
  simp [performIngest, hx]

theorem performIngest_addBulk_of_some {x : Choice} {fault : Fault}
    (hx : x.fault = some fault) (bulk : List BulkJob) (w : World) :
    performIngest x (.addBulk bulk) w =
      (.error fault.message,
        if fault.applied then { w with jobs := w.jobs.addBulk bulk }
        else w) := by
  simp [performIngest, hx]

theorem performIngest_db (x : Choice) (c : IngestCall) (w : World) :
    (performIngest x c w).2.db = w.db ∨
      ∃ q, c = .query q ∧ (performIngest x c w).2.db = (q.run w.db).2 := by
  cases c with
  | query q =>
      cases hx : x.fault with
      | none =>
          rw [performIngest_query_of_none hx]
          exact Or.inr ⟨q, rfl, rfl⟩
      | some fault =>
          rw [performIngest_query_of_some hx]
          split
          · exact Or.inr ⟨q, rfl, rfl⟩
          · exact Or.inl rfl
  | addBulk bulk =>
      cases hx : x.fault with
      | none => exact Or.inl (by rw [performIngest_addBulk_of_none hx])
      | some fault =>
          rw [performIngest_addBulk_of_some hx]
          split <;> exact Or.inl rfl

/-- A commit that succeeds adds the rows of the transaction. -/
theorem Transaction.grows_commit {tx : Transaction} {db : Database}
    (h : tx.check db = .ok ()) :
    Database.Grows db (tx.commit db) [tx.broadcast] tx.deliveries := by
  unfold Transaction.check at h
  split at h
  next hsome =>
    obtain ⟨db', hdb'⟩ := Option.isSome_iff_exists.mp hsome
    rw [Transaction.commit, hdb', Option.getD_some]
    obtain ⟨mid, hmid, hrest⟩ := Option.bind_eq_some_iff.mp hdb'
    exact (Database.grows_insertBroadcast? hmid).trans
      (Database.grows_insertDeliveries? hrest)
  next => cases h

/-- Any other commit changes nothing. -/
theorem Transaction.commit_of_check_ne {tx : Transaction} {db : Database}
    (h : tx.check db ≠ .ok ()) : tx.commit db = db := by
  unfold Transaction.check at h
  split at h
  · exact absurd rfl h
  next hnone =>
    rw [Option.not_isSome_iff_eq_none] at hnone
    rw [commit, hnone, Option.getD_none]

/-- A refused statement changes nothing. -/
theorem IngestQuery.run_of_error {q : IngestQuery} {db : Database}
    {e : DbError} (h : (q.run db).1 = .error e) : (q.run db).2 = db := by
  cases q with
  | commit tx =>
      refine tx.commit_of_check_ne fun hok => ?_
      rw [IngestQuery.run, hok] at h
      cases h
  | deleteBroadcastById id => cases h
  | _ => rfl

/-- The insert of a Broadcast returns its row. -/
theorem result_insertBroadcast {row result : BroadcastRow} {db : Database}
    (h : ((IngestQuery.insertBroadcast row).run db).1 = .ok result) :
    result = row := by
  rw [IngestQuery.run] at h
  cases hcheck : Transaction.check ⟨row, []⟩ db with
  | ok _ =>
      rw [hcheck] at h
      exact (Except.ok.inj h).symm
  | error e =>
      rw [hcheck] at h
      cases h

theorem result_insertDeliveries {tx : Transaction} {result : List DeliveryRow}
    {db : Database}
    (h : ((IngestQuery.insertDeliveries tx).run db).1 = .ok result) :
    result = tx.deliveries := by
  rw [IngestQuery.run] at h
  cases hcheck : tx.check db with
  | ok _ =>
      rw [hcheck] at h
      exact (Except.ok.inj h).symm
  | error e =>
      rw [hcheck] at h
      cases h

/-- A statement is run, or it is rejected; what a rejected one leaves behind is
an effect of the fault. -/
theorem performAccept_query_cases (x : Choice) (q : IngestQuery) (w : World) :
    (∃ result, (q.run w.db).1 = .ok result ∧
      performAccept x (.inr (.query q)) w =
        (.ok result, { w with db := (q.run w.db).2 })) ∨
    ∃ e t, performAccept x (.inr (.query q)) w = (.error e, t) ∧
      ((∀ fault ∈ x.fault, fault.applied = false) → t = w) := by
  cases hx : x.fault with
  | none =>
      have hrun : performAccept x (.inr (.query q)) w =
          ((q.run w.db).1, { w with db := (q.run w.db).2 }) :=
        performIngest_query_of_none hx q w
      cases hresult : (q.run w.db).1 with
      | ok result =>
          rw [hresult] at hrun
          exact Or.inl ⟨result, rfl, hrun⟩
      | error e =>
          rw [hresult, IngestQuery.run_of_error hresult] at hrun
          exact Or.inr ⟨e, w, hrun, fun _ => rfl⟩
  | some fault =>
      have hrun : performAccept x (.inr (.query q)) w = _ :=
        performIngest_query_of_some hx q w
      refine Or.inr ⟨_, _, hrun, fun hfault => ?_⟩
      rw [hfault fault rfl]
      rfl

/-- Jobs are added, or the addition is rejected. -/
theorem performAccept_addBulk_cases (x : Choice) (bulk : List BulkJob)
    (w : World) :
    performAccept x (.inr (.addBulk bulk)) w =
      (.ok (), { w with jobs := w.jobs.addBulk bulk }) ∨
    ∃ message t, performAccept x (.inr (.addBulk bulk)) w =
        (.error message, t) ∧
      ((∀ fault ∈ x.fault, fault.applied = false) → t = w) := by
  cases hx : x.fault with
  | none => exact Or.inl (performIngest_addBulk_of_none hx bulk w)
  | some fault =>
      have hrun : performAccept x (.inr (.addBulk bulk)) w = _ :=
        performIngest_addBulk_of_some hx bulk w
      refine Or.inr ⟨_, _, hrun, fun hfault => ?_⟩
      rw [hfault fault rfl]
      rfl

/-! ## Calls as actions -/

/-- The result of a statement; its rejection is thrown. -/
def ingestQuery (q : IngestQuery) : AcceptAction q.Result :=
  Program.call (S := AcceptEffects) (.inr (.query q)) fun
    | .ok result => Program.done result
    | .error e => Program.fail (.database e)

/-- `queue.addBulk`; its rejection is thrown. -/
def addBulk (jobs : List BulkJob) : AcceptAction Unit :=
  Program.call (S := AcceptEffects) (.inr (.addBulk jobs)) fun
    | .ok () => Program.done ()
    | .error message => Program.fail (.queue message)

end WebhookBroadcast
