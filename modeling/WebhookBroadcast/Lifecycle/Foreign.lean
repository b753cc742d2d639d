import WebhookBroadcast.Lifecycle.Deployed

/-!
# Runs of others

Of all the programs of the deployment only `processDelivery` of a Delivery
writes it, apart from the operator's retry.  So the deployment upholds the
discipline of every Delivery, and a Delivery that has just been committed is
sound.
-/

namespace WebhookBroadcast

open Interaction Timeline

/-! ## Ingest and replay -/

/-- Every call of the program is foreign to the Delivery. -/
def ForeignTo (d : Uuid) {α : Type} (p : ApiAction α) : Prop :=
  p.EveryCall fun c _ => Foreign d c

/-- The same of a program of ingest or replay. -/
def AcceptsAside (d : Uuid) {α : Type} (p : AcceptAction α) : Prop :=
  p.EveryCall fun c _ => Foreign d (.inl c)

section Accept

variable {d : Uuid} {α β : Type}

theorem Quiet.acceptsAside {p : Action α} (hp : Quiet d p) :
    AcceptsAside d (p.inl (T := IngestEffects)) :=
  Program.EveryCall.inl (Program.EveryCall.mono (fun _ _ hc => Or.inl hc) hp)

theorem acceptsAside_ingestQuery (q : IngestQuery) :
    AcceptsAside d (ingestQuery q) := by
  refine ⟨trivial, ?_⟩
  rintro (e | result) <;> trivial

theorem acceptsAside_addBulk (jobs : List BulkJob) :
    AcceptsAside d (addBulk jobs) := by
  refine ⟨trivial, ?_⟩
  rintro (e | result) <;> trivial

theorem quiet_randomUUID : Quiet d randomUUID :=
  ⟨Option.some_ne_none d |>.symm, fun _ => trivial⟩

theorem quiet_queueCall (q : QueueCall) : Quiet d (queueCall q) := by
  refine ⟨Option.some_ne_none d |>.symm, ?_⟩
  rintro (e | result) <;> trivial

theorem quiet_removeFinishedJob (deliveryId : Uuid) :
    Quiet d (removeFinishedJob deliveryId) := by
  refine (quiet_queueCall _).seq fun existing => ?_
  cases existing with
  | false => trivial
  | true =>
      refine (quiet_queueCall _).seq fun state => ?_
      split
      · exact quiet_queueCall _
      · trivial

theorem quiet_enqueue (maxAttempts : ℕ) (workItem : DeliveryWorkItem) :
    Quiet d (enqueue maxAttempts workItem) :=
  (quiet_removeFinishedJob _).seq fun _ => quiet_queueCall _

theorem acceptsAside_enqueueBulk (maxAttempts : ℕ)
    (workItems : List DeliveryWorkItem) :
    AcceptsAside d (enqueueBulk maxAttempts workItems) := by
  unfold enqueueBulk
  split
  · trivial
  · refine (Program.EveryCall.all ?_).seq fun _ => acceptsAside_addBulk _
    intro p hp
    obtain ⟨item, -, rfl⟩ := List.mem_map.mp hp
    exact (quiet_removeFinishedJob _).acceptsAside

theorem acceptsAside_newDeliveries (broadcastId channelId : Uuid)
    (now : Instant) (endpointIds : List Uuid) :
    AcceptsAside d (newDeliveries broadcastId channelId now endpointIds) := by
  induction endpointIds with
  | nil => trivial
  | cons endpointId endpointIds ih =>
      exact (quiet_randomUUID.acceptsAside).seq fun id =>
        ih.seq fun rest => trivial

theorem acceptsAside_createDeliveriesForBroadcast (broadcast : BroadcastRow)
    (endpointIds : List Uuid) (now : Instant) :
    AcceptsAside d
      (createDeliveriesForBroadcast broadcast endpointIds now) := by
  unfold createDeliveriesForBroadcast
  split
  · trivial
  · exact (acceptsAside_newDeliveries _ _ _ _).seq fun rows =>
      acceptsAside_ingestQuery _

theorem acceptsAside_acceptBroadcast (input : BroadcastRow) (now : Instant) :
    AcceptsAside d (acceptBroadcast input now) := by
  refine (acceptsAside_ingestQuery _).seq fun broadcast => ?_
  refine (acceptsAside_ingestQuery _).seq fun enabledEndpoints => ?_
  refine Program.EveryCall.seq ?_ fun deliveries =>
    (acceptsAside_ingestQuery _).seq fun _ => trivial
  split
  · exact acceptsAside_createDeliveriesForBroadcast _ _ _
  · trivial

theorem acceptsAside_enqueueAccepted (maxAttempts : ℕ) (requestId : Uuid)
    (accepted : BroadcastRow × List DeliveryRow) :
    AcceptsAside d (enqueueAccepted maxAttempts requestId accepted) := by
  rcases accepted with ⟨broadcast, deliveries⟩
  change AcceptsAside d (if deliveries.length = 0 then _ else _)
  split
  · trivial
  · refine (acceptsAside_enqueueBulk _ _).settle.seq fun enqueued => ?_
    rcases enqueued with error | _
    · exact (acceptsAside_ingestQuery _).seq fun _ => trivial
    · trivial

theorem acceptsAside_fanOutBroadcast (maxAttempts : ℕ)
    (input : FanOutBroadcastInput) :
    AcceptsAside d (fanOutBroadcast maxAttempts input) := by
  rw [fanOutBroadcast_eq]
  refine Program.EveryCall.seq ?_ fun requestId =>
    (acceptsAside_acceptBroadcast _ _).seq
      (acceptsAside_enqueueAccepted maxAttempts requestId)
  unfold requestIdOf
  split
  · trivial
  · exact quiet_randomUUID.acceptsAside

theorem acceptsAside_checkIngestToken (hashToken : String → String)
    (channel : ChannelRow) (request : IngestRequest) :
    AcceptsAside d (checkIngestToken hashToken channel request) := by
  unfold checkIngestToken
  split
  · trivial
  · split
    · trivial
    · refine (acceptsAside_ingestQuery _).seq fun channelToken => ?_
      cases channelToken <;> trivial

theorem acceptsAside_ingest (hashToken : String → String)
    (config : IngestRouteConfig) (slug : String) (request : IngestRequest) :
    AcceptsAside d (ingest hashToken config slug request) := by
  refine (acceptsAside_ingestQuery _).seq fun channel => ?_
  cases channel with
  | none => trivial
  | some channel =>
      refine (acceptsAside_checkIngestToken _ _ _).seq fun refused => ?_
      cases refused with
      | some response => trivial
      | none =>
          change AcceptsAside d (acceptRequest config channel request)
          unfold acceptRequest
          split
          · trivial
          · split
            · trivial
            · trivial
            · refine quiet_randomUUID.acceptsAside.seq fun id => ?_
              refine Quiet.now.acceptsAside.seq fun receivedAt => ?_
              exact (acceptsAside_fanOutBroadcast _ _).seq fun _ => trivial

theorem acceptsAside_replayBroadcast (maxAttempts : ℕ)
    (channelId broadcastId : Uuid) :
    AcceptsAside d (replayBroadcast maxAttempts channelId broadcastId) := by
  refine (acceptsAside_ingestQuery _).seq fun channel => ?_
  cases channel with
  | none => trivial
  | some channel =>
      refine (acceptsAside_ingestQuery _).seq fun original => ?_
      cases original with
      | none => trivial
      | some original =>
          refine Quiet.now.acceptsAside.seq fun now => ?_
          refine quiet_randomUUID.acceptsAside.seq fun id => ?_
          exact (acceptsAside_fanOutBroadcast _ _).seq fun _ => trivial

end Accept

/-! ## Every other run -/

section Programs

variable {d : Uuid} {α : Type}

theorem AcceptsAside.foreignTo {p : AcceptAction α} (hp : AcceptsAside d p) :
    ForeignTo d (p.inl (T := AdminEffects)) := Program.EveryCall.inl hp

theorem Quiet.foreignTo {p : Action α} (hp : Quiet d p) :
    ForeignTo d ((p.inl (T := IngestEffects)).inl (T := AdminEffects)) :=
  hp.acceptsAside.foreignTo

theorem foreignTo_adminQuery (q : AdminQuery) :
    ForeignTo d (adminQuery q) := by
  refine ⟨trivial, ?_⟩
  rintro (e | result) <;> trivial

theorem foreignTo_randomBytes : ForeignTo d randomBytes :=
  ⟨trivial, fun _ => trivial⟩

/-- The statements of the operator retry. -/
def Retrying (d : Uuid) (c : Call) : Prop :=
  c.writes ≠ some d ∨
    ∃ updatedAt, c = .query (.retryDeadLetteredDelivery d updatedAt)

theorem retrying_query {q : Query} (hq : Retrying d (.query q)) :
    (query q).EveryCall fun c _ => Retrying d c := by
  refine ⟨hq, ?_⟩
  rintro (e | result) <;> trivial

theorem retrying_of_quiet {p : Action α} (hp : Quiet d p) :
    p.EveryCall fun c _ => Retrying d c :=
  Program.EveryCall.mono (fun _ _ hc => Or.inl hc) hp

theorem retrying_retryDelivery (maxAttempts : ℕ) (deliveryId : Uuid) :
    (retryDelivery maxAttempts deliveryId).EveryCall fun c _ =>
      Retrying d c := by
  have hretry (at_ : Instant) :
      Retrying d (.query (.retryDeadLetteredDelivery deliveryId at_)) := by
    by_cases hid : deliveryId = d
    · subst hid
      exact Or.inr ⟨at_, rfl⟩
    · exact Or.inl fun heq => hid (Option.some.inj heq)
  have hread : Retrying d (.query (.getDeliveryDetailById deliveryId)) :=
    Or.inl (Option.some_ne_none d |>.symm)
  refine (retrying_of_quiet Quiet.now).seq fun at_ => ?_
  refine (retrying_query (hretry at_)).seq fun retried => ?_
  cases retried with
  | false =>
      refine (retrying_query hread).seq fun existing => ?_
      cases existing <;> trivial
  | true =>
      refine (retrying_query hread).seq fun row => ?_
      cases row with
      | none => trivial
      | some row =>
          refine (retrying_of_quiet quiet_randomUUID).seq fun requestId => ?_
          refine (retrying_of_quiet (quiet_enqueue _ _)).seq fun _ => ?_
          refine (retrying_query hread).seq fun updated => ?_
          cases updated <;> trivial

theorem foreignTo_retryDelivery (maxAttempts : ℕ) (deliveryId : Uuid) :
    ForeignTo d (((retryDelivery maxAttempts deliveryId).inl
      (T := IngestEffects)).inl (T := AdminEffects)) :=
  Program.EveryCall.inl (Program.EveryCall.inl
    (Program.EveryCall.mono (fun _ _ hc => hc)
      (retrying_retryDelivery maxAttempts deliveryId)))

theorem foreignTo_adminAction (hashToken : String → String)
    (action : AdminAction) : ForeignTo d (action.program hashToken) := by
  cases action with
  | session => trivial
  | replay maxAttempts channelId broadcastId =>
      exact (acceptsAside_replayBroadcast _ _ _).foreignTo.seq
        fun _ => trivial
  | retry maxAttempts deliveryId =>
      exact (foreignTo_retryDelivery _ _).seq fun _ => trivial
  | write method statement =>
      exact (foreignTo_adminQuery _).seq fun _ => trivial
  | mintChannelToken channelId =>
      refine (acceptsAside_ingestQuery _).foreignTo.seq fun channel => ?_
      cases channel with
      | none => trivial
      | some channel =>
          refine foreignTo_randomBytes.seq fun random => ?_
          refine quiet_randomUUID.foreignTo.seq fun id => ?_
          refine Quiet.now.foreignTo.seq fun createdAt => ?_
          exact (foreignTo_adminQuery _).seq fun _ => trivial
  | revokeChannelToken channelId tokenId =>
      exact (foreignTo_adminQuery _).seq fun _ => trivial
  | listOperatorTokens => exact (foreignTo_adminQuery _).seq fun _ => trivial
  | mintOperatorToken body =>
      change ForeignTo d (createOperatorToken hashToken body)
      unfold createOperatorToken
      split
      · trivial
      · refine foreignTo_randomBytes.seq fun random => ?_
        refine quiet_randomUUID.foreignTo.seq fun id => ?_
        refine Quiet.now.foreignTo.seq fun createdAt => ?_
        exact (foreignTo_adminQuery _).seq fun _ => trivial
  | revokeOperatorToken tokenId =>
      exact (foreignTo_adminQuery _).seq fun _ => trivial

theorem foreignTo_operatorAuth {hashToken : String → String}
    {config : OperatorAuthConfig} {credentials : OperatorCredentials}
    {next : String → ApiAction Handled}
    (hnext : ∀ label, ForeignTo d (next label)) :
    ForeignTo d (operatorAuth hashToken config credentials next) := by
  unfold operatorAuth
  split
  · split
    · exact hnext _
    · refine (foreignTo_adminQuery _).seq fun row => ?_
      cases row with
      | none => trivial
      | some row =>
          refine Quiet.now.foreignTo.seq fun at_ => ?_
          exact ⟨trivial, fun _ => hnext row.label⟩
  · split
    · split
      · exact hnext _
      · trivial
    · trivial

/-- The task is a worker run of the Delivery. -/
def ApiTask.Processes (t : ApiTask) (d : Uuid) : Prop :=
  ∃ task, t = .process task ∧ task.deliveryId = d

theorem foreignTo_program (hashToken : String → String)
    (config : OperatorAuthConfig) (dateParse : String → Option Instant)
    {t : ApiTask} (ht : ¬ t.Processes d) :
    ForeignTo d (t.program hashToken config dateParse) := by
  cases t with
  | ingest routeConfig slug request =>
      exact (acceptsAside_ingest _ _ _ _).foreignTo.seq fun _ => trivial
  | process task =>
      have hid : task.deliveryId ≠ d := fun h => ht ⟨task, rfl, h⟩
      have hquiet : Quiet d (processDelivery dateParse task.deps
          task.deliveryId) :=
        .of_shape hid (shape_processDelivery dateParse)
      exact hquiet.foreignTo.seq fun _ => trivial
  | autoDisable endpointId autoDisableAfterMs now =>
      exact (Quiet.maybeAutoDisableEndpoint _ _ _).foreignTo.seq
        fun _ => trivial
  | admin credentials path action =>
      exact foreignTo_operatorAuth fun label =>
        (foreignTo_adminAction hashToken action).seq fun _ => trivial

end Programs

/-! ## The deployment upholds the discipline -/

section System

variable {d : Uuid}

theorem ensures_foreign {α : Type} {p : ApiAction α} (hp : ForeignTo d p)
    (D : Deployment) :
    (apiDiscipline d).Ensures (fun _ _ => True) p D := by
  have hcalls : p.EveryCall fun c _ => ∀ D x, (apiDiscipline d).invariant D →
      (apiDiscipline d).permits D c x → True →
      (apiDiscipline d).invariant (performApi x c D).2 ∧
        (apiDiscipline d).guarantee D (performApi x c D).2 ∧ True := by
    refine Program.EveryCall.mono (fun c k hc D' x hD hx _ => ?_) hp
    obtain ⟨hcons, hevolves⟩ := keeps_foreign hc hD hx x
    exact ⟨hcons, hevolves, trivial⟩
  exact (Discipline.Ensures.of_everyCall (fun _ _ _ h => h) hcalls
    Program.EveryEnd.trivial trivial).consequence fun _ _ _ => trivial

theorem ensures_program (hashToken : String → String)
    (config : OperatorAuthConfig) (dateParse : String → Option Instant)
    (t : ApiTask) (D : Deployment) :
    (apiDiscipline d).Ensures (fun _ _ => True)
      (t.program hashToken config dateParse) D := by
  by_cases ht : t.Processes d
  · obtain ⟨task, rfl, rfl⟩ := ht
    have hworker : (Regime.any.discipline task.deliveryId).Ensures
        (Regime.any.resolves task.deliveryId)
        (processDelivery dateParse task.deps task.deliveryId) D.world :=
      Regime.ensures_processDelivery (Set.mem_univ _) D.world
    have hrun := ensures_worker hworker
    refine Discipline.Ensures.bind ?_ (fun _ _ _ => trivial) hrun
    exact fun _ _ _ _ _ => trivial
  · exact ensures_foreign (foreignTo_program hashToken config dateParse ht) D

/-- The change of a housekeeping event. -/
theorem leavesOrEnds_housekeeping (b : Housekeeping) (D : Deployment) :
    D.world.db.LeavesOrEnds d (b.run D).world.db := by
  cases b with
  | settleTouch n carriedOut =>
      rw [world_settleTouch]
      exact .refl _
  | sweep retentionDays now => exact leavesOrEnds_deleteBroadcasts _ _ d

theorem api_upholds (hashToken : String → String) (config : OperatorAuthConfig)
    (dateParse : String → Option Instant) (d : Uuid) :
    (api hashToken config dateParse).Upholds (apiDiscipline d)
      (fun _ _ _ => True) (fun _ => True) (fun _ => True) where
  handler_eq := rfl
  program_ensures t _ := ensures_program hashToken config dateParse t
  guarantee_rely _ _ h := h
  background_invariant b D _ hD :=
    ((leavesOrEnds_housekeeping b D).keeps hD).1
  background_rely b D _ hD := ((leavesOrEnds_housekeeping b D).keeps hD).2

/-- No run of the Delivery has been started. -/
def Unprocessed (d : Uuid) (history : ApiHistory) : Prop :=
  ∀ t, .start t ∈ history → ¬ t.Processes d

/-- A Delivery that is as fan-out has created it is sound, if no run of it has
been started yet. -/
theorem sound_of_fresh (hashToken : String → String)
    (config : OperatorAuthConfig) (dateParse : String → Option Instant)
    {D : Deployment} {history : ApiHistory} (hunprocessed : Unprocessed d history)
    (hfresh : ((api hashToken config dateParse).exec (Pool.idle D)
      history).state.world.db.Fresh d) :
    System.Sound (apiDiscipline d) (fun _ _ _ => True)
      ((api hashToken config dateParse).exec (Pool.idle D) history) where
  invariant := hfresh.consistent
  ensures := by
    intro run hrun
    have hcalls := (api hashToken config dateParse).exec_forall_runs
      (motive := fun t p => ¬ t.Processes d → ForeignTo d p)
      (fun t ht => foreignTo_program hashToken config dateParse ht)
      (fun t p x D hp ht => (hp ht).advance _ x D)
      (P := Pool.idle D) (fun run hrun => absurd hrun List.not_mem_nil)
      history run hrun
    obtain ⟨i, hi⟩ := List.getElem?_of_mem hrun
    have hstart := (api hashToken config dateParse).start_mem_of_run rfl hi
    exact ensures_foreign (hcalls (hunprocessed _ hstart)) _

/-- No further Delivery is committed under this id. -/
def SoleCommit (hashToken : String → String) (config : OperatorAuthConfig)
    (dateParse : String → Option Instant) (d : Uuid) (P : ApiPool)
    (events : ApiHistory) : Prop :=
  ∀ before e after, events = before ++ e :: after →
    ∀ tx, Performs ((api hashToken config dateParse).exec P before) e
      (commitCall tx) → OtherIds d tx

theorem SoleCommit.admissible {hashToken : String → String}
    {config : OperatorAuthConfig} {dateParse : String → Option Instant}
    {P : ApiPool} {events : ApiHistory}
    (h : SoleCommit hashToken config dateParse d P events) :
    (api hashToken config dateParse).AdmissibleRun (apiDiscipline d)
      (fun _ => True) (fun _ => True) P events := by
  intro before e after heq
  cases e with
  | start t => trivial
  | background b => trivial
  | step i x =>
      rintro run c k hi hp tx rfl
      exact h before _ after heq tx
        ⟨i, x, run.task, rfl, run, hi, rfl, by rw [hp]; rfl⟩

theorem SoleCommit.append {hashToken : String → String}
    {config : OperatorAuthConfig} {dateParse : String → Option Instant}
    {P : ApiPool} {first second : ApiHistory}
    (h : SoleCommit hashToken config dateParse d P (first ++ second)) :
    SoleCommit hashToken config dateParse d P first ∧
      SoleCommit hashToken config dateParse d
        ((api hashToken config dateParse).exec P first) second := by
  constructor
  · intro before e after heq
    exact h before e (after ++ second) (by simp [heq])
  · intro before e after heq
    have hlater := h (first ++ before) e after (by simp [heq])
    rwa [System.exec_append] at hlater

/-- Over any events the timeline evolves. -/
theorem evolvesTo_exec {hashToken : String → String}
    {config : OperatorAuthConfig} {dateParse : String → Option Instant}
    {P : ApiPool} (hP : System.Sound (apiDiscipline d) (fun _ _ _ => True) P)
    {events : ApiHistory}
    (hsole : SoleCommit hashToken config dateParse d P events) :
    (apiDiscipline d).Interferes P.state
      ((api hashToken config dateParse).exec P events).state :=
  (api_upholds hashToken config dateParse d).exec_preserves hP
    (motive := (apiDiscipline d).Interferes P.state)
    (fun _ _ hrely h => h.trans (Relation.ReflTransGen.single hrely))
    (.refl _) hsole.admissible

end System

end WebhookBroadcast
