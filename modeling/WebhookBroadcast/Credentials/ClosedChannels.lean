import WebhookBroadcast.Credentials.Trust
import WebhookBroadcast.Service.ReplayTree

/-!
# Channels that are closed to outsiders

A request to ingest stores a Broadcast of a Channel only after its own lookups
have found the Channel active and, unless the Channel takes unauthenticated
ingest, a token of the Channel with the hash of the request's bearer token.
-/

namespace WebhookBroadcast

open Interaction Relational

/-! ## Admission -/

/-- The lookups of a request to ingest let it into this Channel. -/
inductive Admitted (hashToken : String → String) (slug : String)
    (request : IngestRequest)
    (trace : List (Made AcceptEffects Choice World)) : Uuid → Prop
  | intro {read : Made AcceptEffects Choice World} (hread : read ∈ trace)
      (hcall : read.call = .inr (.query (.getActiveChannelBySlug slug)))
      {channel : ChannelRow}
      (hfound : getActiveChannelBySlug read.found.db slug = some channel)
      (htoken : channel.allowUnauthenticatedIngest = true ∨
        ∃ bearer, extractBearerToken (request.get "authorization") =
            some bearer ∧
          ∃ lookup ∈ trace, lookup.call =
              .inr (.query (.findChannelTokenByHash channel.id
                (hashToken bearer))) ∧
            ∃ t ∈ lookup.found.db.channelTokens, t.channelId = channel.id ∧
              t.tokenHash = hashToken bearer) :
      Admitted hashToken slug request trace channel.id

variable {hashToken : String → String} {slug : String}
  {request : IngestRequest}

theorem findChannelTokenByHash_eq_some {db : Database} {channelId : Uuid}
    {tokenHash : String} {t : ChannelTokenRow}
    (h : findChannelTokenByHash db channelId tokenHash = some t) :
    t ∈ db.channelTokens ∧ t.channelId = channelId ∧
      t.tokenHash = tokenHash := by
  have hmem := List.mem_of_find?_eq_some h
  have hp := List.find?_some h
  simp only [Bool.and_eq_true, decide_eq_true_eq] at hp
  exact ⟨hmem, hp.1, hp.2⟩

theorem getActiveChannelBySlug_eq_some {db : Database} {channel : ChannelRow}
    (h : getActiveChannelBySlug db slug = some channel) :
    channel ∈ db.channels ∧ channel.slug = slug ∧ channel.enabled = true ∧
      channel.deletedAt = none := by
  have hmem := List.mem_of_find?_eq_some h
  have hp := List.find?_some h
  simp only [Bool.and_eq_true, decide_eq_true_eq] at hp
  exact ⟨hmem, hp.1.1, hp.1.2, hp.2⟩

/-- An accepted request is stored in the Channel that was found. -/
theorem amid_acceptRequest_channel (config : IngestRouteConfig)
    (channel : ChannelRow) (request : IngestRequest) :
    (acceptRequest config channel request).Amid performAccept
      (CommitsOnly fun tx => tx.broadcast.channelId = channel.id)
      fun _ => True := by
  unfold acceptRequest
  split
  · trivial
  · split
    · trivial
    · trivial
    next body hbody =>
      refine ⟨trivial, fun x w => ⟨trivial, fun y v => ?_⟩⟩
      have hchannel (b : BroadcastRow) (hb : b.channelId = channel.id) :
          (fanOutBroadcast config.maxAttempts { broadcast := b }).Amid
            performAccept
            (CommitsOnly fun tx => tx.broadcast.channelId = channel.id)
            fun _ => True :=
        (amid_fanOutBroadcast_of (ρ := fun broadcast =>
          broadcast.channelId = channel.id) hb).consequence
            (fun _ h => (FansOut.imp h fun _ htx => htx.1).commitsOnly)
            fun _ => id
      exact (hchannel _ rfl).seq fun _ => trivial

/-- The token check makes no commit, and lets pass only with a token. -/
theorem observes_checkIngestToken {channel : ChannelRow} {α : Type}
    {f : Option AcceptResponse → AcceptAction α}
    {trace : List (Made AcceptEffects Choice World)}
    (htrace : (checkIngestToken hashToken channel request >>= f).Observes
      performAccept trace) :
    (∀ m ∈ trace, ∀ tx, m.call ≠ .inr (.query (.commit tx))) ∨
    (∃ first response rest, trace = first ++ rest ∧
      (∀ m ∈ first, ∀ tx, m.call ≠ .inr (.query (.commit tx))) ∧
      (f (some response)).Observes performAccept rest) ∨
    ∃ first rest, trace = first ++ rest ∧
      (∀ m ∈ first, ∀ tx, m.call ≠ .inr (.query (.commit tx))) ∧
      (f none).Observes performAccept rest ∧
      (channel.allowUnauthenticatedIngest = true ∨
        ∃ bearer, extractBearerToken (request.get "authorization") =
            some bearer ∧
          ∃ lookup ∈ first, lookup.call =
              .inr (.query (.findChannelTokenByHash channel.id
                (hashToken bearer))) ∧
            ∃ t ∈ lookup.found.db.channelTokens, t.channelId = channel.id ∧
              t.tokenHash = hashToken bearer) := by
  unfold checkIngestToken at htrace
  split at htrace
  next hopen =>
    exact Or.inr (Or.inr ⟨[], trace, rfl, by simp, htrace, Or.inl hopen⟩)
  next hclosed =>
    split at htrace
    next hnone =>
      exact Or.inr (Or.inl ⟨[], _, trace, rfl, by simp, htrace⟩)
    next bearer hbearer =>
      rw [Program.bind_assoc] at htrace
      rcases observes_ingestQuery htrace with
        rfl | ⟨x, w, rest, rfl, hrest⟩
      · exact Or.inl (by simp)
      · have hlookup : ∀ m ∈ [(⟨.inr (.query (.findChannelTokenByHash channel.id
            (hashToken bearer))), x, w⟩ : Made AcceptEffects Choice World)],
              ∀ tx, m.call ≠ .inr (.query (.commit tx)) := by
          intro m hm tx h
          rw [List.mem_singleton.mp hm] at h
          cases h
        rcases hrest with rfl | ⟨found, hresult, hrest⟩
        · exact Or.inl hlookup
        · cases found with
          | none =>
              exact Or.inr (Or.inl ⟨[_], _, rest, rfl, hlookup, hrest⟩)
          | some t =>
              refine Or.inr (Or.inr ⟨[_], rest, rfl, hlookup, hrest,
                Or.inr ⟨bearer, hbearer, _, List.mem_cons_self, rfl, t, ?_⟩⟩)
              exact findChannelTokenByHash_eq_some (Except.ok.inj hresult)

/-- A commit of ingest is for a Channel that the request was let into. -/
theorem admitted_of_commit {config : IngestRouteConfig}
    {trace : List (Made AcceptEffects Choice World)}
    (htrace : (ingest hashToken config slug request).Observes performAccept
      trace)
    {m : Made AcceptEffects Choice World} (hm : m ∈ trace) {tx : Transaction}
    (hcommit : m.call = .inr (.query (.commit tx))) :
    Admitted hashToken slug request trace tx.broadcast.channelId := by
  rcases observes_ingestQuery htrace with rfl | ⟨x, w, rest, rfl, hrest⟩
  · simp at hm
  · have hm : m ∈ rest := by
      rcases List.mem_cons.mp hm with rfl | hm
      · cases hcommit
      · exact hm
    rcases hrest with rfl | ⟨channel, hresult, hrest⟩
    · simp at hm
    · cases channel with
      | none =>
          cases hrest
          simp at hm
      | some channel =>
          rcases observes_checkIngestToken hrest with
            hno | ⟨first, response, last, rfl, hno, hlast⟩ |
              ⟨first, last, rfl, hno, hlast, htoken⟩
          · exact absurd hcommit (hno m hm tx)
          · cases hlast
            rw [List.append_nil] at hm
            exact absurd hcommit (hno m hm tx)
          · have hm : m ∈ last := by
              rcases List.mem_append.mp hm with hm | hm
              · exact absurd hcommit (hno m hm tx)
              · exact hm
            have hchannel := (amid_acceptRequest_channel config channel
              request).observes hlast m hm
            rw [hcommit] at hchannel
            have hid : tx.broadcast.channelId = channel.id := hchannel
            rw [hid]
            refine .intro List.mem_cons_self rfl (Except.ok.inj hresult) ?_
            rcases htoken with hopen |
              ⟨bearer, hbearer, lookup, hlookup, hcall, ht⟩
            · exact Or.inl hopen
            · exact Or.inr ⟨bearer, hbearer, lookup,
                List.mem_cons_of_mem _ (List.mem_append_left _ hlookup), hcall,
                ht⟩

/-! ## Runs of the deployment -/

/-- The commit of a transaction. -/
@[reducible] def commitCall (tx : Transaction) : ApiEffects.Call :=
  .inl (.inr (.query (.commit tx)))

/-- The calls that the service makes, as it sees them. -/
def serviceCalls (trace : List (Made ApiEffects ApiChoice Deployment)) :
    List (Made AcceptEffects Choice World) :=
  trace.filterMap fun m =>
    match m.call with
    | .inl c => some ⟨c, m.choice.toChoice, m.found.world⟩
    | .inr _ => none

theorem serviceCalls_inl (calls : List (Made AcceptEffects ApiChoice Deployment)) :
    serviceCalls (calls.map Made.inl) =
      calls.map (Made.part ApiChoice.toChoice Deployment.world) := by
  rw [serviceCalls, List.filterMap_map]
  exact List.filterMap_eq_map' ▸ rfl

/-- What a request to ingest observes in the deployment. -/
theorem observes_ingestTask (config : OperatorAuthConfig)
    (dateParse : String → Option Instant) {routeConfig : IngestRouteConfig}
    {trace : List (Made ApiEffects ApiChoice Deployment)}
    (htrace : ((ApiTask.ingest routeConfig slug request).program hashToken
      config dateParse).Observes performApi trace) :
    (ingest hashToken routeConfig slug request).Observes performAccept
      (serviceCalls trace) := by
  have hbind : ((ingest hashToken routeConfig slug request).inl
      (T := AdminEffects)).Observes performApi trace :=
    Program.Observes.of_bind_done (f := fun outcome =>
      (⟨.ingest outcome, none⟩ : Handled)) htrace
  obtain ⟨calls, hcalls, rfl⟩ := Program.Observes.of_inl hbind
  rw [serviceCalls_inl]
  exact hcalls.of_within

theorem serviceCalls_append
    (trace rest : List (Made ApiEffects ApiChoice Deployment)) :
    serviceCalls (trace ++ rest) = serviceCalls trace ++ serviceCalls rest :=
  List.filterMap_append

/-- The commit that a request comes to is no lookup. -/
theorem Admitted.of_concat {trace : List (Made AcceptEffects Choice World)}
    {tx : Transaction} {x : Choice} {w : World} {channelId : Uuid}
    (h : Admitted hashToken slug request
      (trace ++ [⟨.inr (.query (.commit tx)), x, w⟩]) channelId) :
    Admitted hashToken slug request trace channelId := by
  have hbefore {m : Made AcceptEffects Choice World}
      (hm : m ∈ trace ++ [⟨.inr (.query (.commit tx)), x, w⟩])
      (hother : m.call ≠ .inr (.query (.commit tx))) : m ∈ trace := by
    rcases List.mem_append.mp hm with hm | hm
    · exact hm
    · rw [List.mem_singleton.mp hm] at hother
      exact absurd rfl hother
  cases h with
  | intro hread hcall hfound htoken =>
      refine .intro (hbefore hread fun h => ?_) hcall hfound ?_
      · rw [hcall] at h
        cases h
      · rcases htoken with hopen | ⟨bearer, hbearer, lookup, hlookup, hsame, ht⟩
        · exact Or.inl hopen
        · refine Or.inr ⟨bearer, hbearer, lookup,
            hbefore hlookup fun h => ?_, hsame, ht⟩
          rw [hsame] at h
          cases h

section System

variable {config : OperatorAuthConfig} {dateParse : String → Option Instant}
  {D : Deployment} {history : ApiHistory}

/-- What a request has observed when it comes to its commit. -/
theorem observes_of_makes {i : ℕ} {routeConfig : IngestRouteConfig}
    {tx : Transaction}
    (hmakes : ((api hashToken config dateParse).exec (Pool.idle D)
      history).Makes i (.ingest routeConfig slug request)
        (commitCall tx)) :
    ∃ x w, (ingest hashToken routeConfig slug request).Observes performAccept
      (serviceCalls ((api hashToken config dateParse).madeBy i (Pool.idle D)
        history) ++ [⟨.inr (.query (.commit tx)), x, w⟩]) := by
  have htrace := observes_ingestTask config dateParse
    ((api hashToken config dateParse).observes_makes List.getElem?_nil hmakes
      {})
  rw [serviceCalls_append] at htrace
  exact ⟨_, _, htrace⟩

/-- The lookups of a run that comes to its commit have let it in. -/
theorem admitted_of_makes {i : ℕ} {routeConfig : IngestRouteConfig}
    {tx : Transaction}
    (hmakes : ((api hashToken config dateParse).exec (Pool.idle D)
      history).Makes i (.ingest routeConfig slug request)
        (commitCall tx)) :
    Admitted hashToken slug request
      (serviceCalls ((api hashToken config dateParse).madeBy i (Pool.idle D)
        history)) tx.broadcast.channelId := by
  obtain ⟨x, w, htrace⟩ := observes_of_makes hmakes
  exact (admitted_of_commit htrace
    (List.mem_append_right _ List.mem_cons_self) rfl).of_concat

/-- In every interleaving, with tokens being minted and revoked meanwhile, a
request to ingest comes to its commit only after its own lookups have found the
Channel of the slug active and, unless the Channel is open, a token of this
Channel with the hash of what the request bears; and what it commits then are
its own contents, in this Channel. -/
theorem ingest_admitted (hashToken : String → String)
    (config : OperatorAuthConfig) (dateParse : String → Option Instant)
    (D : Deployment) (history : ApiHistory) (i : ℕ)
    (routeConfig : IngestRouteConfig) (slug : String) (request : IngestRequest)
    (tx : Transaction)
    (hmakes : ((api hashToken config dateParse).exec (Pool.idle D)
      history).Makes i (.ingest routeConfig slug request) (commitCall tx)) :
    Admitted hashToken slug request
      (serviceCalls ((api hashToken config dateParse).madeBy i (Pool.idle D)
        history)) tx.broadcast.channelId ∧
      routeConfig.Stores request tx.broadcast ∧ tx.Own := by
  refine ⟨admitted_of_makes hmakes, ?_⟩
  obtain ⟨x, w, htrace⟩ := observes_of_makes hmakes
  exact (amid_ingest hashToken routeConfig slug request).observes htrace _
    (List.mem_append_right _ List.mem_cons_self)

/-! ## Broadcasts of a closed Channel -/

/-- The worker's own runs come to no commit. -/
theorem not_commit_of_worker {i : ℕ}
    {run : Run ApiEffects Thrown Handled ApiTask}
    (hrun : ((api hashToken config dateParse).exec (Pool.idle D)
      history).runs[i]? = some run)
    (hadmin : ∀ credentials path action,
      run.task ≠ .admin credentials path action)
    (hingest : ∀ routeConfig slug request,
      run.task ≠ .ingest routeConfig slug request)
    (tx : Transaction) :
    run.program.next? ≠ some (commitCall tx) := by
  have hruns := (api hashToken config dateParse).exec_forall_runs
    (motive := fun t p => (∀ credentials path action,
      t ≠ .admin credentials path action) → (∀ routeConfig slug request,
        t ≠ .ingest routeConfig slug request) →
          p.EveryCall fun c _ => c ≠ commitCall tx)
    (fun t => ?_) (fun t p x D hp ht ht' => (hp ht ht').advance _ x D)
    (P := Pool.idle D) (fun run hrun => absurd hrun List.not_mem_nil) history
  · have hcalls := hruns run (List.mem_of_getElem? hrun) hadmin hingest
    cases hp : run.program with
    | done a => exact fun h => by cases h
    | fail e => exact fun h => by cases h
    | call c k =>
        rw [hp] at hcalls
        intro h
        exact hcalls.1 (Option.some.inj h)
  · have hinl {α : Type} (p : Action α) (f : α → Handled) :
        ((p.inl (T := IngestEffects)).inl (T := AdminEffects) >>=
          fun a => Program.done (f a)).EveryCall
            fun c _ => c ≠ commitCall tx := by
      induction p with
      | done a => trivial
      | fail e => trivial
      | call c k ih =>
          refine ⟨fun h => ?_, ih⟩
          cases h
    intro ht ht'
    cases t with
    | admin credentials path action => exact absurd rfl (ht _ _ _)
    | ingest routeConfig slug request => exact absurd rfl (ht' _ _ _)
    | process task => exact hinl _ fun _ => _
    | autoDisable endpointId autoDisableAfterMs now => exact hinl _ _

/-- A call adds no Broadcast, or it is the commit of one. -/
theorem broadcasts_performApi {c : ApiEffects.Call}
    (hc : ServiceCall c ∨ GuardCall c) (x : ApiChoice) (D : Deployment)
    {b : BroadcastRow} (hb : b ∈ (performApi x c D).2.world.db.broadcasts) :
    b ∈ D.world.db.broadcasts ∨ ∃ tx, tx.broadcast = b ∧
      c = commitCall tx := by
  cases c with
  | inl c =>
      cases c with
      | inl c =>
          exact Or.inl ((addsNothing_perform x.toChoice c D.world).broadcasts
            b hb)
      | inr c =>
          have hcases : (performApi x (.inl (.inr c)) D).2.world.db =
                D.world.db ∨ ∃ q, c = .query q ∧
              (performApi x (.inl (.inr c)) D).2.world.db =
                (q.run D.world.db).2 := performIngest_db x.toChoice c D.world
          rcases hcases with h | ⟨q, rfl, h⟩
          · rw [h] at hb
            exact Or.inl hb
          · rw [h] at hb
            cases q with
            | commit tx =>
                by_cases hcheck : tx.check D.world.db = .ok ()
                · have hgrows := Transaction.grows_commit hcheck
                  rw [Table.mem_def] at hb
                  have hrows : ((IngestQuery.commit tx).run
                      D.world.db).2.broadcasts.rows =
                        D.world.db.broadcasts.rows ++ [tx.broadcast] :=
                    hgrows.broadcasts
                  rw [hrows, List.mem_append, List.mem_singleton] at hb
                  rcases hb with hb | rfl
                  · exact Or.inl hb
                  · exact Or.inr ⟨tx, rfl, rfl⟩
                · have hsame : ((IngestQuery.commit tx).run D.world.db).2 =
                      D.world.db := Transaction.commit_of_check_ne hcheck
                  rw [hsame] at hb
                  exact Or.inl hb
            | deleteBroadcastById id =>
                exact Or.inl ((D.world.db.addsNothing_deleteBroadcasts
                  _).broadcasts b hb)
            | _ => exact Or.inl hb
  | inr c =>
      have hworld : (performApi x (.inr c) D).2.world = D.world := by
        rcases hc with hc | hc
        · exact hc.elim
        · cases c with
          | query q =>
              cases q with
              | findOperatorTokenByHash tokenHash =>
                  rcases performApi_query_cases x
                      (.findOperatorTokenByHash tokenHash) D with
                    ⟨h, -⟩ | ⟨e, -, h | h⟩
                  · rw [h]
                    rfl
                  · rw [h]
                  · rw [h]
                    rfl
              | _ => exact hc.elim
          | touchOperatorTokenLastUsed tokenId at_ => rfl
          | randomBytes => rfl
      rw [hworld] at hb
      exact Or.inl hb

/-- An event adds no Broadcast, or it is a run's commit of one. -/
theorem broadcasts_apply {P : ApiPool} {e : ApiEvent}
    (hcalls : ∀ {i t c}, P.Makes i t c → ServiceCall c ∨ GuardCall c)
    {b : BroadcastRow} (hb : b ∈ ((api hashToken config dateParse).apply P
      e).state.world.db.broadcasts) :
    b ∈ P.state.world.db.broadcasts ∨ ∃ i t tx,
      P.Makes i t (commitCall tx) ∧ tx.broadcast = b := by
  cases e with
  | start t => exact Or.inl hb
  | background event =>
      cases event with
      | settleTouch n carriedOut =>
          change b ∈ ((Housekeeping.settleTouch n carriedOut).run
            P.state).world.db.broadcasts at hb
          rw [world_settleTouch] at hb
          exact Or.inl hb
      | sweep retentionDays now =>
          exact Or.inl ((P.state.world.db.addsNothing_deleteBroadcasts
            _).broadcasts b hb)
  | step i x =>
      rcases api_step_cases hashToken config dateParse i x with
        h | ⟨t, c, hmakes, h⟩
      · rw [h] at hb
        exact Or.inl hb
      · rw [h] at hb
        rcases broadcasts_performApi (hcalls hmakes) x P.state hb with
          hb | ⟨tx, hown, rfl⟩
        · exact Or.inl hb
        · exact Or.inr ⟨i, t, tx, hmakes, hown⟩

/-- A request to ingest bears no token of this Channel. -/
def Strangers (hashToken : String → String) (db : Database) (channelId : Uuid)
    (history : ApiHistory) : Prop :=
  ∀ routeConfig slug request,
    .start (.ingest routeConfig slug request) ∈ history →
      ∀ bearer, extractBearerToken (request.get "authorization") =
        some bearer → ∀ t ∈ db.channelTokens, t.channelId = channelId →
          t.tokenHash ≠ hashToken bearer

/-- A commit is for no closed Channel whose guarded tables have been the same so
far and whose tokens no sender bears. -/
theorem not_admitted_of_strangers {channelId : Uuid}
    (hkept : ∀ first, first <+: history →
      ((api hashToken config dateParse).exec (Pool.idle D)
        first).state.guarded = D.guarded)
    (hclosed : ∀ c ∈ D.world.db.channels, c.id = channelId →
      c.allowUnauthenticatedIngest = false)
    {i : ℕ} (hsender : ∀ bearer, extractBearerToken
      (request.get "authorization") = some bearer →
        ∀ t ∈ D.world.db.channelTokens, t.channelId = channelId →
          t.tokenHash ≠ hashToken bearer) :
    ¬ Admitted hashToken slug request
      (serviceCalls ((api hashToken config dateParse).madeBy i (Pool.idle D)
        history)) channelId := by
  have hfound : ∀ m ∈ serviceCalls ((api hashToken config dateParse).madeBy i
      (Pool.idle D) history), m.found.db.channels = D.world.db.channels ∧
        m.found.db.channelTokens = D.world.db.channelTokens := by
    intro m hm
    obtain ⟨made, hmade, hcall⟩ := List.mem_filterMap.mp hm
    obtain ⟨before, after, t, rfl, -, hstate⟩ :=
      (api hashToken config dateParse).makes_of_mem_madeBy hmade
    have hguarded := hkept before (List.prefix_append _ _)
    split at hcall
    · cases hcall
      rw [hstate]
      exact ⟨congrArg GuardedTables.channels hguarded,
        congrArg GuardedTables.channelTokens hguarded⟩
    · cases hcall
  intro hadmitted
  cases hadmitted with
  | @intro read hread _ channel hslug htoken =>
      have hchannel := (getActiveChannelBySlug_eq_some hslug).1
      rw [(hfound read hread).1] at hchannel
      rcases htoken with hopen |
        ⟨bearer, hbearer, lookup, hlookup, -, t, ht, hid, hhash⟩
      · rw [hclosed channel hchannel rfl] at hopen
        cases hopen
      · rw [(hfound lookup hlookup).2] at ht
        exact hsender bearer hbearer t ht hid hhash

/-- Outsiders cannot publish on a closed Channel: however many requests they
make to ingest and to the admin API, and whatever the worker does meanwhile, the
Channel has no Broadcast that it did not have before. -/
theorem closed_channel_kept (hashToken : String → String)
    (config : OperatorAuthConfig) (dateParse : String → Option Instant)
    (D : Deployment) (channelId : Uuid)
    (hclosed : ∀ c ∈ D.world.db.channels, c.id = channelId →
      c.allowUnauthenticatedIngest = false)
    (history : ApiHistory)
    (hout : OnlyOutsiders hashToken config D.operatorTokens history)
    (hstrangers : Strangers hashToken D.world.db channelId history)
    (b : BroadcastRow)
    (hb : b ∈ ((api hashToken config dateParse).exec (Pool.idle D)
      history).state.world.db.broadcasts)
    (hchannel : b.channelId = channelId) : b ∈ D.world.db.broadcasts := by
  induction history using List.reverseRecOn with
  | nil => exact hb
  | append_singleton history e ih =>
      have hout' : OnlyOutsiders hashToken config D.operatorTokens history :=
        fun credentials path action hstart =>
          hout credentials path action (List.mem_append_left _ hstart)
      have hstrangers' : Strangers hashToken D.world.db channelId history :=
        fun routeConfig slug request hstart =>
          hstrangers routeConfig slug request (List.mem_append_left _ hstart)
      have hkept := guarded_of_onlyOutsiders dateParse hout'
      refine ih hout' hstrangers' ?_
      rw [System.exec_concat] at hb
      rcases broadcasts_apply (fun hmakes => call_of_onlyOutsiders hkept hout'
        hmakes) hb with hb | ⟨i, t, tx, hmakes, rfl⟩
      · exact hb
      obtain ⟨run, hi, htask, hc⟩ := hmakes
      have hstart := System.start_mem_of_run
        (api hashToken config dateParse) List.getElem?_nil hi
      rw [htask] at hstart
      cases t with
      | admin credentials path action =>
          exact ((atGuard_of_outsider hkept hi htask
            (hout' credentials path action hstart)).1 _ hc).elim
      | ingest routeConfig slug request =>
          have hadmitted := admitted_of_makes ⟨run, hi, htask, hc⟩
          rw [hchannel] at hadmitted
          exact absurd hadmitted (not_admitted_of_strangers hkept hclosed
            (hstrangers' routeConfig slug request hstart))
      | process task =>
          exact absurd hc (not_commit_of_worker hi (by simp [htask])
            (by simp [htask]) tx)
      | autoDisable endpointId autoDisableAfterMs now =>
          exact absurd hc (not_commit_of_worker hi (by simp [htask])
            (by simp [htask]) tx)

end System

/-! ## Requests to an open and to a closed Channel -/

def openDeployment : Deployment := { Deployment.empty with world := openWorld }

def closedBroadcast : BroadcastRow := ⟨5, 0, 0, "text/plain", [1], .empty⟩

/-- A closed Channel with a token and one Broadcast. -/
def closedDeployment : Deployment :=
  { Deployment.empty with
    world :=
      { db := Transaction.commit ⟨closedBroadcast, []⟩
          (insertChannelToken (.withEndpoints
            { openChannel with allowUnauthenticatedIngest := false }
            [openEndpoint]) ⟨4, 0, "orders-key"⟩).2
        jobs := fun _ => none } }

/-- A request to ingest that bears this token. -/
def bearingRequest (token : String) : IngestRequest :=
  requestWith "authorization" ("Bearer" ++ " " ++ token)

theorem bearer_bearingRequest {token : String} (hspace : ' ' ∉ token.toList)
    (hne : token ≠ "") :
    extractBearerToken ((bearingRequest token).get "authorization") =
      some token :=
  extractBearerToken_append rfl hspace hne

/-- The first steps of ingest of a request. -/
def ingestSteps (request : IngestRequest) (count : ℕ) : ApiHistory :=
  .start (.ingest openEnv.routeConfig openChannel.slug request) ::
    (List.range count).map fun k => .step 0 { toChoice := smoothly k }

/-- Ingest of an open Channel up to its commit. -/
def openlyAccepted : ApiHistory := ingestSteps chunkedRequest 8

/-- A request to an open Channel is let in without a token, and one to a closed
Channel with a token of it. -/
theorem ingest_admitted_openly_or_bearing :
    (∃ tx : Transaction, Admitted id openChannel.slug chunkedRequest
      (serviceCalls ((api id keyConfig fun _ => none).madeBy 0
        (Pool.idle openDeployment) openlyAccepted))
      tx.broadcast.channelId) ∧
    ∃ tx : Transaction, Admitted id openChannel.slug
      (bearingRequest "orders-key")
      (serviceCalls ((api id keyConfig fun _ => none).madeBy 0
        (Pool.idle closedDeployment)
        (ingestSteps (bearingRequest "orders-key") 9)))
      tx.broadcast.channelId := by
  constructor
  · obtain ⟨tx, hmakes⟩ : ∃ tx, ((api id keyConfig fun _ => none).exec
        (Pool.idle openDeployment) openlyAccepted).Makes 0
          (.ingest openEnv.routeConfig openChannel.slug chunkedRequest)
          (commitCall tx) := ⟨_, _, rfl, rfl, rfl⟩
    exact ⟨tx, (ingest_admitted id keyConfig (fun _ => none) openDeployment
      openlyAccepted 0 _ _ _ tx hmakes).1⟩
  · have hbearer : extractBearerToken
        ((bearingRequest "orders-key").get "authorization") =
          some "orders-key" := bearer_bearingRequest (by decide) (by decide)
    obtain ⟨tx, hmakes⟩ : ∃ tx, ((api id keyConfig fun _ => none).exec
        (Pool.idle closedDeployment)
          (ingestSteps (bearingRequest "orders-key") 9)).Makes 0
            (.ingest openEnv.routeConfig openChannel.slug
              (bearingRequest "orders-key")) (commitCall tx) := by
      rw [ingestSteps, System.exec_cons]
      simp only [System.apply, api, ApiTask.program, ingest, checkIngestToken,
        hbearer]
      exact ⟨_, _, rfl, rfl, rfl⟩
    exact ⟨tx, (ingest_admitted id keyConfig (fun _ => none) closedDeployment
      _ 0 _ _ _ tx hmakes).1⟩

theorem closed_channel_kept_wrongToken :
    let P := (api id keyConfig fun _ => none).exec (Pool.idle closedDeployment)
      (ingestSteps (bearingRequest "guess") 2)
    P.runs.map (fun run => run.program.result?) = [some (.ok
      ⟨.ingest (.responded (unauthorized "invalid ingest token")), none⟩)] ∧
      ∀ b ∈ P.state.world.db.broadcasts, b.channelId = 0 →
        b ∈ closedDeployment.world.db.broadcasts := by
  have hbearer : extractBearerToken
      ((bearingRequest "guess").get "authorization") = some "guess" :=
    bearer_bearingRequest (by decide) (by decide)
  intro P
  refine ⟨?_, fun b => closed_channel_kept id keyConfig (fun _ => none)
    closedDeployment 0 ?_ _ ?_ ?_ b⟩
  · simp only [P]
    rw [ingestSteps, System.exec_cons]
    simp only [System.apply, api, ApiTask.program, ingest, checkIngestToken,
      hbearer]
    rfl
  · intro c hc hid
    rw [List.mem_singleton.mp hc]
  · intro credentials path action hstart
    simp [ingestSteps] at hstart
  · intro routeConfig slug request hstart bearer h t ht _
    simp only [ingestSteps, List.mem_cons, List.mem_map, reduceCtorEq,
      and_false, exists_false, or_false, Event.start.injEq,
      ApiTask.ingest.injEq] at hstart
    rw [hstart.2.2, hbearer] at h
    cases h
    rw [List.mem_singleton.mp ht]
    decide

end WebhookBroadcast
