import WebhookBroadcast.Credentials.Guard
import WebhookBroadcast.Service.Changes

/-!
# Who can change what the guard guards

The tables that only admin requests write: operator tokens, Channels and Channel
tokens.  Somebody who holds neither the operator's key nor a token of the
deployment can make any number of requests, in any order and mixed with the
worker's runs, and leaves these tables as they are.
-/

namespace WebhookBroadcast

open Interaction Relational

/-! ## The guarded tables -/

/-- The columns of an operator token that a use of it leaves alone. -/
def OperatorTokenRow.identity (row : OperatorTokenRow) :
    Uuid × String × String × String × Instant :=
  (row.id, row.tokenHash, row.prefix_, row.label, row.createdAt)

/-- What only admin requests write. -/
structure GuardedTables where
  operatorTokens : List (Uuid × String × String × String × Instant)
  channels : Table ChannelRow Uuid ChannelRow.id
  channelTokens : Table ChannelTokenRow Uuid ChannelTokenRow.id
  channelTokenLabels : List ChannelTokenLabel

def Deployment.guarded (D : Deployment) : GuardedTables where
  operatorTokens := D.operatorTokens.table.rows.map OperatorTokenRow.identity
  channels := D.world.db.channels
  channelTokens := D.world.db.channelTokens
  channelTokenLabels := D.channelTokenLabels

theorem holds_iff_of_guarded {D E : Deployment} (h : D.guarded = E.guarded)
    (tokenHash : String) :
    D.operatorTokens.Holds tokenHash ↔ E.operatorTokens.Holds tokenHash := by
  have hiff (F : Deployment) : F.operatorTokens.Holds tokenHash ↔
      tokenHash ∈ F.guarded.operatorTokens.map fun identity => identity.2.1 := by
    rw [Deployment.guarded, List.map_map, List.mem_map]
    exact Iff.rfl
  rw [hiff, hiff, h]

/-! ### Calls beside the guard -/

/-- The Channels and their tokens are as they were. -/
def Database.SameChannels (db db' : Database) : Prop :=
  db'.channels = db.channels ∧ db'.channelTokens = db.channelTokens

theorem sameChannels_completeDelivery (db : Database)
    (input : CompleteDeliveryInput) :
    db.SameChannels (completeDelivery db input).2 := by
  unfold completeDelivery
  split
  · split <;> exact ⟨rfl, rfl⟩
  next db' hins =>
    unfold Database.insertAttempt? at hins
    split at hins
    · split at hins
      · cases hins
      · cases hins
        exact ⟨rfl, rfl⟩
    · cases hins

theorem sameChannels_perform (x : Choice) (c : Call) (w : World) :
    w.db.SameChannels (perform x c w).2.db := by
  by_cases hc : ∃ q, c = .query q
  · obtain ⟨q, rfl⟩ := hc
    rcases perform_query_db x q w with h | h
    · rw [h]
      exact ⟨rfl, rfl⟩
    · rw [h]
      cases q with
      | completeDelivery input => exact sameChannels_completeDelivery _ _
      | _ => exact ⟨rfl, rfl⟩
  · rw [perform_db_of_not_query fun q hq => hc ⟨q, hq⟩]
    exact ⟨rfl, rfl⟩

theorem Transaction.sameChannels_commit (tx : Transaction) (db : Database) :
    db.SameChannels (tx.commit db) := by
  by_cases h : tx.check db = .ok ()
  · exact ⟨(Transaction.grows_commit h).channels,
      (Transaction.grows_commit h).channelTokens⟩
  · rw [Transaction.commit_of_check_ne h]
    exact ⟨rfl, rfl⟩

theorem sameChannels_performAccept (x : Choice) (c : AcceptEffects.Call)
    (w : World) : w.db.SameChannels (performAccept x c w).2.db := by
  cases c with
  | inl c => exact sameChannels_perform x c w
  | inr c =>
      have hcases : (performAccept x (.inr c) w).2.db = w.db ∨
          ∃ q, c = .query q ∧
            (performAccept x (.inr c) w).2.db = (q.run w.db).2 :=
        performIngest_db x c w
      rcases hcases with h | ⟨q, rfl, h⟩
      · rw [h]
        exact ⟨rfl, rfl⟩
      · rw [h]
        cases q with
        | commit tx => exact tx.sameChannels_commit w.db
        | _ => exact ⟨rfl, rfl⟩

/-- The calls of ingest, replay, retry and the worker. -/
def ServiceCall : ApiEffects.Call → Prop
  | .inl _ => True
  | .inr _ => False

/-- These calls and those of the guard itself write no guarded table. -/
theorem guarded_performApi {c : ApiEffects.Call}
    (hc : ServiceCall c ∨ GuardCall c) (x : ApiChoice) (D : Deployment) :
    (performApi x c D).2.guarded = D.guarded := by
  cases c with
  | inl c =>
      obtain ⟨hchannels, htokens⟩ :=
        sameChannels_performAccept x.toChoice c D.world
      have hrun : (performApi x (.inl c) D).2 =
          { D with world := (performAccept x.toChoice c D.world).2 } := rfl
      rw [hrun, Deployment.guarded, Deployment.guarded, hchannels, htokens]
  | inr c =>
      rcases hc with hc | hc
      · exact hc.elim
      · cases c with
        | query q =>
            cases q with
            | findOperatorTokenByHash tokenHash =>
                rcases performApi_query_cases x
                    (.findOperatorTokenByHash tokenHash) D with
                  ⟨h, -⟩ | ⟨e, -, h | h⟩
                · rw [h]
                  rfl
                · rw [h]
                · rw [h]
                  rfl
            | _ => exact hc.elim
        | touchOperatorTokenLastUsed tokenId at_ => rfl
        | randomBytes => rfl

theorem identity_touchOperatorTokenLastUsed (tokens : OperatorTokens)
    (tokenId : Uuid) (at_ : Instant) :
    (touchOperatorTokenLastUsed tokens tokenId at_).table.rows.map
        OperatorTokenRow.identity =
      tokens.table.rows.map OperatorTokenRow.identity :=
  Table.map_update tokens.table _ (.touch at_) (fun _ => rfl) fun _ => rfl

theorem guarded_housekeeping (b : Housekeeping) (D : Deployment) :
    (b.run D).guarded = D.guarded := by
  cases b with
  | settleTouch n carriedOut =>
      unfold Housekeeping.run
      dsimp only
      split
      · rfl
      · cases carriedOut with
        | false => rfl
        | true =>
            simp only [Deployment.guarded, if_true,
              identity_touchOperatorTokenLastUsed]
  | sweep retentionDays now => rfl

/-! ## Runs beside the guard -/

/-- Ingest and the worker make no call of the admin routes. -/
theorem everyCall_of_not_admin {hashToken : String → String}
    {config : OperatorAuthConfig} {dateParse : String → Option Instant}
    {t : ApiTask} (ht : ∀ credentials path action,
      t ≠ .admin credentials path action) :
    (t.program hashToken config dateParse).EveryCall fun c _ =>
      ServiceCall c := by
  have hinl {α : Type} (p : AcceptAction α) (f : α → Handled) :
      (p.inl (T := AdminEffects) >>= fun a => Program.done (f a)).EveryCall
        fun c _ => ServiceCall c := by
    induction p with
    | done a => trivial
    | fail e => trivial
    | call c k ih => exact ⟨trivial, ih⟩
  cases t with
  | admin credentials path action => exact absurd rfl (ht _ _ _)
  | ingest config slug request => exact hinl _ _
  | process task => exact hinl _ fun _ => _
  | autoDisable endpointId autoDisableAfterMs now => exact hinl _ _

section System

variable {hashToken : String → String} {config : OperatorAuthConfig}
  {dateParse : String → Option Instant}

/-- The next call of a run is a call of the service, or its task is an admin
request. -/
theorem serviceCall_of_not_admin {D : Deployment} {history : ApiHistory} {i : ℕ}
    {run : Run ApiEffects Thrown Handled ApiTask}
    (hrun : ((api hashToken config dateParse).exec (Pool.idle D)
      history).runs[i]? = some run)
    (htask : ∀ credentials path action,
      run.task ≠ .admin credentials path action)
    {c : ApiEffects.Call} (hc : run.program.next? = some c) :
    ServiceCall c := by
  have hruns := (api hashToken config dateParse).exec_forall_runs
    (motive := fun t p => (∀ credentials path action,
      t ≠ .admin credentials path action) →
        p.EveryCall fun c _ => ServiceCall c)
    (fun t ht => everyCall_of_not_admin ht)
    (fun t p x D hp ht => (hp ht).advance _ x D)
    (P := Pool.idle D) (fun run hrun => absurd hrun List.not_mem_nil) history
  have hcalls := hruns run (List.mem_of_getElem? hrun) htask
  cases hp : run.program with
  | done a =>
      rw [hp] at hc
      cases hc
  | fail e =>
      rw [hp] at hc
      cases hc
  | call c' k =>
      rw [hp] at hc hcalls
      cases hc
      exact hcalls.1

/-! ## Outsiders -/

/-- Credentials that are neither the operator's key nor the text of one of these
tokens. -/
structure Outsider (hashToken : String → String) (config : OperatorAuthConfig)
    (tokens : OperatorTokens) (credentials : OperatorCredentials) : Prop where
  bearer : ∀ bearer, credentials.bearer? = some bearer →
    bearer ≠ config.operatorApiKey ∧ ¬ tokens.Holds (hashToken bearer)
  cookie : credentials.bearer? = none →
    credentials.cookies config.cookieName ≠ some config.operatorApiKey

/-- Only lookups that find tokens authorize an outsider. -/
theorem Outsider.not_authorized {tokens : OperatorTokens}
    {credentials : OperatorCredentials}
    (h : Outsider hashToken config tokens credentials)
    {trace : List (Made ApiEffects ApiChoice Deployment)}
    (hfound : ∀ m ∈ trace, ∀ tokenHash,
      m.found.operatorTokens.Holds tokenHash → tokens.Holds tokenHash)
    (label : String) :
    ¬ Authorized hashToken config credentials trace label := by
  intro hauthorized
  cases hauthorized with
  | bearerKey hbearer => exact (h.bearer _ hbearer).1 rfl
  | cookieKey hbearer hcookie => exact h.cookie hbearer hcookie
  | operatorToken hbearer hm hcall hrow hhash =>
      exact (h.bearer _ hbearer).2 (hfound _ hm _ ⟨_, hrow, hhash⟩)

variable {D : Deployment} {history : ApiHistory}

/-- Every admin request of the history comes from an outsider. -/
def OnlyOutsiders (hashToken : String → String) (config : OperatorAuthConfig)
    (tokens : OperatorTokens) (history : ApiHistory) : Prop :=
  ∀ credentials path action,
    .start (.admin credentials path action) ∈ history →
      Outsider hashToken config tokens credentials

/-- If the guarded tables have been the same so far, an outsider's run is still
at the guard. -/
theorem atGuard_of_outsider
    (hkept : ∀ first, first <+: history →
      ((api hashToken config dateParse).exec (Pool.idle D)
        first).state.guarded = D.guarded)
    {i : ℕ} {run : Run ApiEffects Thrown Handled ApiTask}
    (hrun : ((api hashToken config dateParse).exec (Pool.idle D)
      history).runs[i]? = some run)
    {credentials : OperatorCredentials} {path : String} {action : AdminAction}
    (htask : run.task = .admin credentials path action)
    (hout : Outsider hashToken config D.operatorTokens credentials) :
    AtGuard run.program := by
  rcases admin_run_cases (P := Pool.idle D) List.getElem?_nil hrun htask with
    hguard | ⟨calls, label, rest, hcalls, hauthorized, -⟩
  · exact hguard
  · refine absurd hauthorized (hout.not_authorized ?_ label)
    intro m hm tokenHash hholds
    have hmade : m ∈ (api hashToken config dateParse).madeBy i (Pool.idle D)
        history := by
      rw [hcalls]
      exact List.mem_append_left _ hm
    obtain ⟨before, after, t, rfl, -, hfound⟩ :=
      (api hashToken config dateParse).makes_of_mem_madeBy hmade
    rw [hfound] at hholds
    exact (holds_iff_of_guarded (hkept before (List.prefix_append _ _))
      tokenHash).mp hholds

/-- If the guarded tables have been the same so far, every call is one of the
service or of the guard. -/
theorem call_of_onlyOutsiders
    (hkept : ∀ first, first <+: history →
      ((api hashToken config dateParse).exec (Pool.idle D)
        first).state.guarded = D.guarded)
    (hout : OnlyOutsiders hashToken config D.operatorTokens history)
    {i : ℕ} {t : ApiTask} {c : ApiEffects.Call}
    (hmakes : ((api hashToken config dateParse).exec (Pool.idle D)
      history).Makes i t c) : ServiceCall c ∨ GuardCall c := by
  obtain ⟨run, hi, rfl, hc⟩ := hmakes
  by_cases hadmin : ∃ credentials path action,
      run.task = .admin credentials path action
  · obtain ⟨credentials, path, action, htask⟩ := hadmin
    have hstart := System.start_mem_of_run (api hashToken config dateParse)
      List.getElem?_nil hi
    rw [htask] at hstart
    exact Or.inr ((atGuard_of_outsider hkept hi htask
      (hout credentials path action hstart)).1 c hc)
  · exact Or.inl (serviceCall_of_not_admin hi
      (fun credentials path action htask =>
        hadmin ⟨credentials, path, action, htask⟩) hc)

variable (dateParse) in
/-- The guarded tables are the same at every moment of a history in which only
outsiders make admin requests. -/
theorem guarded_of_onlyOutsiders
    (hout : OnlyOutsiders hashToken config D.operatorTokens history) :
    ∀ first, first <+: history →
      ((api hashToken config dateParse).exec (Pool.idle D)
        first).state.guarded = D.guarded := by
  induction history using List.reverseRecOn with
  | nil =>
      intro first hfirst
      rw [List.prefix_nil.mp hfirst]
      rfl
  | append_singleton history e ih =>
      have hout' : OnlyOutsiders hashToken config D.operatorTokens history :=
        fun credentials path action hstart =>
          hout credentials path action (List.mem_append_left _ hstart)
      have hkept := ih hout'
      intro first hfirst
      rcases List.prefix_concat_iff.mp hfirst with rfl | hfirst
      · have hhistory := hkept history (List.prefix_refl history)
        rw [System.exec_concat]
        cases e with
        | start t => exact hhistory
        | background b => exact (guarded_housekeeping b _).trans hhistory
        | step i x =>
            rcases api_step_cases hashToken config dateParse i x with
              h | ⟨t, c, hmakes, h⟩
            · rw [h]
              exact hhistory
            · rw [h]
              exact (guarded_performApi (call_of_onlyOutsiders hkept hout'
                hmakes) x _).trans hhistory
      · exact hkept first hfirst

/-- Whoever holds neither the key nor a token of the deployment gets nowhere, in
any number of requests: no handler makes a call, every request that does not throw
is refused, and no token, Channel or Channel token comes, goes or changes. -/
theorem outsiders_change_nothing (hashToken : String → String)
    (config : OperatorAuthConfig) (dateParse : String → Option Instant)
    (D : Deployment) (history : ApiHistory)
    (hout : OnlyOutsiders hashToken config D.operatorTokens history) :
    ((api hashToken config dateParse).exec (Pool.idle D)
      history).state.guarded = D.guarded ∧
    ∀ (i : ℕ) (run : Run ApiEffects Thrown Handled ApiTask),
      ((api hashToken config dateParse).exec (Pool.idle D)
        history).runs[i]? = some run →
      ∀ credentials path action,
        run.task = .admin credentials path action →
          (∀ c, run.program.next? = some c → GuardCall c) ∧
          ∀ handled, run.program.result? = some (.ok handled) →
            handled = turnedAway := by
  have hkept := guarded_of_onlyOutsiders dateParse hout
  refine ⟨hkept history (List.prefix_refl history), ?_⟩
  intro i run hrun credentials path action htask
  have hstart := System.start_mem_of_run (api hashToken config dateParse)
    List.getElem?_nil hrun
  rw [htask] at hstart
  exact atGuard_of_outsider hkept hrun htask
    (hout credentials path action hstart)

end System

/-! ## A token that is guessed -/

/-- A request that bears this text. -/
def bearing (text : String) : OperatorCredentials where
  authorization := some ("Bearer" ++ " " ++ text)

theorem bearer?_bearing (text : String) (hspace : ' ' ∉ text.toList)
    (hne : text ≠ "") : (bearing text).bearer? = some text :=
  extractBearerToken_append rfl hspace hne

/-- The token "spare". -/
def spareToken : OperatorTokenRow where
  id := 7
  tokenHash := "spare"
  prefix_ := "spare"
  label := "laptop"
  createdAt := 0

def spareDeployment : Deployment :=
  { Deployment.empty with
    operatorTokens := ⟨⟨[spareToken], List.nodup_singleton _⟩,
      List.nodup_singleton _⟩ }

/-- A request to mint an operator token with a token that nobody has. -/
def guessersMint : ApiHistory :=
  [.start (.admin (bearing "guess") "/operator-tokens"
      (.mintOperatorToken (some (.object [("label", .string "mine")])))),
    .step 0 {}]

theorem bearer?_bearing_guess : (bearing "guess").bearer? = some "guess" :=
  bearer?_bearing _ (by decide) (by decide)

theorem onlyOutsiders_guessersMint :
    OnlyOutsiders id keyConfig spareDeployment.operatorTokens guessersMint := by
  intro credentials path action hstart
  rcases List.mem_cons.mp hstart with h | h
  · cases h
    refine ⟨fun bearer h => ?_, fun h => ?_⟩
    · cases bearer?_bearing_guess.symm.trans h
      refine ⟨by decide, ?_⟩
      rintro ⟨row, hrow, hhash⟩
      rw [List.mem_singleton.mp hrow] at hhash
      exact absurd hhash (by decide)
    · cases bearer?_bearing_guess.symm.trans h
  · cases List.mem_singleton.mp h

theorem outsiders_change_nothing_guessed :
    let P := (api id keyConfig fun _ => none).exec (Pool.idle spareDeployment)
      guessersMint
    P.state.guarded = spareDeployment.guarded ∧
      ∃ run handled, P.runs[0]? = some run ∧
        run.program.result? = some (.ok handled) ∧ handled = turnedAway := by
  obtain ⟨hsame, hrefused⟩ := outsiders_change_nothing id keyConfig
    (fun _ => none) spareDeployment guessersMint onlyOutsiders_guessersMint
  obtain ⟨run, hrun, htask, hresult⟩ := refused_of_unknown id keyConfig
    (fun _ => none) (Pool.idle spareDeployment) "/operator-tokens"
    (.mintOperatorToken (some (.object [("label", .string "mine")])))
    bearer?_bearing_guess (by decide) rfl
  exact ⟨hsame, run, _, hrun, hresult,
    (hrefused 0 run hrun _ _ _ htask).2 _ hresult⟩

end WebhookBroadcast
