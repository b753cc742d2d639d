import WebhookBroadcast.Credentials.Trust

/-!
# Revocation

From the moment at which the deletion of an operator token is carried out, no
request that starts later gets past the guard with its text, whatever else is
going on and however often the token was used before.
-/

namespace WebhookBroadcast

open Interaction Relational

variable {hashToken : String → String} {config : OperatorAuthConfig}
  {dateParse : String → Option Instant} {tokenHash : String}

/-! ## Hashes in the table -/

theorem operatorTokens_insertChannelToken (D : Deployment)
    (input : ChannelTokenRow) (label : ChannelTokenLabel) :
    (D.insertChannelToken input label).2.operatorTokens = D.operatorTokens := by
  unfold Deployment.insertChannelToken
  dsimp only
  split <;> rfl

/-- A statement brings a hash into the table only as that of an inserted
token. -/
theorem holds_run {q : AdminQuery} {D : Deployment}
    (h : (q.run D).2.operatorTokens.Holds tokenHash) :
    D.operatorTokens.Holds tokenHash ∨
      ∃ input, q = .insertOperatorToken input ∧
        input.tokenHash = tokenHash := by
  cases q with
  | insertOperatorToken input =>
      obtain ⟨row, hrow, hhash⟩ := h
      rcases mem_of_insertOperatorToken hrow with hrow | rfl
      · exact Or.inl ⟨row, hrow, hhash⟩
      · exact Or.inr ⟨row, rfl, hhash⟩
  | revokeOperatorToken tokenId =>
      obtain ⟨row, hrow, hhash⟩ := h
      exact Or.inl ⟨row, (mem_revokeOperatorToken.mp hrow).1, hhash⟩
  | insertChannelToken input label =>
      left
      have hrun : ((AdminQuery.insertChannelToken input label).run D).2 =
          (D.insertChannelToken input label).2 := rfl
      rwa [hrun, operatorTokens_insertChannelToken] at h
  | _ => exact Or.inl h

theorem holds_performApi {x : ApiChoice} {c : ApiEffects.Call} {D : Deployment}
    (h : (performApi x c D).2.operatorTokens.Holds tokenHash) :
    D.operatorTokens.Holds tokenHash ∨
      ∃ input, c = .inr (.query (.insertOperatorToken input)) ∧
        input.tokenHash = tokenHash := by
  cases c with
  | inl c => exact Or.inl h
  | inr c =>
      cases c with
      | query q =>
          have hrun : D.operatorTokens.Holds tokenHash ∨
              (q.run D).2.operatorTokens.Holds tokenHash := by
            rcases performApi_query_cases x q D with
              ⟨hq, -⟩ | ⟨e, -, hq | hq⟩
            · rw [hq] at h
              exact Or.inr h
            · rw [hq] at h
              exact Or.inl h
            · rw [hq] at h
              exact Or.inr h
          rcases hrun with hrun | hrun
          · exact Or.inl hrun
          · rcases holds_run hrun with hrun | ⟨input, rfl, hhash⟩
            · exact Or.inl hrun
            · exact Or.inr ⟨input, rfl, hhash⟩
      | touchOperatorTokenLastUsed tokenId at_ => exact Or.inl h
      | randomBytes => exact Or.inl h

/-- The row of a revoked token was the only one with its hash. -/
theorem not_holds_revokeOperatorToken {tokens : OperatorTokens}
    {row : OperatorTokenRow} (hrow : row ∈ tokens) :
    ¬ (revokeOperatorToken tokens row.id).2.Holds row.tokenHash := by
  rintro ⟨other, hother, hhash⟩
  obtain ⟨hother, hid⟩ := mem_revokeOperatorToken.mp hother
  have hsame : other = row :=
    List.inj_on_of_nodup_map tokens.token_hash hother hrow hhash
  exact hid (congrArg OperatorTokenRow.id hsame)

/-! ## After the revocation -/

/-- The event does not insert a token with this hash. -/
def NoInsert (tokenHash : String) (P : ApiPool) (e : ApiEvent) : Prop :=
  ∀ i x t input, e = .step i x →
    P.Makes i t (.inr (.query (.insertOperatorToken input))) →
      input.tokenHash ≠ tokenHash

theorem not_holds_apply {P : ApiPool} {e : ApiEvent}
    (h : ¬ P.state.operatorTokens.Holds tokenHash)
    (he : NoInsert tokenHash P e) :
    ¬ ((api hashToken config dateParse).apply P
      e).state.operatorTokens.Holds tokenHash := by
  intro hholds
  apply h
  cases e with
  | start t => exact hholds
  | background b =>
      exact (holds_iff_of_guarded (guarded_housekeeping b P.state)
        tokenHash).mp hholds
  | step i x =>
      rcases api_step_cases hashToken config dateParse i x with
        hsame | ⟨t, c, hmakes, hstate⟩
      · rwa [hsame] at hholds
      · rw [hstate] at hholds
        rcases holds_performApi hholds with hholds | ⟨input, rfl, hhash⟩
        · exact hholds
        · exact absurd hhash (he i x t input rfl hmakes)

/-- A hash that is not in the table and is not inserted stays out of it. -/
theorem not_holds_exec {events : List ApiEvent} : ∀ {P : ApiPool},
    ¬ P.state.operatorTokens.Holds tokenHash →
      (api hashToken config dateParse).Throughout (NoInsert tokenHash) P
        events →
      ∀ first, first <+: events →
        ¬ ((api hashToken config dateParse).exec P
          first).state.operatorTokens.Holds tokenHash := by
  induction events with
  | nil =>
      intro P h _ first hfirst
      rw [List.prefix_nil.mp hfirst]
      exact h
  | cons e events ih =>
      intro P h hthroughout first hfirst
      cases first with
      | nil => exact h
      | cons e' first =>
          obtain ⟨rfl, hrest⟩ := List.cons_prefix_cons.mp hfirst
          exact ih (not_holds_apply h hthroughout.1) hthroughout.2 first hrest

/-- In this pool, the step is the deletion of this token, and it is carried
out. -/
structure Revokes (P : ApiPool) (i : ℕ) (x : ApiChoice)
    (row : OperatorTokenRow) : Prop where
  makes : ∃ t, P.Makes i t (.inr (.query (.revokeOperatorToken row.id)))
  carriesOut : x.carriesOut = true
  row_mem : row ∈ P.state.operatorTokens

theorem performApi_query_of_carriesOut {x : ApiChoice}
    (hx : x.carriesOut = true) (q : AdminQuery) (D : Deployment) :
    (performApi x (.inr (.query q)) D).2 = (q.run D).2 := by
  unfold Choice.carriesOut at hx
  cases hfault : x.fault with
  | none => exact congrArg Prod.snd (performAdmin_query_of_none hfault q D)
  | some fault =>
      rw [hfault] at hx
      have hrun := congrArg Prod.snd (performAdmin_query_of_some hfault q D)
      rw [if_pos (by simpa using hx)] at hrun
      exact hrun

variable (hashToken config dateParse) in
theorem Revokes.not_holds {P : ApiPool} {i : ℕ} {x : ApiChoice}
    {row : OperatorTokenRow} (h : Revokes P i x row) :
    ¬ ((api hashToken config dateParse).apply P
      (.step i x)).state.operatorTokens.Holds row.tokenHash := by
  obtain ⟨t, hmakes⟩ := h.makes
  rw [System.state_apply_step _ hmakes]
  change ¬ (performApi x (.inr (.query (.revokeOperatorToken row.id)))
    P.state).2.operatorTokens.Holds row.tokenHash
  rw [performApi_query_of_carriesOut h.carriesOut]
  exact not_holds_revokeOperatorToken h.row_mem

/-- A revoked token lets nobody in: a request that starts after the deletion and
presents its text makes no call of a handler and is refused unless it throws, as
long as no token with the same hash is inserted again. -/
theorem revoked_token_refused (hashToken : String → String)
    (config : OperatorAuthConfig) (dateParse : String → Option Instant)
    (D : Deployment) (before after : ApiHistory) (i : ℕ) (x : ApiChoice)
    (row : OperatorTokenRow)
    (hrevokes : Revokes ((api hashToken config dateParse).exec (Pool.idle D)
      before) i x row)
    (hinsert : (api hashToken config dateParse).Throughout
      (NoInsert row.tokenHash)
      ((api hashToken config dateParse).exec (Pool.idle D)
        (before ++ [.step i x])) after)
    (j : ℕ) (hlater : ((api hashToken config dateParse).exec (Pool.idle D)
      (before ++ [.step i x])).runs[j]? = none)
    (run : Run ApiEffects Thrown Handled ApiTask)
    (hrun : ((api hashToken config dateParse).exec (Pool.idle D)
      (before ++ [.step i x] ++ after)).runs[j]? = some run)
    (credentials : OperatorCredentials) (path : String) (action : AdminAction)
    (htask : run.task = .admin credentials path action) (bearer : String)
    (hbearer : credentials.bearer? = some bearer)
    (hhash : hashToken bearer = row.tokenHash)
    (hkey : bearer ≠ config.operatorApiKey) :
    (∀ c, run.program.next? = some c → GuardCall c) ∧
      ∀ handled, run.program.result? = some (.ok handled) →
        handled = turnedAway := by
  rw [System.exec_append] at hrun
  have hgone := hrevokes.not_holds hashToken config dateParse
  rw [← System.exec_concat] at hgone
  rcases admin_run_cases hlater hrun htask with
    hguard | ⟨calls, label, rest, hcalls, hauthorized, -⟩
  · exact hguard
  · exfalso
    cases hauthorized with
    | bearerKey h =>
        rw [hbearer] at h
        exact hkey (Option.some.inj h)
    | cookieKey h _ =>
        rw [hbearer] at h
        cases h
    | operatorToken h hm _ hrow hsame =>
        rw [hbearer] at h
        cases h
        have hmade := List.mem_append_left rest hm
        rw [← hcalls] at hmade
        obtain ⟨first, last, t, rfl, -, hfound⟩ :=
          (api hashToken config dateParse).makes_of_mem_madeBy hmade
        rw [hfound] at hrow
        exact not_holds_exec hgone hinsert first (List.prefix_append _ _)
          ⟨_, hrow, hsame.trans hhash⟩

/-! ## A token that is used once more -/

/-- A session that revokes the token "spare". -/
def spareRevoked : ApiHistory :=
  [.start (.admin keyCookie "/operator-tokens/7" (.revokeOperatorToken 7))]

theorem revokes_spareToken : Revokes
    ((api id keyConfig fun _ => none).exec (Pool.idle spareDeployment)
      spareRevoked) 0 {} spareToken := by
  refine ⟨⟨_, _, rfl, rfl, ?_⟩, rfl, List.mem_singleton.mpr rfl⟩
  exact (congrArg Program.next? (program_keyCookie id
    (fun _ => none) _ _)).trans rfl

theorem noInsert_start (tokenHash : String) (P : ApiPool) (t : ApiTask) :
    NoInsert tokenHash P (.start t) := by
  intro i x t input h
  cases h

/-- A run that looks a token up does not insert one. -/
theorem noInsert_lookup {tokenHash looked : String} {P : ApiPool} {i : ℕ}
    {x : ApiChoice} {run : Run ApiEffects Thrown Handled ApiTask}
    (hrun : P.runs[i]? = some run) (hnext : run.program.next? =
      some (.inr (.query (.findOperatorTokenByHash looked)))) :
    NoInsert tokenHash P (.step i x) := by
  rintro _ _ t input ⟨⟩ ⟨other, hother, -, hinsert⟩
  cases hrun.symm.trans hother
  cases hnext.symm.trans hinsert

theorem bearer?_bearing_spare : (bearing "spare").bearer? = some "spare" :=
  bearer?_bearing _ (by decide) (by decide)

theorem next?_bearing_spare (path : String) (action : AdminAction) :
    (ApiTask.program id keyConfig (fun _ => none)
      (.admin (bearing "spare") path action)).next? =
        some (.inr (.query (.findOperatorTokenByHash "spare"))) := by
  have hkey : safeEqual "spare" keyConfig.operatorApiKey ≠ true :=
    fun h => absurd (safeEqual_iff.mp h) (by decide)
  simp only [ApiTask.program, operatorAuth, bearer?_bearing_spare,
    if_neg hkey]
  rfl

theorem revoked_token_refused_spare :
    let P := (api id keyConfig fun _ => none).exec (Pool.idle spareDeployment)
      (spareRevoked ++ [.step 0 {}] ++
        [.start (.admin (bearing "spare") "/auth/session" .session), .step 1 {}])
    ∃ run handled, P.runs[1]? = some run ∧
      run.program.result? = some (.ok handled) ∧ handled = turnedAway := by
  intro P
  have hgone := revokes_spareToken.not_holds id keyConfig fun _ => none
  rw [← System.exec_concat] at hgone
  obtain ⟨run, hrun, htask, hresult⟩ := refused_of_unknown id keyConfig
    (fun _ => none) _ "/auth/session" .session bearer?_bearing_spare (by decide)
    (findOperatorTokenByHash_eq_none.mpr hgone)
  have hrun : P.runs[1]? = some run := by
    rw [← System.exec_append] at hrun
    exact hrun
  have hinsert : (api id keyConfig fun _ => none).Throughout
      (NoInsert spareToken.tokenHash)
      ((api id keyConfig fun _ => none).exec (Pool.idle spareDeployment)
        (spareRevoked ++ [.step 0 {}]))
      [.start (.admin (bearing "spare") "/auth/session" .session),
        .step 1 {}] :=
    ⟨noInsert_start _ _ _, noInsert_lookup rfl (next?_bearing_spare _ _),
      trivial⟩
  exact ⟨run, turnedAway, hrun, hresult, (revoked_token_refused id keyConfig
    (fun _ => none) spareDeployment spareRevoked _ 0 {} spareToken
    revokes_spareToken hinsert 1 rfl run hrun (bearing "spare") "/auth/session"
    .session htask "spare" bearer?_bearing_spare rfl (by decide)).2 _ hresult⟩

end WebhookBroadcast
