import WebhookBroadcast.Credentials.Deployment

/-!
# The guard

What a run of an admin request does before its credentials are found good, and
how the calls that it has made show that they are.
-/

namespace WebhookBroadcast

open Interaction

theorem safeEqual_iff {a b : String} : safeEqual a b = true ↔ a = b := by
  unfold safeEqual
  dsimp only
  split
  next hsize =>
    refine ⟨fun h => (Bool.false_ne_true h).elim, ?_⟩
    rintro rfl
    exact absurd rfl hsize
  next => rw [decide_eq_true_iff, String.toUTF8, String.toUTF8,
    String.toByteArray_inj]

/-! ## Good credentials -/

/-- The calls of the guard itself. -/
def GuardCall : ApiEffects.Call → Prop
  | .inr (.query (.findOperatorTokenByHash _)) => True
  | .inr (.touchOperatorTokenLastUsed _ _) => True
  | .inl (.inl .now) => True
  | _ => False

/-- The credentials are good for this label, as the calls show that the run has
made: they are the operator's key, as a bearer token or, without one, as the
cookie; or a lookup of the run has found an operator token with the hash of the
bearer token. -/
inductive Authorized (hashToken : String → String) (config : OperatorAuthConfig)
    (credentials : OperatorCredentials)
    (trace : List (Made ApiEffects ApiChoice Deployment)) : String → Prop
  | bearerKey (hbearer : credentials.bearer? = some config.operatorApiKey) :
      Authorized hashToken config credentials trace "bootstrap"
  | cookieKey (hbearer : credentials.bearer? = none)
      (hcookie : credentials.cookies config.cookieName =
        some config.operatorApiKey) :
      Authorized hashToken config credentials trace "bootstrap"
  | operatorToken {bearer : String}
      (hbearer : credentials.bearer? = some bearer)
      {m : Made ApiEffects ApiChoice Deployment} (hm : m ∈ trace)
      (hcall : m.call =
        .inr (.query (.findOperatorTokenByHash (hashToken bearer))))
      {row : OperatorTokenRow} (hrow : row ∈ m.found.operatorTokens)
      (hhash : row.tokenHash = hashToken bearer) :
      Authorized hashToken config credentials trace row.label

section Guard

variable {hashToken : String → String} {config : OperatorAuthConfig}
  {credentials : OperatorCredentials}
  {trace : List (Made ApiEffects ApiChoice Deployment)}

theorem Authorized.append {label : String}
    (h : Authorized hashToken config credentials trace label)
    (rest : List (Made ApiEffects ApiChoice Deployment)) :
    Authorized hashToken config credentials (trace ++ rest) label := by
  cases h with
  | bearerKey hbearer => exact .bearerKey hbearer
  | cookieKey hbearer hcookie => exact .cookieKey hbearer hcookie
  | operatorToken hbearer hm hcall hrow hhash =>
      exact .operatorToken hbearer (List.mem_append_left _ hm) hcall hrow hhash

/-- The reply of the guard to bad credentials. -/
def turnedAway : Handled := ⟨.refused missingOperatorCredentials, none⟩

/-- What is left of a run that the guard has not let pass: a call of the guard
comes next, or the run has ended without a handler. -/
def AtGuard (q : ApiAction Handled) : Prop :=
  (∀ c, q.next? = some c → GuardCall c) ∧
    ∀ handled, q.result? = some (.ok handled) → handled = turnedAway

theorem atGuard_turnedAway : AtGuard (Program.done turnedAway) := by
  refine ⟨fun c hc => ?_, fun handled h => ?_⟩
  · cases hc
  · cases h
    rfl

theorem atGuard_fail (e : Thrown) : AtGuard (Program.fail e) := by
  refine ⟨fun c hc => ?_, fun handled h => ?_⟩
  · cases hc
  · cases h

theorem atGuard_call {c : ApiEffects.Call}
    {k : ApiEffects.Answer c → ApiAction Handled} (hc : GuardCall c) :
    AtGuard (Program.call c k) := by
  refine ⟨fun c' hc' => ?_, fun handled h => ?_⟩
  · cases hc'
    exact hc
  · cases h

/-- A run is at the guard, or its credentials were found good and it is in its
handler. -/
theorem leads_operatorAuth {next : String → ApiAction Handled}
    {q : ApiAction Handled}
    (hlead : (operatorAuth hashToken config credentials next).Leads performApi
      trace q) :
    AtGuard q ∨ ∃ calls label rest, trace = calls ++ rest ∧
      Authorized hashToken config credentials calls label ∧
      (next label).Leads performApi rest q := by
  unfold operatorAuth at hlead
  split at hlead
  next bearer hbearer =>
    split at hlead
    next hkey =>
      rw [safeEqual_iff] at hkey
      subst hkey
      exact Or.inr ⟨[], _, trace, rfl, .bearerKey hbearer, hlead⟩
    next hkey =>
      cases hlead with
      | nil _ => exact Or.inl (atGuard_call trivial)
      | @cons _ _ x D rest q hrest =>
          rcases performApi_query_cases x
              (.findOperatorTokenByHash (hashToken bearer)) D with
            ⟨hrun, -⟩ | ⟨e, herror, -⟩
          · rw [hrun] at hrest
            cases hfind : findOperatorTokenByHash D.operatorTokens
                (hashToken bearer) with
            | none =>
                simp only [AdminQuery.run, hfind] at hrest
                cases hrest
                exact Or.inl atGuard_turnedAway
            | some row =>
                simp only [AdminQuery.run, hfind] at hrest
                obtain ⟨hrow, hhash⟩ := findOperatorTokenByHash_eq_some hfind
                -- the clock is read and the touch sent before the handler
                cases hrest with
                | nil _ => exact Or.inl (atGuard_call trivial)
                | cons y E hrest =>
                    cases hrest with
                    | nil _ => exact Or.inl (atGuard_call trivial)
                    | @cons _ _ z F rest q hrest =>
                        refine Or.inr ⟨[_, _, _], row.label, rest, rfl, ?_,
                          hrest⟩
                        exact .operatorToken hbearer List.mem_cons_self rfl
                          hrow hhash
          · rw [herror] at hrest
            cases hrest
            exact Or.inl (atGuard_fail _)
  next hbearer =>
    split at hlead
    next cookie hcookie =>
      split at hlead
      next hkey =>
        rw [safeEqual_iff] at hkey
        subst hkey
        exact Or.inr ⟨[], _, trace, rfl, .cookieKey hbearer hcookie, hlead⟩
      next hkey =>
        cases hlead
        exact Or.inl atGuard_turnedAway
    next hcookie =>
      cases hlead
      exact Or.inl atGuard_turnedAway

/-- A handler that has ended has logged its request under its label. -/
theorem leads_logged {path label : String} {action : AdminAction}
    {q : ApiAction Handled}
    (hlead : (logged hashToken path action label).Leads performApi trace q)
    {handled : Handled} (hresult : q.result? = some (.ok handled)) :
    handled.log =
      if action.method ≠ "GET" ∧ action.method ≠ "HEAD" then
        some ⟨action.method, path, label⟩
      else none := by
  rcases hlead.of_bind with
    ⟨first, -, rfl⟩ | ⟨calls, reply, rest, -, -, hrest⟩
  · obtain ⟨reply, -, hdone⟩ := Program.result?_bind first hresult
    cases hdone
    rfl
  · cases hrest
    cases hresult
    rfl

end Guard

/-! ## Every run of every history -/

section System

variable {hashToken : String → String} {config : OperatorAuthConfig}
  {dateParse : String → Option Instant} {P : ApiPool} {history : ApiHistory}
  {i : ℕ} {run : Run ApiEffects Thrown Handled ApiTask}
  {credentials : OperatorCredentials} {path : String} {action : AdminAction}

/-- A run of an admin request is at the guard, or in its handler and
authorized. -/
theorem admin_run_cases (hnone : P.runs[i]? = none)
    (hrun : ((api hashToken config dateParse).exec P history).runs[i]? =
      some run) (htask : run.task = .admin credentials path action) :
    AtGuard run.program ∨ ∃ calls label rest,
      (api hashToken config dateParse).madeBy i P history = calls ++ rest ∧
      Authorized hashToken config credentials calls label ∧
      (logged hashToken path action label).Leads performApi rest
        run.program := by
  have hlead := (api hashToken config dateParse).leads_madeBy_of_none hnone hrun
  rw [htask] at hlead
  exact leads_operatorAuth hlead

/-- A statement that is not rejected hands its result on. -/
theorem advance_adminQuery {q : AdminQuery} {f : q.Result → ApiAction Handled}
    {D : Deployment} {result : q.Result} (h : (q.run D).1 = .ok result) :
    ((adminQuery q >>= f).advance performApi {} D).1 = f result := by
  change Program.bind (match (q.run D).1 with
    | .ok result => Program.done result
    | .error e => Program.fail (.database e)) f = f result
  rw [h]
  rfl

variable (hashToken config dateParse P path action) in
/-- A bearer token that no row has the hash of is refused after its lookup. -/
theorem refused_of_unknown {bearer : String}
    (hbearer : credentials.bearer? = some bearer)
    (hkey : bearer ≠ config.operatorApiKey)
    (hunknown : findOperatorTokenByHash P.state.operatorTokens
      (hashToken bearer) = none) :
    ∃ run, ((api hashToken config dateParse).exec P
        [.start (.admin credentials path action),
          .step P.runs.length {}]).runs[P.runs.length]? = some run ∧
      run.task = .admin credentials path action ∧
      run.program.result? = some (.ok turnedAway) := by
  have hkey : ¬ safeEqual bearer config.operatorApiKey = true :=
    fun h => hkey (safeEqual_iff.mp h)
  have hstart : ((api hashToken config dateParse).apply P
      (.start (.admin credentials path action))).runs[P.runs.length]? =
        some ⟨.admin credentials path action, operatorAuth hashToken config
          credentials (logged hashToken path action)⟩ :=
    List.getElem?_concat_length
  have hprogram : ((operatorAuth hashToken config credentials
      (logged hashToken path action)).advance performApi {} P.state).1 =
        Program.done turnedAway := by
    have hlookup : ((AdminQuery.findOperatorTokenByHash
        (hashToken bearer)).run P.state).1 = .ok none :=
      congrArg Except.ok hunknown
    simp only [operatorAuth, hbearer, if_neg hkey]
    rw [advance_adminQuery hlookup]
    rfl
  rw [System.exec_cons, System.exec_cons, System.exec_nil,
    System.apply_step_some _ _ hstart]
  refine ⟨_, List.getElem?_set_self (by simp [System.apply]), rfl, ?_⟩
  exact congrArg Program.result? hprogram

/-- In every interleaving, an admin request reaches its handler only after its
credentials were found good, and what it answers and changes is logged under the
label of the credential that it was let in for.  A run that throws has no reply
here: the error handler of `app.ts` answers it 500, and no route logs it, also if
its statement was carried out. -/
theorem admin_authorized (hashToken : String → String)
    (config : OperatorAuthConfig) (dateParse : String → Option Instant)
    (D : Deployment) (history : ApiHistory) (i : ℕ)
    (run : Run ApiEffects Thrown Handled ApiTask)
    (hrun : ((api hashToken config dateParse).exec (Pool.idle D)
      history).runs[i]? = some run)
    (credentials : OperatorCredentials) (path : String) (action : AdminAction)
    (htask : run.task = .admin credentials path action) :
    (∀ c, run.program.next? = some c → ¬ GuardCall c → ∃ label,
      Authorized hashToken config credentials
        ((api hashToken config dateParse).madeBy i (Pool.idle D) history)
        label) ∧
    ∀ handled, run.program.result? = some (.ok handled) →
      handled = turnedAway ∨ ∃ label,
        Authorized hashToken config credentials
          ((api hashToken config dateParse).madeBy i (Pool.idle D) history)
          label ∧
        handled.log =
          if action.method ≠ "GET" ∧ action.method ≠ "HEAD" then
            some ⟨action.method, path, label⟩
          else none := by
  rcases admin_run_cases (P := Pool.idle D) List.getElem?_nil hrun htask with
    hguard | ⟨calls, label, rest, hcalls, hauthorized, hlead⟩
  · exact ⟨fun c hc hother => absurd (hguard.1 c hc) hother,
      fun handled h => Or.inl (hguard.2 handled h)⟩
  · rw [hcalls]
    exact ⟨fun c _ _ => ⟨label, hauthorized.append rest⟩, fun handled h =>
      Or.inr ⟨label, hauthorized.append rest, leads_logged hlead h⟩⟩

/-! ## A session -/

def keyConfig : OperatorAuthConfig := ⟨"key", "wb_session"⟩

def keyCookie : OperatorCredentials where
  cookies := fun _ => some "key"

theorem program_keyCookie (hashToken : String → String)
    (dateParse : String → Option Instant) (path : String)
    (action : AdminAction) :
    ApiTask.program hashToken keyConfig dateParse
        (.admin keyCookie path action) =
      logged hashToken path action "bootstrap" := by
  have hkey : safeEqual "key" keyConfig.operatorApiKey = true :=
    safeEqual_iff.mpr rfl
  simp only [ApiTask.program, operatorAuth, OperatorCredentials.bearer?,
    keyCookie, Option.bind_none, hkey, if_true]

/-- A session that is about to revoke a token. -/
theorem admin_authorized_keyCookie : ∃ label,
    Authorized id keyConfig keyCookie
      ((api id keyConfig fun _ => none).madeBy 0 (Pool.idle .empty)
        [.start (.admin keyCookie "/operator-tokens/7"
          (.revokeOperatorToken 7))]) label := by
  refine (admin_authorized id keyConfig (fun _ => none) .empty
    [.start (.admin keyCookie "/operator-tokens/7" (.revokeOperatorToken 7))]
    0 ⟨_, _⟩ rfl keyCookie "/operator-tokens/7" (.revokeOperatorToken 7)
    rfl).1 (.inr (.query (.revokeOperatorToken 7))) ?_ fun h => h
  exact (congrArg Program.next? (program_keyCookie id
    (fun _ => none) _ _)).trans rfl

end System

end WebhookBroadcast
