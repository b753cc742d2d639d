import WebhookBroadcast.Credentials.Deployment
import WebhookBroadcast.Interaction.Similarity

/-!
# What a secret leaves behind

Random bytes flow into the stores, into the statements and into every reply but
that of the mint only as the hash and the prefix of the token.
-/

namespace WebhookBroadcast

open Interaction

/-! ## Bytes that look the same -/

/-- The tokens of these bytes have the same hash and the same prefix. -/
def SameTraces (hashToken : String → String) (random random' : RandomBytes) :
    Prop :=
  ∀ kind : TokenKind,
    (kind.mint hashToken random).tokenHash =
        (kind.mint hashToken random').tokenHash ∧
      (kind.mint hashToken random).prefix_ =
        (kind.mint hashToken random').prefix_

/-- Choices that differ at most in such bytes. -/
def SameButSecrets (hashToken : String → String) (x x' : ApiChoice) : Prop :=
  x.toChoice = x'.toChoice ∧ SameTraces hashToken x.bytes x'.bytes

theorem SameButSecrets.refl (hashToken : String → String) (x : ApiChoice) :
    SameButSecrets hashToken x x :=
  ⟨rfl, fun _ => ⟨rfl, rfl⟩⟩

/-- Answers that differ at most in such bytes. -/
def AlikeAnswers (hashToken : String → String) :
    (c : ApiEffects.Call) → ApiEffects.Answer c → ApiEffects.Answer c → Prop
  | .inl _ => Eq
  | .inr (.query _) => Eq
  | .inr (.touchOperatorTokenLastUsed _ _) => Eq
  | .inr .randomBytes => SameTraces hashToken

/-- A reply without the text of the token that it hands out. -/
def ApiReply.redact : ApiReply → ApiReply
  | channelToken created => channelToken { created with token := "" }
  | operatorToken created => operatorToken { created with token := "" }
  | reply => reply

def Handled.redact (handled : Handled) : Handled :=
  { handled with reply := handled.reply.redact }

variable {hashToken : String → String}

theorem alikeAnswers_performApi (x x' : ApiChoice)
    (h : SameButSecrets hashToken x x') (c : ApiEffects.Call)
    (D : Deployment) :
    AlikeAnswers hashToken c (performApi x c D).1 (performApi x' c D).1 ∧
      (performApi x c D).2 = (performApi x' c D).2 := by
  obtain ⟨hchoice, hbytes⟩ := h
  cases c with
  | inl c =>
      have hrun : performApi x (.inl c) D = performApi x' (.inl c) D := by
        change (_, _) = (_, _)
        rw [hchoice]
      exact ⟨congrArg Prod.fst hrun, congrArg Prod.snd hrun⟩
  | inr c =>
      cases c with
      | query q =>
          have hrun : performAdmin x (.query q) D =
              performAdmin x' (.query q) D := by
            cases hx : x.fault with
            | none =>
                have hx' : x'.fault = none := hchoice ▸ hx
                rw [performAdmin_query_of_none hx,
                  performAdmin_query_of_none hx']
            | some fault =>
                have hx' : x'.fault = some fault := hchoice ▸ hx
                rw [performAdmin_query_of_some hx,
                  performAdmin_query_of_some hx']
          exact ⟨congrArg Prod.fst hrun, congrArg Prod.snd hrun⟩
      | touchOperatorTokenLastUsed tokenId at_ => exact ⟨rfl, rfl⟩
      | randomBytes => exact ⟨hbytes, rfl⟩

/-! ## Programs that do not tell the bytes apart -/

/-- Similar up to the text of a new token. -/
abbrev SimilarHandled (hashToken : String → String) :
    ApiAction Handled → ApiAction Handled → Prop :=
  Program.Similar (AlikeAnswers hashToken) fun handled handled' =>
    handled.redact = handled'.redact

abbrev SimilarReply (hashToken : String → String) :
    ApiAction ApiReply → ApiAction ApiReply → Prop :=
  Program.Similar (AlikeAnswers hashToken) fun reply reply' =>
    reply.redact = reply'.redact

/-- A program of the service draws no bytes. -/
theorem similar_inl {α : Type} (p : AcceptAction α) :
    Program.Similar (AlikeAnswers hashToken) Eq
      (p.inl (T := AdminEffects)) (p.inl (T := AdminEffects)) := by
  induction p with
  | done a => exact .done rfl
  | fail e => exact .fail e
  | call c k ih =>
      refine .call _ fun a a' h => ?_
      cases h
      exact ih a

theorem similar_adminQuery (q : AdminQuery) :
    Program.Similar (AlikeAnswers hashToken) Eq (adminQuery q)
      (adminQuery q) := by
  refine .call _ fun a a' h => ?_
  cases h
  cases a with
  | ok result => exact .done rfl
  | error e => exact .fail _

theorem similar_randomBytes :
    Program.Similar (AlikeAnswers hashToken) (SameTraces hashToken)
      randomBytes randomBytes :=
  .call _ fun _ _ h => .done h

theorem similar_createChannelToken (channelId : Uuid) :
    SimilarReply hashToken (createChannelToken hashToken channelId)
      (createChannelToken hashToken channelId) := by
  refine (similar_inl _).bind fun channel _ h => ?_
  cases h
  cases channel with
  | none => exact .done rfl
  | some channel =>
      refine similar_randomBytes.bind fun random random' hrandom => ?_
      refine (similar_inl _).bind fun id _ h => ?_
      cases h
      refine (similar_inl _).bind fun createdAt _ h => ?_
      cases h
      obtain ⟨hhash, hprefix⟩ := hrandom .channel
      dsimp only [TokenKind.mint] at hhash hprefix
      rw [hhash, hprefix]
      refine (similar_adminQuery _).bind fun row _ h => ?_
      cases h
      exact .done rfl

theorem similar_createOperatorToken (body : Option Js.Json) :
    SimilarReply hashToken (createOperatorToken hashToken body)
      (createOperatorToken hashToken body) := by
  unfold createOperatorToken
  split
  · exact .done rfl
  · refine similar_randomBytes.bind fun random random' hrandom => ?_
    refine (similar_inl _).bind fun id _ h => ?_
    cases h
    refine (similar_inl _).bind fun createdAt _ h => ?_
    cases h
    obtain ⟨hhash, hprefix⟩ := hrandom .operator
    dsimp only [TokenKind.mint] at hhash hprefix
    rw [hhash, hprefix]
    refine (similar_adminQuery _).bind fun row _ h => ?_
    cases h
    exact .done rfl

/-- A program whose value is made into a reply. -/
theorem similar_bind_done {α β : Type} {V : β → β → Prop} {p : ApiAction α}
    (hp : Program.Similar (AlikeAnswers hashToken) Eq p p) {f : α → β}
    (hV : ∀ a, V (f a) (f a)) :
    Program.Similar (AlikeAnswers hashToken) V
      (p >>= fun a => Program.done (f a)) (p >>= fun a => Program.done (f a)) :=
  hp.bind fun a _ h => .done (h ▸ hV a)

theorem similar_action (action : AdminAction) :
    SimilarReply hashToken (action.program hashToken)
      (action.program hashToken) := by
  cases action with
  | session => exact .done rfl
  | replay maxAttempts channelId broadcastId =>
      refine similar_bind_done (similar_inl _) ?_
      exact fun _ => rfl
  | retry maxAttempts deliveryId =>
      refine similar_bind_done (similar_inl _) ?_
      exact fun _ => rfl
  | write method statement =>
      refine similar_bind_done (similar_adminQuery _) ?_
      exact fun _ => rfl
  | mintChannelToken channelId => exact similar_createChannelToken channelId
  | revokeChannelToken channelId tokenId =>
      refine similar_bind_done (similar_adminQuery _) ?_
      exact fun _ => rfl
  | listOperatorTokens =>
      refine similar_bind_done (similar_adminQuery _) ?_
      exact fun _ => rfl
  | mintOperatorToken body => exact similar_createOperatorToken body
  | revokeOperatorToken tokenId =>
      refine similar_bind_done (similar_adminQuery _) ?_
      exact fun _ => rfl

theorem similar_logged (path : String) (action : AdminAction)
    (operatorLabel : String) :
    SimilarHandled hashToken (logged hashToken path action operatorLabel)
      (logged hashToken path action operatorLabel) := by
  refine (similar_action action).bind fun reply reply' h => .done ?_
  simp only [Handled.redact]
  rw [h]

theorem similar_operatorAuth {config : OperatorAuthConfig}
    {credentials : OperatorCredentials} {next : String → ApiAction Handled}
    (hnext : ∀ label, SimilarHandled hashToken (next label) (next label)) :
    SimilarHandled hashToken
      (operatorAuth hashToken config credentials next)
      (operatorAuth hashToken config credentials next) := by
  unfold operatorAuth
  split
  · split
    · exact hnext _
    · refine (similar_adminQuery _).bind fun row _ h => ?_
      cases h
      cases row with
      | none => exact .done rfl
      | some row =>
          refine (similar_inl _).bind fun at_ _ h => ?_
          cases h
          exact .call _ fun _ _ _ => hnext row.label
  · split
    · split
      · exact hnext _
      · exact .done rfl
    · exact .done rfl

theorem similar_task (config : OperatorAuthConfig)
    (dateParse : String → Option Instant) (t : ApiTask) :
    SimilarHandled hashToken (t.program hashToken config dateParse)
      (t.program hashToken config dateParse) := by
  cases t with
  | ingest routeConfig slug request =>
      refine similar_bind_done (similar_inl _) ?_
      exact fun _ => rfl
  | process task =>
      refine similar_bind_done (similar_inl _) (f := fun _ => _) ?_
      exact fun _ => rfl
  | autoDisable endpointId autoDisableAfterMs now =>
      refine similar_bind_done (similar_inl _) ?_
      exact fun _ => rfl
  | admin credentials path action =>
      exact similar_operatorAuth fun label => similar_logged path action label

/-! ## Histories -/

/-- Two histories that draw different bytes, of which hashes and prefixes are
the same, lead to the same stores; the runs make the same calls next, and have
ended alike but for the text of a new token. -/
theorem secret_leaves_prefix_and_hash (hashToken : String → String)
    (config : OperatorAuthConfig) (dateParse : String → Option Instant)
    (D : Deployment) (history history' : ApiHistory)
    (h : List.Forall₂ (Event.Alike (SameButSecrets hashToken)) history
      history') :
    ((api hashToken config dateParse).exec (Pool.idle D) history).state =
      ((api hashToken config dateParse).exec (Pool.idle D) history').state ∧
    List.Forall₂ (fun run run' => run.task = run'.task ∧
        run.program.next? = run'.program.next? ∧
        run.program.result?.map (Except.map Handled.redact) =
          run'.program.result?.map (Except.map Handled.redact))
      ((api hashToken config dateParse).exec (Pool.idle D) history).runs
      ((api hashToken config dateParse).exec (Pool.idle D) history').runs := by
  have halike := (api hashToken config dateParse).alike_exec
    (A := AlikeAnswers hashToken)
    (V := fun handled handled' => handled.redact = handled'.redact)
    alikeAnswers_performApi (similar_task config dateParse) h
    (P := Pool.idle D) (Q := Pool.idle D) ⟨rfl, .nil⟩
  refine ⟨halike.state, halike.runs.imp fun run run' hrun => ?_⟩
  exact ⟨hrun.1, hrun.2.next?, hrun.2.result? fun _ _ hV => hV⟩

/-! ## Two secrets with one trace -/

/-- A hash that many tokens share: the sum of their characters. -/
def checksum (token : String) : String :=
  String.singleton (Char.ofNat ((token.toList.map Char.toNat).sum % 128))

/-- 23 zeros and this byte. -/
def endingIn (last : UInt8) : RandomBytes :=
  ⟨List.replicate 23 0 ++ [last], rfl⟩

/-- A request of the operator that draws these bytes, makes an operator token of
them and is answered. -/
def minting (random : RandomBytes) : ApiHistory :=
  [.start (.admin { cookies := fun _ => some "key" } "/operator-tokens"
      (.mintOperatorToken (some (.object [("label", .string "laptop")])))),
    .step 0 { bytes := random }, .step 0 {}, .step 0 {}, .step 0 {}]

/-- The answer to it. -/
def mintedReply (random : RandomBytes) : Handled :=
  ⟨.operatorToken ⟨0, tokenText "wbop_" random, "laptop", 0⟩,
    some ⟨"POST", "/operator-tokens", "bootstrap"⟩⟩

theorem secret_leaves_prefix_and_hash_minting :
    let minted (random : RandomBytes) :=
      (api checksum ⟨"key", "wb_session"⟩ fun _ => none).exec
        (Pool.idle .empty) (minting random)
    (minted (endingIn 1)).state = (minted (endingIn 64)).state ∧
      (minted (endingIn 1)).runs.map (fun run => run.program.result?) =
        [some (.ok (mintedReply (endingIn 1)))] ∧
      (minted (endingIn 64)).runs.map (fun run => run.program.result?) =
        [some (.ok (mintedReply (endingIn 64)))] ∧
      tokenText "wbop_" (endingIn 1) ≠ tokenText "wbop_" (endingIn 64) := by
  intro minted
  refine ⟨?_, by decide +kernel, by decide +kernel, by decide +kernel⟩
  have hsame : SameTraces checksum (endingIn 1) (endingIn 64) := by
    intro kind
    cases kind <;> decide +kernel
  refine (secret_leaves_prefix_and_hash _ _ _ _ (minting (endingIn 1))
    (minting (endingIn 64)) ?_).1
  have hrest : Event.Alike (SameButSecrets checksum) (.step 0 {} : ApiEvent)
      (.step 0 {}) := .step 0 (.refl _ _)
  exact .cons (.start _) (.cons (.step 0 ⟨rfl, hsame⟩)
    (.cons hrest (.cons hrest (.cons hrest .nil))))

end WebhookBroadcast
