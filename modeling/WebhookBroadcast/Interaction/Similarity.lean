import Mathlib.Data.List.Forall2
import WebhookBroadcast.Interaction.Interleaving

/-!
# Executions that differ in what they are told

Two programs are similar when they make the same calls, whatever related answers
they get, and return related values.  If the program of every task is similar to
itself and related choices have the same effect on the state, then executions
under related choices go through the same states.  So the state, and every call,
shows of a choice only what the relation shows.
-/

namespace Interaction

variable {S : Signature} {ε α β τ χ σ : Type}

/-! ## Programs -/

namespace Program

/-- The programs make the same calls as long as the answers to them are related
by `A`, and return values that are related by `V`. -/
inductive Similar (A : (c : S.Call) → S.Answer c → S.Answer c → Prop)
    (V : α → α → Prop) : Program S ε α → Program S ε α → Prop
  | done {a a' : α} (h : V a a') : Similar A V (done a) (done a')
  | fail (e : ε) : Similar A V (fail e) (fail e)
  | call (c : S.Call) {k k' : S.Answer c → Program S ε α}
      (h : ∀ a a', A c a a' → Similar A V (k a) (k' a')) :
      Similar A V (call c k) (call c k')

variable {A : (c : S.Call) → S.Answer c → S.Answer c → Prop}
  {V : α → α → Prop} {W : β → β → Prop} {p q : Program S ε α}

theorem Similar.bind {f g : α → Program S ε β} (h : Similar A V p q)
    (hfg : ∀ a a', V a a' → Similar A W (f a) (g a')) :
    Similar A W (p >>= f) (q >>= g) := by
  induction h with
  | done h => exact hfg _ _ h
  | fail e => exact .fail e
  | call c h ih => exact .call c ih

theorem Similar.next? (h : Similar A V p q) : p.next? = q.next? := by
  cases h <;> rfl

/-- How similar programs have ended, if they have. -/
theorem Similar.result? {γ : Type} {f : α → γ} (hf : ∀ a a', V a a' → f a = f a')
    (h : Similar A V p q) :
    p.result?.map (Except.map f) = q.result?.map (Except.map f) := by
  cases h with
  | done h => simp [Program.result?, Except.map, hf _ _ h]
  | fail e => rfl
  | call c h => rfl

theorem Similar.advance {h : Handler S χ σ} {x x' : χ} {s : σ}
    (hpq : Similar A V p q)
    (hanswer : ∀ c, A c (h x c s).1 (h x' c s).1 ∧ (h x c s).2 = (h x' c s).2) :
    Similar A V (p.advance h x s).1 (q.advance h x' s).1 ∧
      (p.advance h x s).2 = (q.advance h x' s).2 := by
  cases hpq with
  | done hV => exact ⟨.done hV, rfl⟩
  | fail e => exact ⟨.fail e, rfl⟩
  | call c hk => exact ⟨hk _ _ (hanswer c).1, (hanswer c).2⟩

end Program

/-! ## Executions -/

/-- The same event but for the choice, which is related. -/
inductive Event.Alike (R : χ → χ → Prop) : Event τ χ β → Event τ χ β → Prop
  | start (t : τ) : Alike R (.start t) (.start t)
  | step (i : ℕ) {x x' : χ} (h : R x x') : Alike R (.step i x) (.step i x')
  | background (b : β) : Alike R (.background b) (.background b)

/-- The runs work on the same task and are similar. -/
def Run.Alike (A : (c : S.Call) → S.Answer c → S.Answer c → Prop)
    (V : α → α → Prop) (run run' : Run S ε α τ) : Prop :=
  run.task = run'.task ∧ Program.Similar A V run.program run'.program

/-- The pools have the same state and similar runs. -/
structure Pool.Alike (A : (c : S.Call) → S.Answer c → S.Answer c → Prop)
    (V : α → α → Prop) (P Q : Pool S ε α τ σ) : Prop where
  state : P.state = Q.state
  runs : List.Forall₂ (Run.Alike A V) P.runs Q.runs

theorem forall₂_set {γ δ : Type} {R : γ → δ → Prop} {as : List γ}
    {bs : List δ} (h : List.Forall₂ R as bs) {a : γ} {b : δ} (hab : R a b) :
    ∀ i, List.Forall₂ R (as.set i a) (bs.set i b) := by
  induction h with
  | nil => exact fun _ => .nil
  | cons hhead htail ih =>
      intro i
      cases i with
      | zero => exact .cons hab htail
      | succ i => exact .cons hhead (ih i)

namespace System

variable (Y : System S ε α τ χ β σ) {R : χ → χ → Prop}
  {A : (c : S.Call) → S.Answer c → S.Answer c → Prop} {V : α → α → Prop}
  (hhandler : ∀ x x', R x x' → ∀ c s,
    A c (Y.handler x c s).1 (Y.handler x' c s).1 ∧
      (Y.handler x c s).2 = (Y.handler x' c s).2)
  (hprogram : ∀ t, Program.Similar A V (Y.program t) (Y.program t))

include hhandler hprogram

theorem alike_apply {P Q : Pool S ε α τ σ} (h : P.Alike A V Q)
    {e e' : Event τ χ β} (he : e.Alike R e') :
    (Y.apply P e).Alike A V (Y.apply Q e') := by
  cases he with
  | start t =>
      refine ⟨h.state, ?_⟩
      exact List.rel_append h.runs (.cons ⟨rfl, hprogram t⟩ .nil)
  | background b => exact ⟨congrArg (Y.background b) h.state, h.runs⟩
  | step i hx =>
      rename_i x x'
      cases hi : P.runs[i]? with
      | none =>
          have hi' : Q.runs[i]? = none := by
            rw [List.getElem?_eq_none_iff] at hi ⊢
            rwa [← h.runs.length_eq]
          rw [Y.apply_step_none x hi, Y.apply_step_none x' hi']
          exact h
      | some run =>
          obtain ⟨hlt, hrun⟩ := List.getElem?_eq_some_iff.mp hi
          have hlt' : i < Q.runs.length := by
            rwa [← h.runs.length_eq]
          have halike := h.runs.get hlt hlt'
          simp only [List.get_eq_getElem, hrun] at halike
          rw [Y.apply_step_some x hi,
            Y.apply_step_some x' (List.getElem?_eq_getElem hlt'), ← h.state]
          obtain ⟨hsimilar, hstate⟩ :=
            halike.2.advance (h := Y.handler) fun c => hhandler x x' hx c P.state
          have hnext : Run.Alike A V
              ⟨run.task, (run.program.advance Y.handler x P.state).1⟩
              ⟨Q.runs[i].task,
                (Q.runs[i].program.advance Y.handler x' P.state).1⟩ :=
            ⟨halike.1, hsimilar⟩
          exact ⟨hstate, forall₂_set h.runs hnext i⟩

/-- Executions under related choices go through the same states. -/
theorem alike_exec {events events' : List (Event τ χ β)}
    (hevents : List.Forall₂ (Event.Alike R) events events') :
    ∀ {P Q : Pool S ε α τ σ}, P.Alike A V Q →
      (Y.exec P events).Alike A V (Y.exec Q events') := by
  induction hevents with
  | nil => exact fun h => h
  | cons he _ ih =>
      exact fun h => ih (Y.alike_apply hhandler hprogram h he)

end System

end Interaction
