import WebhookBroadcast.Interaction.RelyGuarantee

/-!
# Recording the choices

A system can be given a second component of state that records the choices made
so far.  No program can read it, so that the runs and the original state are as
they were; but a discipline can speak of it.
-/

namespace Interaction

variable {S : Signature} {ε α τ χ β σ γ : Type}

/-- The pool without what was recorded. -/
def Pool.forget (P : Pool S ε α τ (σ × γ)) : Pool S ε α τ σ :=
  ⟨P.state.1, P.runs⟩

/-- A handler that also records the choice. -/
def Handler.recording (h : Handler S χ σ) (record : χ → γ → γ) :
    Handler S χ (σ × γ) :=
  fun x c s => ((h x c s.1).1, ((h x c s.1).2, record x s.2))

namespace System

variable (Y : System S ε α τ χ β σ) (record : χ → γ → γ)

/-- The system that records the choice of every call. -/
def recording : System S ε α τ χ β (σ × γ) where
  handler := Y.handler.recording record
  program := Y.program
  background b s := (Y.background b s.1, s.2)

theorem forget_apply (P : Pool S ε α τ (σ × γ)) (e : Event τ χ β) :
    ((Y.recording record).apply P e).forget = Y.apply P.forget e := by
  cases e with
  | start t => rfl
  | background b => rfl
  | step i x =>
      cases hi : P.runs[i]? with
      | none =>
          rw [(Y.recording record).apply_step_none x hi,
            Y.apply_step_none x (P := P.forget) hi]
      | some run =>
          rw [(Y.recording record).apply_step_some x hi,
            Y.apply_step_some x (P := P.forget) hi]
          cases hp : run.program with
          | done a => rfl
          | fail e => rfl
          | call c k => rfl

/-- Recording changes nothing. -/
theorem forget_exec (P : Pool S ε α τ (σ × γ)) (events : List (Event τ χ β)) :
    ((Y.recording record).exec P events).forget = Y.exec P.forget events := by
  induction events generalizing P with
  | nil => rfl
  | cons e events ih => rw [exec_cons, exec_cons, ih, forget_apply]

/-- What is recorded is the initial value or was recorded with some choice. -/
theorem recorded_cases (latest : χ → γ) {P : Pool S ε α τ (σ × γ)}
    (events : List (Event τ χ β)) :
    ((Y.recording fun x _ => latest x).exec P events).state.2 = P.state.2 ∨
      ∃ i x, .step i x ∈ events ∧
        ((Y.recording fun x _ => latest x).exec P events).state.2 =
          latest x := by
  induction events using List.reverseRecOn with
  | nil => exact Or.inl rfl
  | append_singleton events e ih =>
      have hkept {s : γ}
          (h : s = ((Y.recording fun x _ => latest x).exec P events).state.2) :
          s = P.state.2 ∨ ∃ i x, .step i x ∈ events ++ [e] ∧ s = latest x := by
        rw [h]
        rcases ih with ih | ⟨i, x, hmem, ih⟩
        · exact Or.inl ih
        · exact Or.inr ⟨i, x, by simp [hmem], ih⟩
      rw [exec_concat]
      cases e with
      | start t => exact hkept rfl
      | background b => exact hkept rfl
      | step i x =>
          cases hi : ((Y.recording fun x _ => latest x).exec P events).runs[i]?
            with
          | none =>
              rw [(Y.recording fun x _ => latest x).apply_step_none x hi]
              exact hkept rfl
          | some run =>
              rw [(Y.recording fun x _ => latest x).apply_step_some x hi]
              cases hp : run.program with
              | done a => exact hkept rfl
              | fail e => exact hkept rfl
              | call c k => exact Or.inr ⟨i, x, by simp, rfl⟩

end System

end Interaction
