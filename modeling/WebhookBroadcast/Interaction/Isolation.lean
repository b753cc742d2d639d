import WebhookBroadcast.Interaction.RelyGuarantee

/-!
# Runs that own what they work on

Rely and guarantee for a run whose part of the state no other run touches.  The
other runs keep no discipline among themselves; all that matters is that none
of their calls is noticed.  The run then ends as it does alone.
-/

namespace Interaction

variable {S : Signature} {ε α τ χ β σ : Type}

namespace System

/-- Run `i` ensures `post`, and its rely allows every call of another run. -/
structure Isolated (D : Discipline S χ σ) (post : Except ε α → σ → Prop)
    (i : ℕ) (P : Pool S ε α τ σ) : Prop where
  invariant : D.invariant P.state
  ensures : ∀ run, P.runs[i]? = some run → D.Ensures post run.program P.state
  others : ∀ j run, j ≠ i → P.runs[j]? = some run →
    run.program.EveryCall fun c _ => ∀ s x, D.invariant s →
      D.permits s c x → D.invariant (D.handler x c s).2 ∧
        D.rely s (D.handler x c s).2

variable {Y : System S ε α τ χ β σ} {D : Discipline S χ σ}
  {post : Except ε α → σ → Prop} {i : ℕ}

theorem Isolated.step (hY : D.handler = Y.handler) {P : Pool S ε α τ σ}
    (hP : Isolated D post i P) (j : ℕ) {x : χ}
    (hx : ∀ s c, D.permits s c x) :
    Isolated D post i (Y.apply P (.step j x)) := by
  cases hj : P.runs[j]? with
  | none =>
      rw [Y.apply_step_none x hj]
      exact hP
  | some run =>
      rw [Y.apply_step_some x hj, ← hY]
      by_cases hij : j = i
      · subst hij
        obtain ⟨hinv, _, hrun⟩ := (hP.ensures run hj).advance hP.invariant
          (x := x) fun c _ _ => hx P.state c
        refine ⟨hinv, ?_, ?_⟩
        · intro other hother
          have hlt : j < P.runs.length := (List.getElem?_eq_some_iff.mp hj).1
          rw [List.getElem?_set_self hlt] at hother
          cases hother
          exact hrun
        · intro k other hk hother
          rw [List.getElem?_set_ne (Ne.symm hk)] at hother
          exact hP.others k other hk hother
      · have hcalls := hP.others j run hij hj
        have hstep : D.invariant (run.program.advance D.handler x P.state).2 ∧
            D.Interferes P.state
              (run.program.advance D.handler x P.state).2 := by
          cases hprogram : run.program with
          | done a => exact ⟨hP.invariant, .refl _⟩
          | fail e => exact ⟨hP.invariant, .refl _⟩
          | call c k =>
              rw [hprogram] at hcalls
              obtain ⟨hinv, hrely⟩ :=
                hcalls.1 P.state x hP.invariant (hx P.state c)
              exact ⟨hinv, Relation.ReflTransGen.single hrely⟩
        refine ⟨hstep.1, ?_, ?_⟩
        · intro other hother
          rw [List.getElem?_set_ne hij] at hother
          exact (hP.ensures other hother).interfere hstep.2
        · intro k other hk hother
          by_cases hjk : j = k
          · subst hjk
            have hlt : j < P.runs.length :=
              (List.getElem?_eq_some_iff.mp hj).1
            rw [List.getElem?_set_self hlt] at hother
            cases hother
            exact hcalls.advance D.handler x P.state
          · rw [List.getElem?_set_ne hjk] at hother
            exact hP.others k other hk hother

/-- The run lemma: isolation lasts as long as only runs make steps. -/
theorem Isolated.exec (hY : D.handler = Y.handler)
    (steps : List (ℕ × χ)) (hsteps : ∀ step ∈ steps, ∀ s c,
      D.permits s c step.2) {P : Pool S ε α τ σ} (hP : Isolated D post i P) :
    Isolated D post i
      (Y.exec P (steps.map fun step => .step step.1 step.2)) := by
  induction steps generalizing P with
  | nil => exact hP
  | cons step steps ih =>
      apply ih (fun later hlater => hsteps later (by simp [hlater]))
      exact hP.step hY step.1 (hsteps step (by simp))

theorem Isolated.ended {P : Pool S ε α τ σ} (hP : Isolated D post i P)
    {run : Run S ε α τ} (hi : P.runs[i]? = some run) {r : Except ε α}
    (hr : run.program.result? = some r) : post r P.state :=
  (hP.ensures run hi).of_result? hr

end System

end Interaction
