import WebhookBroadcast.Interaction.Program

/-!
# Interleaved runs of programs

A pool is a shared state together with the runs that are in flight on it.  An
event starts a run, lets one run make its next call, or changes the state from
outside.  Runs are never forced to take a step, so a run that crashes at a call
is a run that is not scheduled again.

An execution is a list of events.  Quantifying over all event lists is
quantifying over every interleaving of the calls of every set of runs.
-/

namespace Interaction

variable {S : Signature} {ε α τ χ β σ : Type}

/-- A run: the task it was started for and what it may still do. -/
structure Run (S : Signature) (ε α τ : Type) where
  task : τ
  program : Program S ε α

/-- A shared state and the runs on it, ended ones included, oldest first. -/
structure Pool (S : Signature) (ε α τ σ : Type) where
  state : σ
  runs : List (Run S ε α τ)

/-- The pool on state `s` in which nothing is running. -/
def Pool.idle (s : σ) : Pool S ε α τ σ := ⟨s, []⟩

/-- Run `i` has been started for this task. -/
def Pool.WorksOn (P : Pool S ε α τ σ) (i : ℕ) (t : τ) : Prop :=
  ∃ run, P.runs[i]? = some run ∧ run.task = t

/-- Run `i` works on this task and makes this call next. -/
def Pool.Makes (P : Pool S ε α τ σ) (i : ℕ) (t : τ) (c : S.Call) : Prop :=
  ∃ run, P.runs[i]? = some run ∧ run.task = t ∧ run.program.next? = some c

theorem Pool.Makes.worksOn {P : Pool S ε α τ σ} {i : ℕ} {t : τ} {c : S.Call}
    (h : P.Makes i t c) : P.WorksOn i t := by
  obtain ⟨run, hi, htask, -⟩ := h
  exact ⟨run, hi, htask⟩

theorem Pool.WorksOn.unique {P : Pool S ε α τ σ} {i : ℕ} {t t' : τ}
    (h : P.WorksOn i t) (h' : P.WorksOn i t') : t = t' := by
  obtain ⟨run, hi, rfl⟩ := h
  obtain ⟨run', hi', rfl⟩ := h'
  rw [hi] at hi'
  rw [Option.some.inj hi']

/-- One event of an execution: task `t` starts a run, run `i` makes its next
call as decided by `x`, or the state changes from outside. -/
inductive Event (τ χ β : Type) where
  | start (t : τ)
  | step (i : ℕ) (x : χ)
  | background (b : β)

/-- A handler for calls, the program of each task, and the changes that the
state may undergo from outside. -/
structure System (S : Signature) (ε α τ χ β σ : Type) where
  handler : Handler S χ σ
  program : τ → Program S ε α
  background : β → σ → σ

namespace System

variable (Y : System S ε α τ χ β σ)

/-- The effect of one event.  Stepping a run that does not exist or has ended
changes nothing. -/
def apply (P : Pool S ε α τ σ) : Event τ χ β → Pool S ε α τ σ
  | .start t => ⟨P.state, P.runs ++ [⟨t, Y.program t⟩]⟩
  | .step i x =>
      match P.runs[i]? with
      | none => P
      | some run =>
          let next := run.program.advance Y.handler x P.state
          ⟨next.2, P.runs.set i ⟨run.task, next.1⟩⟩
  | .background b => ⟨Y.background b P.state, P.runs⟩

/-- The pool that a list of events leads to. -/
def exec (P : Pool S ε α τ σ) (events : List (Event τ χ β)) : Pool S ε α τ σ :=
  events.foldl Y.apply P

@[simp] theorem exec_nil (P : Pool S ε α τ σ) : Y.exec P [] = P := rfl

@[simp] theorem exec_cons (P : Pool S ε α τ σ)
    (e : Event τ χ β) (events : List (Event τ χ β)) :
    Y.exec P (e :: events) = Y.exec (Y.apply P e) events := rfl

theorem exec_append (P : Pool S ε α τ σ)
    (first second : List (Event τ χ β)) :
    Y.exec P (first ++ second) = Y.exec (Y.exec P first) second :=
  List.foldl_append

theorem exec_concat (P : Pool S ε α τ σ)
    (events : List (Event τ χ β)) (e : Event τ χ β) :
    Y.exec P (events ++ [e]) = Y.apply (Y.exec P events) e := by
  rw [exec_append, exec_cons, exec_nil]

theorem apply_step_none {P : Pool S ε α τ σ} {i : ℕ} (x : χ)
    (hi : P.runs[i]? = none) : Y.apply P (.step i x) = P := by
  simp [apply, hi]

theorem apply_step_some {P : Pool S ε α τ σ} {i : ℕ} (x : χ)
    {run : Run S ε α τ} (hi : P.runs[i]? = some run) :
    Y.apply P (.step i x) =
      ⟨(run.program.advance Y.handler x P.state).2,
        P.runs.set i
          ⟨run.task, (run.program.advance Y.handler x P.state).1⟩⟩ := by
  simp [apply, hi]

/-- A run keeps its place and its task. -/
theorem tasks_apply_step (P : Pool S ε α τ σ) (i : ℕ) (x : χ) :
    (Y.apply P (.step i x)).runs.map Run.task = P.runs.map Run.task := by
  cases hi : P.runs[i]? with
  | none => rw [Y.apply_step_none x hi]
  | some run =>
      rw [Y.apply_step_some x hi]
      apply List.ext_getElem?
      intro j
      rw [List.getElem?_map, List.getElem?_map]
      by_cases hij : i = j
      · subst hij
        have hlt : i < P.runs.length := (List.getElem?_eq_some_iff.mp hi).1
        rw [List.getElem?_set_self hlt, hi]
        rfl
      · rw [List.getElem?_set_ne hij]

/-- A run keeps its task for ever. -/
theorem worksOn_exec {P : Pool S ε α τ σ} {i : ℕ} {t : τ}
    (h : P.WorksOn i t) (events : List (Event τ χ β)) :
    (Y.exec P events).WorksOn i t := by
  induction events generalizing P with
  | nil => exact h
  | cons e events ih =>
      refine ih (P := Y.apply P e) ?_
      obtain ⟨run, hi, htask⟩ := h
      cases e with
      | start t' =>
          have hlt : i < P.runs.length := (List.getElem?_eq_some_iff.mp hi).1
          exact ⟨run, (List.getElem?_append_left hlt).trans hi, htask⟩
      | background b => exact ⟨run, hi, htask⟩
      | step j x =>
          have htasks := congrArg (·[i]?) (Y.tasks_apply_step P j x)
          simp only [List.getElem?_map, hi, Option.map_some] at htasks
          obtain ⟨run', hi', hsame⟩ := Option.map_eq_some_iff.mp htasks
          exact ⟨run', hi', hsame.trans htask⟩

theorem worksOn_append {P : Pool S ε α τ σ} {i : ℕ} {t : τ}
    {first : List (Event τ χ β)} (h : (Y.exec P first).WorksOn i t)
    (second : List (Event τ χ β)) :
    (Y.exec P (first ++ second)).WorksOn i t := by
  rw [exec_append]
  exact Y.worksOn_exec h second

theorem tasks_exec_steps (P : Pool S ε α τ σ) (steps : List (ℕ × χ)) :
    (Y.exec P (steps.map fun step => .step step.1 step.2)).runs.map Run.task =
      P.runs.map Run.task := by
  induction steps generalizing P with
  | nil => rfl
  | cons step steps ih =>
      exact (ih _).trans (Y.tasks_apply_step P step.1 step.2)

/-- A condition that every task's program satisfies and every step preserves
holds of all runs of every execution. -/
theorem exec_forall_runs {motive : τ → Program S ε α → Prop}
    (hstart : ∀ t, motive t (Y.program t))
    (hadvance : ∀ t p x s, motive t p → motive t (p.advance Y.handler x s).1)
    {P : Pool S ε α τ σ} (hP : ∀ run ∈ P.runs, motive run.task run.program)
    (events : List (Event τ χ β)) :
    ∀ run ∈ (Y.exec P events).runs, motive run.task run.program := by
  induction events generalizing P with
  | nil => exact hP
  | cons e events ih =>
      apply ih
      cases e with
      | start t =>
          intro run hrun
          rcases List.mem_append.mp hrun with hrun | hrun
          · exact hP run hrun
          · rw [List.mem_singleton] at hrun
            subst hrun
            exact hstart t
      | step i x =>
          cases hi : P.runs[i]? with
          | none =>
              rw [Y.apply_step_none x hi]
              exact hP
          | some run =>
              rw [Y.apply_step_some x hi]
              intro other hother
              rcases List.mem_or_eq_of_mem_set hother with hother | rfl
              · exact hP other hother
              · exact hadvance _ _ x _ (hP run (List.mem_of_getElem? hi))
      | background b => exact hP

/-- Every event of the execution satisfies a condition in the pool in which it
happens. -/
def Throughout (φ : Pool S ε α τ σ → Event τ χ β → Prop) :
    Pool S ε α τ σ → List (Event τ χ β) → Prop
  | _, [] => True
  | P, e :: events => φ P e ∧ Throughout φ (Y.apply P e) events

instance decidableThroughout (φ : Pool S ε α τ σ → Event τ χ β → Prop)
    [∀ P e, Decidable (φ P e)] :
    ∀ P events, Decidable (Y.Throughout φ P events)
  | _, [] => isTrue trivial
  | P, e :: events =>
      @instDecidableAnd _ _ _ (decidableThroughout φ (Y.apply P e) events)

theorem throughout_append {φ : Pool S ε α τ σ → Event τ χ β → Prop}
    {P : Pool S ε α τ σ} {first second : List (Event τ χ β)} :
    Y.Throughout φ P (first ++ second) ↔
      Y.Throughout φ P first ∧ Y.Throughout φ (Y.exec P first) second := by
  induction first generalizing P with
  | nil => exact (iff_of_eq (true_and _)).symm
  | cons e events ih =>
      rw [List.cons_append, Throughout, Throughout, ih, exec_cons, and_assoc]

theorem throughout_concat {φ : Pool S ε α τ σ → Event τ χ β → Prop}
    {P : Pool S ε α τ σ} {events : List (Event τ χ β)} {e : Event τ χ β} :
    Y.Throughout φ P (events ++ [e]) ↔
      Y.Throughout φ P events ∧ φ (Y.exec P events) e := by
  rw [throughout_append, Throughout, Throughout, and_true]

theorem throughout_of_forall {φ : Pool S ε α τ σ → Event τ χ β → Prop}
    {events : List (Event τ χ β)} (h : ∀ P, ∀ e ∈ events, φ P e)
    (P : Pool S ε α τ σ) : Y.Throughout φ P events := by
  induction events generalizing P with
  | nil => trivial
  | cons e events ih =>
      exact ⟨h P e (by simp), ih (fun P' e' he' => h P' e' (by simp [he'])) _⟩

end System

end Interaction
