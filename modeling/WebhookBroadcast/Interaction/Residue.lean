import WebhookBroadcast.Interaction.Amid

/-!
# What is left of a run

`Leads` relates a program to the calls that a run of it has made and to the
program that is left.  The rule of sequencing says in which part the run is.  A
run of an interleaving is related to its task by the calls that it has made.
-/

namespace Interaction

variable {S : Signature} {ε α β χ σ : Type}

/-- A call as a part of the state sees it. -/
def Made.part {χ' σ' : Type} (choice : χ' → χ) (get : σ' → σ)
    (m : Made S χ' σ') : Made S χ σ :=
  ⟨m.call, choice m.choice, get m.found⟩

/-! ## Programs -/

namespace Program

/-- The run makes these calls, and then this program is left of it. -/
inductive Leads (h : Handler S χ σ) :
    Program S ε α → List (Made S χ σ) → Program S ε α → Prop
  | nil (p : Program S ε α) : Leads h p [] p
  | cons {c : S.Call} {k : S.Answer c → Program S ε α} (x : χ) (s : σ)
      {rest : List (Made S χ σ)} {q : Program S ε α}
      (hrest : Leads h (k (h x c s).1) rest q) :
      Leads h (call c k) (⟨c, x, s⟩ :: rest) q

variable {h : Handler S χ σ} {p q : Program S ε α} {trace : List (Made S χ σ)}

/-- A sequence is in its first part, or has left it with a value. -/
theorem Leads.of_bind {f : α → Program S ε β} {q : Program S ε β}
    (hlead : (p >>= f).Leads h trace q) :
    (∃ first, p.Leads h trace first ∧ q = (first >>= f)) ∨
      ∃ calls a rest, trace = calls ++ rest ∧ p.Leads h calls (done a) ∧
        (f a).Leads h rest q := by
  induction p generalizing trace with
  | done a => exact Or.inr ⟨[], a, trace, rfl, .nil _, hlead⟩
  | fail e =>
      have hfail : (fail e : Program S ε β).Leads h trace q := hlead
      cases hfail
      exact Or.inl ⟨fail e, .nil _, rfl⟩
  | call c k ih =>
      cases hlead with
      | nil _ => exact Or.inl ⟨call c k, .nil _, rfl⟩
      | cons x s hrest =>
          rcases ih _ hrest with
            ⟨first, hfirst, rfl⟩ | ⟨calls, a, rest, rfl, hfirst, hrest⟩
          · exact Or.inl ⟨first, .cons x s hfirst, rfl⟩
          · exact Or.inr ⟨_ :: calls, a, rest, rfl, .cons x s hfirst, hrest⟩

/-- The end of a sequence is the end of its second part, unless the first part
has failed. -/
theorem result?_bind {f : α → Program S ε β} (p : Program S ε α) {b : β}
    (hresult : (p >>= f).result? = some (.ok b)) :
    ∃ a, p = done a ∧ (f a).result? = some (.ok b) := by
  cases p with
  | done a => exact ⟨a, rfl, hresult⟩
  | fail e => cases hresult
  | call c k => cases hresult

/-- What a program observes on a part of a state. -/
theorem Observes.of_within {χ' σ' : Type} {choice : χ' → χ} {get : σ' → σ}
    {set : σ → σ' → σ'} {trace : List (Made S χ' σ')}
    (htrace : p.Observes (h.within choice get set) trace) :
    p.Observes h (trace.map (Made.part choice get)) := by
  induction htrace with
  | nil p => exact .nil p
  | cons x s hrest ih => exact .cons (choice x) (get s) ih

end Program

/-! ## Runs of an interleaving -/

/-- The task of a run that starts with this event. -/
def Event.started? {τ : Type} : Event τ χ β → Option τ
  | .start t => some t
  | _ => none

namespace System

variable {τ : Type} (Y : System S ε α τ χ β σ)

/-- What is left of a run is left of it after the calls that it has made. -/
theorem leads_madeBy {i : ℕ} {events : List (Event τ χ β)} :
    ∀ {P : Pool S ε α τ σ} {run run' : Run S ε α τ}, P.runs[i]? = some run →
      (Y.exec P events).runs[i]? = some run' →
        run.program.Leads Y.handler (Y.madeBy i P events) run'.program := by
  induction events with
  | nil =>
      intro P run run' hi hi'
      rw [exec_nil, hi] at hi'
      rw [Option.some.inj hi']
      exact .nil _
  | cons e events ih =>
      intro P run run' hi hi'
      have hlt : i < P.runs.length := (List.getElem?_eq_some_iff.mp hi).1
      cases e with
      | start t => exact ih ((List.getElem?_append_left hlt).trans hi) hi'
      | background b => exact ih (P := Y.apply P (.background b)) hi hi'
      | step j x =>
          by_cases hji : j = i
          · subst hji
            have hnext := Y.apply_step_some x hi
            have hrest := ih (P := Y.apply P (.step j x)) (by
              rw [hnext]
              exact List.getElem?_set_self hlt) hi'
            rw [madeBy, if_pos rfl, hi, Option.bind_some]
            cases hp : run.program with
            | done a =>
                rw [hp] at hrest
                exact hrest
            | fail e =>
                rw [hp] at hrest
                exact hrest
            | call c k =>
                rw [hp] at hrest
                exact .cons x P.state hrest
          · have hsame : (Y.apply P (.step j x)).runs[i]? = some run := by
              cases hj : P.runs[j]? with
              | none => rw [Y.apply_step_none x hj, hi]
              | some other =>
                  rw [Y.apply_step_some x hj, List.getElem?_set_ne hji, hi]
            simpa [madeBy, hji] using ih hsame hi'

/-- What is left of a run that started during the execution. -/
theorem leads_madeBy_of_none {i : ℕ} {events : List (Event τ χ β)} :
    ∀ {P : Pool S ε α τ σ} {run : Run S ε α τ}, P.runs[i]? = none →
      (Y.exec P events).runs[i]? = some run →
        (Y.program run.task).Leads Y.handler (Y.madeBy i P events)
          run.program := by
  induction events with
  | nil =>
      intro P run hi hrun
      rw [exec_nil, hi] at hrun
      cases hrun
  | cons e events ih =>
      intro P run hi hrun
      cases e with
      | start t =>
          by_cases hlen : P.runs.length = i
          · subst hlen
            have hstarted : (Y.apply P (.start t)).runs[P.runs.length]? =
                some ⟨t, Y.program t⟩ := List.getElem?_concat_length
            have htask : run.task = t := by
              have hworks := Y.worksOn_exec ⟨_, hstarted, rfl⟩ events
              exact Pool.WorksOn.unique ⟨run, hrun, rfl⟩ hworks
            rw [htask]
            exact Y.leads_madeBy hstarted hrun
          · refine ih (P := Y.apply P (.start t)) ?_ hrun
            rw [List.getElem?_eq_none_iff] at hi ⊢
            simp only [apply, List.length_append, List.length_singleton]
            omega
      | background b => exact ih (P := Y.apply P (.background b)) hi hrun
      | step j x =>
          have hnone : (Y.apply P (.step j x)).runs[i]? = none := by
            have htasks := congrArg List.length (Y.tasks_apply_step P j x)
            rw [List.length_map, List.length_map] at htasks
            rw [List.getElem?_eq_none_iff, htasks]
            exact List.getElem?_eq_none_iff.mp hi
          have hquiet : Y.madeBy i P (.step j x :: events) =
              Y.madeBy i (Y.apply P (.step j x)) events := by
            simp [madeBy, hi]
          rw [hquiet]
          exact ih hnone hrun

/-- The runs work on what was started, in that order. -/
theorem tasks_exec (P : Pool S ε α τ σ) (events : List (Event τ χ β)) :
    (Y.exec P events).runs.map Run.task =
      P.runs.map Run.task ++ events.filterMap Event.started? := by
  induction events generalizing P with
  | nil => simp
  | cons e events ih =>
      rw [exec_cons, ih]
      cases e with
      | start t => simp [apply, Event.started?]
      | step i x =>
          rw [Y.tasks_apply_step]
          rfl
      | background b => rfl

/-- A run that was not there at the start was started by an event. -/
theorem start_mem_of_run {i : ℕ} {P : Pool S ε α τ σ}
    {events : List (Event τ χ β)} {run : Run S ε α τ}
    (hnone : P.runs[i]? = none) (hrun : (Y.exec P events).runs[i]? = some run) :
    .start run.task ∈ events := by
  have htask := congrArg (·[i]?) (Y.tasks_exec P events)
  rw [List.getElem?_eq_none_iff] at hnone
  simp only [List.getElem?_map, hrun, Option.map_some] at htask
  rw [List.getElem?_append_right (by simpa using hnone)] at htask
  obtain ⟨e, he, hstarted⟩ :=
    List.mem_filterMap.mp (List.mem_of_getElem? htask.symm)
  cases e with
  | start t =>
      cases hstarted
      exact he
  | step i x => cases hstarted
  | background b => cases hstarted

/-- The state after the step of a run is that of the call it makes. -/
theorem state_apply_step {P : Pool S ε α τ σ} {i : ℕ} {t : τ} {c : S.Call}
    (h : P.Makes i t c) (x : χ) :
    (Y.apply P (.step i x)).state = (Y.handler x c P.state).2 := by
  obtain ⟨run, hi, -, hc⟩ := h
  rw [Y.apply_step_some x hi]
  cases hp : run.program with
  | done a =>
      rw [hp] at hc
      cases hc
  | fail e =>
      rw [hp] at hc
      cases hc
  | call c' k =>
      rw [hp] at hc
      cases hc
      rfl

/-- A run that makes no step makes no call. -/
theorem madeBy_of_no_step {i : ℕ} {events : List (Event τ χ β)}
    (h : ∀ x, .step i x ∉ events) : ∀ (P : Pool S ε α τ σ),
      Y.madeBy i P events = [] := by
  induction events with
  | nil => exact fun _ => rfl
  | cons e events ih =>
      intro P
      have hrest := ih (fun x hx => h x (List.mem_cons_of_mem _ hx))
        (Y.apply P e)
      cases e with
      | start t => exact hrest
      | background b => exact hrest
      | step j x =>
          have hji : j ≠ i := fun hji => h x (hji ▸ List.mem_cons_self)
          simpa [madeBy, hji] using hrest

end System

end Interaction
