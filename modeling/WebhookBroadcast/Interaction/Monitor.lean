import WebhookBroadcast.Interaction.Residue

/-!
# Monitors

A monitor follows the calls of a run and their answers with a state of its own,
and says in each state which calls are allowed.  `Accepts` is the judgement that
every run of a program makes allowed calls only and ends as a condition on the
monitor's state says; its rules follow the constructors of programs and
sequencing.  What is accepted is so in every interleaving.
-/

namespace Interaction

variable {S T : Signature} {ε α β χ χ' σ σ' μ : Type}

structure Monitor (S : Signature) (μ : Type) where
  next : (c : S.Call) → S.Answer c → μ → μ
  allows : μ → S.Call → Prop

namespace Monitor

variable (M : Monitor S μ)

/-- The monitor does not look at such calls. -/
def Ignores (c : S.Call) : Prop :=
  (∀ s, M.allows s c) ∧ ∀ a s, M.next c a s = s

/-- In this state the monitor allows the call and stays where it is. -/
def Passes (s : μ) (c : S.Call) : Prop :=
  M.allows s c ∧ ∀ a, M.next c a s = s

/-- The state of the monitor after these calls. -/
def after (h : Handler S χ σ) (s : μ) (trace : List (Made S χ σ)) : μ :=
  trace.foldl (fun s m => M.next m.call (h m.choice m.call m.found).1 s) s

/-- Every run of the program from this state of the monitor is allowed, and ends
in a state that satisfies `post`. -/
def Accepts (h : Handler S χ σ) (post : μ → Except ε α → Prop) :
    Program S ε α → μ → Prop
  | .done a, s => post s (.ok a)
  | .fail e, s => post s (.error e)
  | .call c k, s => M.allows s c ∧
      ∀ x t, Accepts h post (k (h x c t).1) (M.next c (h x c t).1 s)

variable {M} {h : Handler S χ σ} {post : μ → Except ε α → Prop}
  {p : Program S ε α} {s : μ}

theorem Accepts.consequence {weaker : μ → Except ε α → Prop}
    (hpost : ∀ s r, post s r → weaker s r) : ∀ {p : Program S ε α} {s : μ},
      M.Accepts h post p s → M.Accepts h weaker p s
  | .done _, _, hp => hpost _ _ hp
  | .fail _, _, hp => hpost _ _ hp
  | .call _ _, _, hp => ⟨hp.1, fun x t => (hp.2 x t).consequence hpost⟩

theorem Accepts.bind {mid : μ → Except ε α → Prop}
    {final : μ → Except ε β → Prop} {f : α → Program S ε β}
    (hok : ∀ a s, mid s (.ok a) → M.Accepts h final (f a) s)
    (herror : ∀ e s, mid s (.error e) → final s (.error e)) :
    ∀ {p : Program S ε α} {s : μ}, M.Accepts h mid p s →
      M.Accepts h final (p >>= f) s
  | .done a, s, hp => hok a s hp
  | .fail e, s, hp => herror e s hp
  | .call _ _, _, hp => ⟨hp.1, fun x t => (hp.2 x t).bind hok herror⟩

/-- Calls that are ignored leave the state as it is. -/
theorem accepts_of_amid {post : Except ε α → Prop} {p : Program S ε α}
    (hp : p.Amid h M.Ignores post) (s : μ) :
    M.Accepts h (fun t r => t = s ∧ post r) p s := by
  induction p with
  | done a => exact ⟨rfl, hp⟩
  | fail e => exact ⟨rfl, hp⟩
  | call c k ih =>
      obtain ⟨⟨hallows, hnext⟩, hk⟩ := hp
      refine ⟨hallows s, fun x t => ?_⟩
      rw [hnext]
      exact ih _ (hk x t)

/-- A program all of whose calls pass, and whose ends are all good. -/
theorem accepts_of_passes {good : Except ε α → Prop} {p : Program S ε α}
    (hcalls : p.EveryCall fun c _ => M.Passes s c) (hends : p.EveryEnd good) :
    M.Accepts h (fun t r => t = s ∧ good r) p s := by
  induction p with
  | done a => exact ⟨rfl, hends⟩
  | fail e => exact ⟨rfl, hends⟩
  | call c k ih =>
      obtain ⟨⟨hallows, hnext⟩, hk⟩ := hcalls
      refine ⟨hallows, fun x t => ?_⟩
      rw [hnext]
      exact ih _ (hk _) (hends _)

/-- A program all of whose calls are ignored, and whose ends are all good. -/
theorem accepts_of_every {good : Except ε α → Prop} {p : Program S ε α}
    (hcalls : p.EveryCall fun c _ => M.Ignores c) (hends : p.EveryEnd good)
    (s : μ) : M.Accepts h (fun t r => t = s ∧ good r) p s :=
  accepts_of_passes (hcalls.mono fun _ _ hc => ⟨hc.1 s, fun a => hc.2 a s⟩)
    hends

/-- A first part whose calls are all ignored. -/
theorem accepts_seq {post : μ → Except ε β → Prop} {f : α → Program S ε β}
    (hp : p.Amid h M.Ignores fun _ => True) (hf : ∀ a, M.Accepts h post (f a) s)
    (herror : ∀ e, post s (.error e)) : M.Accepts h post (p >>= f) s :=
  (accepts_of_amid hp s).bind (fun a _ ha => ha.1 ▸ hf a)
    fun e _ he => he.1 ▸ herror e

/-- A settled program hands over how it has ended. -/
theorem Accepts.settle : ∀ {p : Program S ε α} {s : μ}, M.Accepts h post p s →
    M.Accepts h (fun t (r : Except ε (Except ε α)) =>
      ∃ settled, r = .ok settled ∧ post t settled) p.settle s
  | .done _, _, hp => ⟨_, rfl, hp⟩
  | .fail _, _, hp => ⟨_, rfl, hp⟩
  | .call _ _, _, hp => ⟨hp.1, fun x t => (hp.2 x t).settle⟩

/-- What is left of an accepted run is accepted in the state that its calls have
led to. -/
theorem Accepts.leads {trace : List (Made S χ σ)} {q : Program S ε α}
    (hlead : p.Leads h trace q) : ∀ {s : μ}, M.Accepts h post p s →
      M.Accepts h post q (M.after h s trace) := by
  induction hlead with
  | nil p => exact fun hp => hp
  | cons x t hrest ih => exact fun hp => ih (hp.2 x t)

/-- The end of an accepted run. -/
theorem Accepts.result {trace : List (Made S χ σ)} {q : Program S ε α}
    (hp : M.Accepts h post p s) (hlead : p.Leads h trace q)
    {r : Except ε α} (hr : q.result? = some r) :
    post (M.after h s trace) r := by
  have hq := hp.leads hlead
  cases q with
  | done a =>
      cases hr
      exact hq
  | fail e =>
      cases hr
      exact hq
  | call c k => cases hr

/-! ## Larger signatures and states -/

/-- What a program is accepted for does not depend on what else there is in the
state. -/
theorem Accepts.within {choice : χ' → χ} {get : σ' → σ} {set : σ → σ' → σ'} :
    ∀ {p : Program S ε α} {s : μ}, M.Accepts h post p s →
      M.Accepts (h.within choice get set) post p s
  | .done _, _, hp => hp
  | .fail _, _, hp => hp
  | .call _ _, _, hp => ⟨hp.1, fun x t => (hp.2 (choice x) (get t)).within⟩

/-- The monitor among calls of two signatures. -/
def inl (M : Monitor S μ) : Monitor (S.sum T) μ where
  next
    | .inl c, a, s => M.next c a s
    | .inr _, _, s => s
  allows
    | s, .inl c => M.allows s c
    | _, .inr _ => True

theorem Accepts.inl {choice : χ' → χ} {get : σ' → σ} {set : σ → σ' → σ'}
    {g : Handler T χ' σ'} : ∀ {p : Program S ε α} {s : μ},
      M.Accepts h post p s →
        (M.inl (T := T)).Accepts (Handler.sum (h.within choice get set) g) post
          p.inl s
  | .done _, _, hp => hp
  | .fail _, _, hp => hp
  | .call _ _, _, hp => ⟨hp.1, fun x t => (hp.2 (choice x) (get t)).inl⟩

/-! ## Every run of an interleaving -/

section System

variable {τ : Type} {Y : System S ε α τ χ β σ} {P : Pool S ε α τ σ}
  {events : List (Event τ χ β)} {i : ℕ}

theorem result_of_exec
    (hacc : ∀ t, M.Accepts Y.handler post (Y.program t) s)
    (hnone : P.runs[i]? = none) {run : Run S ε α τ}
    (hrun : (Y.exec P events).runs[i]? = some run) {r : Except ε α}
    (hr : run.program.result? = some r) :
    post (M.after Y.handler s (Y.madeBy i P events)) r :=
  (hacc run.task).result (Y.leads_madeBy_of_none hnone hrun) hr

/-- The next call of a run is allowed in the state that its calls have led
to. -/
theorem allows_of_makes
    (hacc : ∀ t, M.Accepts Y.handler post (Y.program t) s)
    (hnone : P.runs[i]? = none) {t : τ} {c : S.Call}
    (hmakes : (Y.exec P events).Makes i t c) :
    M.allows (M.after Y.handler s (Y.madeBy i P events)) c := by
  obtain ⟨run, hrun, -, hc⟩ := hmakes
  have hleft := (hacc run.task).leads (Y.leads_madeBy_of_none hnone hrun)
  cases hp : run.program with
  | done a =>
      rw [hp] at hc
      cases hc
  | fail e =>
      rw [hp] at hc
      cases hc
  | call c' k =>
      rw [hp] at hc hleft
      cases hc
      exact hleft.1

variable (M s Y P) in
/-- The states of the monitor after an execution, run by run. -/
def along (events : List (Event τ χ β)) (i : ℕ) : μ :=
  M.after Y.handler s (Y.madeBy i P events)

end System

end Monitor

end Interaction
