import Mathlib.Data.List.Induction
import WebhookBroadcast.Interaction.Interleaving

/-!
# Rely and guarantee for programs

A discipline says which changes of the shared state a run must tolerate between
its calls (the rely), which changes its own calls may make (the guarantee), an
invariant that holds at every call, and which choices of the environment are
permitted.  `Ensures` is the corresponding judgement on a program at a state.
It has a rule for each constructor and one for sequencing, so that a function
is verified once and its callers use the result.

The soundness theorem moves the judgement to pools: if every task ensures its
postcondition under a discipline whose rely contains its own guarantee and all
background changes, then in every execution every step is a guaranteed change
and every ended run satisfies the postcondition.
-/

namespace Interaction

variable {S : Signature} {ε α γ τ χ β σ : Type}

/-- What holds between a run and the rest of the system. -/
structure Discipline (S : Signature) (χ σ : Type) where
  handler : Handler S χ σ
  permits : σ → (c : S.Call) → χ → Prop
  invariant : σ → Prop
  rely : σ → σ → Prop
  guarantee : σ → σ → Prop

namespace Discipline

variable (D : Discipline S χ σ)

/-- Any number of changes that the rely allows. -/
def Interferes : σ → σ → Prop := Relation.ReflTransGen D.rely

variable {D} in
theorem Interferes.refl (s : σ) : D.Interferes s s :=
  Relation.ReflTransGen.refl

variable {D} in
theorem Interferes.trans {s t u : σ}
    (hst : D.Interferes s t) (htu : D.Interferes t u) : D.Interferes s u :=
  Relation.ReflTransGen.trans hst htu

variable {D} in
/-- A fact preserved by one change of the rely survives interference. -/
theorem Interferes.preserves {fact : σ → Prop}
    (hfact : ∀ s t, D.rely s t → fact s → fact t)
    {s t : σ} (hst : D.Interferes s t) (hs : fact s) : fact t := by
  induction hst with
  | refl => exact hs
  | tail _ hstep ih => exact hfact _ _ hstep ih

/-- From state `s` on, every call of the program keeps the invariant and the
guarantee, and the way it ends satisfies `post`, under any interference that
the rely allows. -/
def Ensures (post : Except ε α → σ → Prop) : Program S ε α → σ → Prop
  | .done a, s => ∀ t, D.Interferes s t → post (.ok a) t
  | .fail e, s => ∀ t, D.Interferes s t → post (.error e) t
  | .call c k, s => ∀ t, D.Interferes s t → D.invariant t →
      ∀ x, D.permits t c x →
        D.invariant (D.handler x c t).2 ∧
        D.guarantee t (D.handler x c t).2 ∧
        Ensures post (k (D.handler x c t).1) (D.handler x c t).2

variable {D}
variable {post : Except ε α → σ → Prop}

theorem Ensures.interfere {p : Program S ε α} {s t : σ}
    (hp : D.Ensures post p s) (hst : D.Interferes s t) :
    D.Ensures post p t := by
  cases p with
  | done a => exact fun u htu => hp u (hst.trans htu)
  | fail e => exact fun u htu => hp u (hst.trans htu)
  | call c k => exact fun u htu => hp u (hst.trans htu)

theorem Ensures.consequence {weaker : Except ε α → σ → Prop}
    (hpost : ∀ r s, post r s → weaker r s) {p : Program S ε α} :
    ∀ {s : σ}, D.Ensures post p s → D.Ensures weaker p s := by
  induction p with
  | done a => exact fun hp t hst => hpost _ _ (hp t hst)
  | fail e => exact fun hp t hst => hpost _ _ (hp t hst)
  | call c k ih =>
      intro s hp t hst ht x hx
      obtain ⟨hinv, hguar, hk⟩ := hp t hst ht x hx
      exact ⟨hinv, hguar, ih _ hk⟩

/-- Sequencing: the postcondition of the first program is the precondition of
the second; an error of the first is an error of the whole. -/
theorem Ensures.bind {mid : Except ε α → σ → Prop}
    {final : Except ε γ → σ → Prop} {f : α → Program S ε γ}
    {p : Program S ε α}
    (hok : ∀ a s, mid (.ok a) s → D.Ensures final (f a) s)
    (herror : ∀ e s, mid (.error e) s → final (.error e) s) :
    ∀ {s : σ}, D.Ensures mid p s → D.Ensures final (p >>= f) s := by
  induction p with
  | done a => exact fun hp => hok a _ (hp _ (Interferes.refl _))
  | fail e => exact fun hp t hst => herror e t (hp t hst)
  | call c k ih =>
      intro s hp t hst ht x hx
      obtain ⟨hinv, hguar, hk⟩ := hp t hst ht x hx
      exact ⟨hinv, hguar, ih _ hk⟩

/-- Framing: a fact that neither the rely nor the guarantee disturbs still
holds when the program ends. -/
theorem Ensures.frame {fact : σ → Prop}
    (hrely : ∀ s t, D.rely s t → fact s → fact t)
    (hguarantee : ∀ s t, D.guarantee s t → fact s → fact t)
    {p : Program S ε α} :
    ∀ {s : σ}, D.Ensures post p s → fact s →
      D.Ensures (fun r t => post r t ∧ fact t) p s := by
  induction p with
  | done a => exact fun hp hs t hst => ⟨hp t hst, hst.preserves hrely hs⟩
  | fail e => exact fun hp hs t hst => ⟨hp t hst, hst.preserves hrely hs⟩
  | call c k ih =>
      intro s hp hs t hst ht x hx
      obtain ⟨hinv, hguar, hk⟩ := hp t hst ht x hx
      have hfact := hguarantee _ _ hguar (hst.preserves hrely hs)
      exact ⟨hinv, hguar, ih _ hk hfact⟩

/-- A program each of whose calls keeps the invariant and the guarantee by
itself needs no verification of its control flow.  What its calls and the rely
preserve holds when it ends, and it ends in one of its ends. -/
theorem Ensures.of_everyCall {fact : σ → Prop} {ends : Except ε α → Prop}
    (hrely : ∀ s t, D.rely s t → fact s → fact t) {p : Program S ε α} :
    ∀ {s : σ}, p.EveryCall (fun c _ => ∀ s x, D.invariant s →
        D.permits s c x → fact s → D.invariant (D.handler x c s).2 ∧
          D.guarantee s (D.handler x c s).2 ∧ fact (D.handler x c s).2) →
      p.EveryEnd ends → fact s →
      D.Ensures (fun r t => ends r ∧ fact t) p s := by
  induction p with
  | done a => exact fun _ hend hs t hst => ⟨hend, hst.preserves hrely hs⟩
  | fail e => exact fun _ hend hs t hst => ⟨hend, hst.preserves hrely hs⟩
  | call c k ih =>
      intro s hp hend hs t hst ht x hx
      obtain ⟨hinv, hguar, hfact⟩ :=
        hp.1 t x ht hx (hst.preserves hrely hs)
      exact ⟨hinv, hguar, ih _ (hp.2 _) (hend _) hfact⟩

/-- One step of a program that ensures `post`: the invariant is kept, the
change of state is guaranteed, and the rest still ensures `post`. -/
theorem Ensures.advance {p : Program S ε α} {s : σ}
    (hp : D.Ensures post p s) (hs : D.invariant s) {x : χ}
    (hx : ∀ c k, p = .call c k → D.permits s c x) :
    D.invariant (p.advance D.handler x s).2 ∧
      ((p.advance D.handler x s).2 = s ∨
        D.guarantee s (p.advance D.handler x s).2) ∧
      D.Ensures post (p.advance D.handler x s).1
        (p.advance D.handler x s).2 := by
  cases p with
  | done a => exact ⟨hs, Or.inl rfl, hp⟩
  | fail e => exact ⟨hs, Or.inl rfl, hp⟩
  | call c k =>
      obtain ⟨hinv, hguar, hk⟩ :=
        hp s (Interferes.refl s) hs x (hx c k rfl)
      exact ⟨hinv, Or.inr hguar, hk⟩

/-- A program that has ended satisfies its postcondition. -/
theorem Ensures.of_result? {p : Program S ε α} {s : σ}
    (hp : D.Ensures post p s) {r : Except ε α} (hr : p.result? = some r) :
    post r s := by
  cases p with
  | done a =>
      cases hr
      exact hp s (Interferes.refl s)
  | fail e =>
      cases hr
      exact hp s (Interferes.refl s)
  | call c k => cases hr

theorem Ensures.settle {p : Program S ε α} :
    ∀ {s : σ}, D.Ensures post p s →
      D.Ensures (fun r t => ∃ settled, r = .ok settled ∧ post settled t)
        p.settle s := by
  induction p with
  | done a => exact fun hp t hst => ⟨_, rfl, hp t hst⟩
  | fail e => exact fun hp t hst => ⟨_, rfl, hp t hst⟩
  | call c k ih =>
      intro s hp t hst ht x hx
      obtain ⟨hinv, hguar, hk⟩ := hp t hst ht x hx
      exact ⟨hinv, hguar, ih _ hk⟩

/-- What each program of a list preserves, and the rely as well, running all of
them preserves. -/
theorem Ensures.all {fact : σ → Prop}
    (hrely : ∀ s t, D.rely s t → fact s → fact t)
    {ps : List (Program S ε Unit)}
    (hps : ∀ p ∈ ps, ∀ s, fact s → D.Ensures (fun _ t => fact t) p s) :
    ∀ {s : σ}, fact s → D.Ensures (fun _ t => fact t) (Program.all ps) s := by
  induction ps with
  | nil => exact fun hs t hst => hst.preserves hrely hs
  | cons p ps ih =>
      intro s hs
      refine Ensures.bind ?_ ?_ (hps p (by simp) s hs).settle
      · rintro first t ⟨_, _, ht⟩
        refine Ensures.bind ?_ ?_
          (ih (fun q hq => hps q (by simp [hq])) ht).settle
        · rintro rest u ⟨_, _, hu⟩
          cases (first >>= fun _ => rest) with
          | ok _ => exact fun v huv => huv.preserves hrely hu
          | error _ => exact fun v huv => huv.preserves hrely hu
        · rintro e u ⟨_, h, _⟩
          cases h
      · rintro e t ⟨_, h, _⟩
        cases h

/-! ### Without interference -/

/-- The discipline of a run that nobody interferes with, under assumptions on
what the environment chooses. -/
def alone (h : Handler S χ σ) (permits : σ → (c : S.Call) → χ → Prop) :
    Discipline S χ σ where
  handler := h
  permits := permits
  invariant := fun _ => True
  rely := fun _ _ => False
  guarantee := fun _ _ => True

section Alone

variable {h : Handler S χ σ} {permits : σ → (c : S.Call) → χ → Prop}

theorem interferes_alone_iff {s t : σ} :
    (alone h permits).Interferes s t ↔ t = s := by
  constructor
  · intro hst
    induction hst with
    | refl => rfl
    | tail _ hstep _ => exact hstep.elim
  · rintro rfl
    exact .refl t

theorem ensures_alone_done {a : α} {s : σ} :
    (alone h permits).Ensures post (.done a) s ↔ post (.ok a) s := by
  simp [Ensures, interferes_alone_iff]

theorem ensures_alone_fail {e : ε} {s : σ} :
    (alone h permits).Ensures post (.fail e : Program S ε α) s ↔
      post (.error e) s := by
  simp [Ensures, interferes_alone_iff]

theorem ensures_alone_call {c : S.Call} {k : S.Answer c → Program S ε α}
    {s : σ} :
    (alone h permits).Ensures post (.call c k) s ↔
      ∀ x, permits s c x →
        (alone h permits).Ensures post (k (h x c s).1) (h x c s).2 := by
  constructor
  · intro hp x hx
    exact (hp s (.refl s) trivial x hx).2.2
  · intro hp t hst _ x hx
    rw [interferes_alone_iff] at hst
    subst hst
    exact ⟨trivial, trivial, hp x hx⟩

end Alone

variable (D) in
/-- Every choice along the evaluation of a program is one that the discipline
permits. -/
def Permits (choices : ℕ → χ) : ℕ → Program S ε α → σ → Prop
  | _, .done _, _ => True
  | _, .fail _, _ => True
  | i, .call c k, s =>
      D.permits s c (choices i) ∧
        Permits choices (i + 1) (k (D.handler (choices i) c s).1)
          (D.handler (choices i) c s).2

theorem Permits.call {choices : ℕ → χ} {i : ℕ} {c : S.Call}
    {k : S.Answer c → Program S ε α} {s : σ} (h : D.permits s c (choices i))
    (hk : D.Permits choices (i + 1) (k (D.handler (choices i) c s).1)
      (D.handler (choices i) c s).2) :
    D.Permits choices i (.call c k) s := ⟨h, hk⟩

/-- An evaluation that makes permitted choices ends as the judgement says. -/
theorem Ensures.eval {choices : ℕ → χ} {p : Program S ε α} :
    ∀ {i : ℕ} {s : σ}, D.Ensures post p s → D.invariant s →
      D.Permits choices i p s →
      post (p.eval D.handler choices i s).1
        (p.eval D.handler choices i s).2 := by
  induction p with
  | done a => exact fun hp _ _ => hp _ (Interferes.refl _)
  | fail e => exact fun hp _ _ => hp _ (Interferes.refl _)
  | call c k ih =>
      intro i s hp hs hx
      obtain ⟨hinv, _, hk⟩ := hp s (Interferes.refl s) hs _ hx.1
      exact ih _ hk hinv hx.2

variable (D) in
/-- The event is one that the discipline provides for. -/
def Admits (startable : τ → Prop) (occurs : β → Prop)
    (P : Pool S ε α τ σ) : Event τ χ β → Prop
  | .start t => startable t
  | .step i x => ∀ run c k, P.runs[i]? = some run →
      run.program = .call c k → D.permits P.state c x
  | .background b => occurs b

end Discipline

/-! ## Soundness for pools -/

namespace System

variable (Y : System S ε α τ χ β σ) (D : Discipline S χ σ)

/-- The tasks that may start and the background changes that may occur keep
the discipline. -/
structure Upholds (post : τ → Except ε α → σ → Prop)
    (startable : τ → Prop) (occurs : β → Prop) : Prop where
  handler_eq : D.handler = Y.handler
  program_ensures : ∀ t, startable t →
    ∀ s, D.Ensures (post t) (Y.program t) s
  guarantee_rely : ∀ s t, D.guarantee s t → D.rely s t
  background_invariant : ∀ b s, occurs b → D.invariant s →
    D.invariant (Y.background b s)
  background_rely : ∀ b s, occurs b → D.invariant s →
    D.rely s (Y.background b s)

/-- Every event of the execution is admissible where it happens. -/
def AdmissibleRun (startable : τ → Prop) (occurs : β → Prop)
    (P : Pool S ε α τ σ) (events : List (Event τ χ β)) : Prop :=
  ∀ before e after, events = before ++ e :: after →
    D.Admits startable occurs (Y.exec P before) e

/-- The invariant holds and every run ensures its postcondition. -/
structure Sound (post : τ → Except ε α → σ → Prop)
    (P : Pool S ε α τ σ) : Prop where
  invariant : D.invariant P.state
  ensures : ∀ run ∈ P.runs, D.Ensures (post run.task) run.program P.state

/-- The change of state that an event may cause. -/
def Transition : Event τ χ β → σ → σ → Prop
  | .start _, s, t => t = s
  | .step _ _, s, t => t = s ∨ D.guarantee s t
  | .background b, s, t => t = Y.background b s

variable {Y D}
variable {post : τ → Except ε α → σ → Prop}
  {startable : τ → Prop} {occurs : β → Prop}

theorem Sound.idle {s : σ} (hs : D.invariant s) :
    Sound D post (Pool.idle s : Pool S ε α τ σ) :=
  ⟨hs, by simp [Pool.idle]⟩

/-- One step of a run makes a guaranteed change, and every run still ensures
its postcondition afterwards. -/
theorem Upholds.step (hY : Y.Upholds D post startable occurs)
    {P : Pool S ε α τ σ} (hP : Sound D post P) {i : ℕ} {x : χ}
    (hx : D.Admits startable occurs P (.step i x)) :
    Sound D post (Y.apply P (.step i x)) ∧
      Y.Transition D (.step i x) P.state (Y.apply P (.step i x)).state := by
  cases hi : P.runs[i]? with
  | none =>
      rw [Y.apply_step_none x hi]
      exact ⟨hP, Or.inl rfl⟩
  | some run =>
      have hadvance := (hP.ensures run (List.mem_of_getElem? hi)).advance
        hP.invariant fun c k => hx run c k hi
      rw [hY.handler_eq] at hadvance
      obtain ⟨hinv, htrans, hrun⟩ := hadvance
      rw [Y.apply_step_some x hi]
      refine ⟨⟨hinv, ?_⟩, htrans⟩
      intro other hother
      rcases List.mem_or_eq_of_mem_set hother with hother | rfl
      · rcases htrans with hsame | hguar
        · rw [hsame]
          exact hP.ensures other hother
        · exact (hP.ensures other hother).interfere
            (Relation.ReflTransGen.single (hY.guarantee_rely _ _ hguar))
      · exact hrun

/-- The step lemma of soundness, for every kind of event. -/
theorem Upholds.apply (hY : Y.Upholds D post startable occurs)
    {P : Pool S ε α τ σ} (hP : Sound D post P) {e : Event τ χ β}
    (he : D.Admits startable occurs P e) :
    Sound D post (Y.apply P e) ∧
      Y.Transition D e P.state (Y.apply P e).state := by
  cases e with
  | start t =>
      refine ⟨⟨hP.invariant, ?_⟩, rfl⟩
      intro run hrun
      rcases List.mem_append.mp hrun with hrun | hrun
      · exact hP.ensures run hrun
      · rw [List.mem_singleton] at hrun
        subst hrun
        exact hY.program_ensures t he _
  | step i x => exact hY.step hP he
  | background b =>
      refine ⟨⟨hY.background_invariant b _ he hP.invariant, ?_⟩, rfl⟩
      intro run hrun
      exact (hP.ensures run hrun).interfere
        (Relation.ReflTransGen.single
          (hY.background_rely b _ he hP.invariant))

theorem AdmissibleRun.init {P : Pool S ε α τ σ}
    {events : List (Event τ χ β)} {e : Event τ χ β}
    (h : Y.AdmissibleRun D startable occurs P (events ++ [e])) :
    Y.AdmissibleRun D startable occurs P events := by
  intro before e' after heq
  exact h before e' (after ++ [e]) (by simp [heq])

theorem AdmissibleRun.last {P : Pool S ε α τ σ}
    {events : List (Event τ χ β)} {e : Event τ χ β}
    (h : Y.AdmissibleRun D startable occurs P (events ++ [e])) :
    D.Admits startable occurs (Y.exec P events) e :=
  h events e [] rfl

/-- Events that are admissible wherever they happen. -/
theorem AdmissibleRun.of_forall_mem {P : Pool S ε α τ σ}
    {events : List (Event τ χ β)}
    (h : ∀ e ∈ events, ∀ Q : Pool S ε α τ σ,
      D.Admits startable occurs Q e) :
    Y.AdmissibleRun D startable occurs P events := by
  intro before e after heq
  exact h e (by simp [heq]) _

/-- The run lemma: along an admissible execution the pool stays sound, and a
property of executions that each transition preserves holds of all of them. -/
theorem Upholds.exec_induction (hY : Y.Upholds D post startable occurs)
    {P : Pool S ε α τ σ} (hP : Sound D post P)
    {motive : List (Event τ χ β) → Prop} (nil : motive [])
    (concat : ∀ events e, Sound D post (Y.exec P events) →
      D.Admits startable occurs (Y.exec P events) e →
      Y.Transition D e (Y.exec P events).state
        (Y.exec P (events ++ [e])).state →
      motive events → motive (events ++ [e])) :
    ∀ events, Y.AdmissibleRun D startable occurs P events →
      Sound D post (Y.exec P events) ∧ motive events := by
  intro events
  induction events using List.reverseRecOn with
  | nil => exact fun _ => ⟨hP, nil⟩
  | append_singleton events e ih =>
      intro hrun
      obtain ⟨hsound, hmotive⟩ := ih hrun.init
      obtain ⟨hsound', htrans⟩ := hY.apply hsound hrun.last
      rw [← Y.exec_concat] at hsound' htrans
      exact ⟨hsound', concat events e hsound hrun.last htrans hmotive⟩

theorem Upholds.exec (hY : Y.Upholds D post startable occurs)
    {P : Pool S ε α τ σ} (hP : Sound D post P)
    {events : List (Event τ χ β)}
    (hrun : Y.AdmissibleRun D startable occurs P events) :
    Sound D post (Y.exec P events) :=
  (hY.exec_induction hP (motive := fun _ => True) trivial
    (fun _ _ _ _ _ _ => trivial) events hrun).1

/-- Every event changes the state in a way that the rely allows. -/
theorem Upholds.rely_of_transition (hY : Y.Upholds D post startable occurs)
    {P : Pool S ε α τ σ} (hP : Sound D post P) {e : Event τ χ β}
    (he : D.Admits startable occurs P e) {t : σ}
    (h : Y.Transition D e P.state t) : t = P.state ∨ D.rely P.state t := by
  cases e with
  | start task => exact Or.inl h
  | step i x =>
      rcases h with h | h
      · exact Or.inl h
      · exact Or.inr (hY.guarantee_rely _ _ h)
  | background b =>
      have ht : t = Y.background b P.state := h
      rw [ht]
      exact Or.inr (hY.background_rely b _ he hP.invariant)

/-- A fact that the rely preserves is never lost again. -/
theorem Upholds.exec_preserves (hY : Y.Upholds D post startable occurs)
    {P : Pool S ε α τ σ} (hP : Sound D post P) {motive : σ → Prop}
    (hrely : ∀ s t, D.rely s t → motive s → motive t) (h : motive P.state)
    {events : List (Event τ χ β)}
    (hrun : Y.AdmissibleRun D startable occurs P events) :
    motive (Y.exec P events).state := by
  refine (hY.exec_induction hP
    (motive := fun events => motive (Y.exec P events).state) h ?_
    events hrun).2
  intro before e hsound he htrans hbefore
  rcases hY.rely_of_transition hsound he htrans with hsame | hstep
  · rw [hsame]
    exact hbefore
  · exact hrely _ _ hstep hbefore

/-- A run that has ended satisfies its postcondition. -/
theorem Sound.ended {P : Pool S ε α τ σ} (hP : Sound D post P)
    {run : Run S ε α τ} (hrun : run ∈ P.runs) {r : Except ε α}
    (hr : run.program.result? = some r) : post run.task r P.state :=
  (hP.ensures run hrun).of_result? hr

end System

end Interaction
