import WebhookBroadcast.Interaction.Alone
import WebhookBroadcast.Interaction.Interleaving
import WebhookBroadcast.Interaction.Sum

/-!
# Programs in a changing world

A run that shares its state with others finds some state at each of its calls
and nothing ties these states to each other.  `Observes` lists the calls of such
a run with what each found.  `Amid` is the judgement that all of them, and every
end, satisfy a condition; its rules follow the constructors of programs and
sequencing.  The runs of an interleaving are runs of this kind.
-/

namespace Interaction

variable {S T : Signature} {ε α β χ σ : Type}

/-- A call that was made, what decided it, and the state that it found. -/
structure Made (S : Signature) (χ σ : Type) where
  call : S.Call
  choice : χ
  found : σ

/-- The same call among those of two signatures. -/
def Made.inl (m : Made S χ σ) : Made (S.sum T) χ σ :=
  ⟨.inl m.call, m.choice, m.found⟩

namespace Program

/-- The calls of a run to the end during which others change the state, before
the `i`-th call as `others i` says. -/
def callsAmid (h : Handler S χ σ) (others : ℕ → σ → σ) (choices : ℕ → χ) :
    ℕ → Program S ε α → σ → List (Made S χ σ)
  | _, done _, _ => []
  | _, fail _, _ => []
  | i, call c k, s =>
      let found := others i s
      ⟨c, choices i, found⟩ ::
        callsAmid h others choices (i + 1) (k (h (choices i) c found).1)
          (h (choices i) c found).2

/-- Some run of the program begins with these calls. -/
inductive Observes (h : Handler S χ σ) :
    Program S ε α → List (Made S χ σ) → Prop
  | nil (p : Program S ε α) : Observes h p []
  | cons {c : S.Call} {k : S.Answer c → Program S ε α} (x : χ) (s : σ)
      {rest : List (Made S χ σ)} (hrest : Observes h (k (h x c s).1) rest) :
      Observes h (call c k) (⟨c, x, s⟩ :: rest)

/-- Whatever states it finds, the program makes only calls that satisfy `φ`,
and ends as `post` says. -/
def Amid (h : Handler S χ σ) (φ : S.Call → Prop) (post : Except ε α → Prop) :
    Program S ε α → Prop
  | done a => post (.ok a)
  | fail e => post (.error e)
  | call c k => φ c ∧ ∀ x s, Amid h φ post (k (h x c s).1)

variable {h : Handler S χ σ} {φ : S.Call → Prop} {post : Except ε α → Prop}

theorem observes_callsAmid {others : ℕ → σ → σ} {choices : ℕ → χ}
    (p : Program S ε α) : ∀ (i : ℕ) (s : σ),
      p.Observes h (p.callsAmid h others choices i s) := by
  induction p with
  | done a => exact fun _ _ => .nil _
  | fail e => exact fun _ _ => .nil _
  | call c k ih => exact fun i s => .cons _ _ (ih _ _ _)

theorem Amid.observes {p : Program S ε α} (hp : p.Amid h φ post)
    {trace : List (Made S χ σ)} (htrace : p.Observes h trace) :
    ∀ m ∈ trace, φ m.call := by
  induction htrace with
  | nil p => simp
  | cons x s hrest ih =>
      intro m hm
      rcases List.mem_cons.mp hm with rfl | hm
      · exact hp.1
      · exact ih (hp.2 x s) m hm

/-- A run of a sequence is in its first part, or has left it with a value. -/
theorem Observes.of_bind {f : α → Program S ε β} {p : Program S ε α}
    (hp : p.Amid h φ post) {trace : List (Made S χ σ)}
    (htrace : (p >>= f).Observes h trace) :
    p.Observes h trace ∨ ∃ first a rest, trace = first ++ rest ∧
      p.Observes h first ∧ post (.ok a) ∧ (f a).Observes h rest := by
  induction p generalizing trace with
  | done a => exact Or.inr ⟨[], a, trace, rfl, .nil _, hp, htrace⟩
  | fail e =>
      have hfail : (fail e : Program S ε β).Observes h trace := htrace
      cases hfail
      exact Or.inl (.nil _)
  | call c k ih =>
      cases htrace with
      | nil _ => exact Or.inl (.nil _)
      | cons x s hrest =>
          rcases ih _ (hp.2 x s) hrest with
            hfirst | ⟨first, a, rest, rfl, hfirst, ha, hrest⟩
          · exact Or.inl (.cons x s hfirst)
          · exact Or.inr ⟨_ :: first, a, rest, rfl, .cons x s hfirst, ha, hrest⟩

theorem Amid.consequence {ψ : S.Call → Prop} {weaker : Except ε α → Prop}
    (hcalls : ∀ c, φ c → ψ c) (hpost : ∀ r, post r → weaker r)
    {p : Program S ε α} (hp : p.Amid h φ post) : p.Amid h ψ weaker := by
  induction p with
  | done a => exact hpost _ hp
  | fail e => exact hpost _ hp
  | call c k ih => exact ⟨hcalls c hp.1, fun x s => ih _ (hp.2 x s)⟩

theorem Amid.bind {mid : Except ε α → Prop} {final : Except ε β → Prop}
    {f : α → Program S ε β} (hok : ∀ a, mid (.ok a) → (f a).Amid h φ final)
    (herror : ∀ e, mid (.error e) → final (.error e))
    {p : Program S ε α} (hp : p.Amid h φ mid) :
    (p >>= f).Amid h φ final := by
  induction p with
  | done a => exact hok a hp
  | fail e => exact herror e hp
  | call c k ih => exact ⟨hp.1, fun x s => ih _ (hp.2 x s)⟩

/-- A sequence of which only the calls matter. -/
theorem Amid.seq {f : α → Program S ε β} {p : Program S ε α}
    (hp : p.Amid h φ fun _ => True) (hf : ∀ a, (f a).Amid h φ fun _ => True) :
    (p >>= f).Amid h φ fun _ => True :=
  hp.bind (fun a _ => hf a) fun _ _ => trivial

/-- Every call satisfies a condition when every call that the program can make
at all does. -/
theorem Amid.of_everyCall {p : Program S ε α}
    (hp : p.EveryCall fun c _ => φ c) : p.Amid h φ fun _ => True := by
  induction p with
  | done a => trivial
  | fail e => trivial
  | call c k ih => exact ⟨hp.1, fun x s => ih _ (hp.2 _)⟩

theorem amid_trivial (p : Program S ε α) :
    p.Amid h (fun _ => True) fun _ => True := by
  induction p with
  | done a => trivial
  | fail e => trivial
  | call c k ih => exact ⟨trivial, fun x s => ih _⟩

theorem Amid.settle {final : Except ε (Except ε α) → Prop}
    (hpost : ∀ r, post r → final (.ok r)) {p : Program S ε α}
    (hp : p.Amid h φ post) : p.settle.Amid h φ final := by
  induction p with
  | done a => exact hpost _ hp
  | fail e => exact hpost _ hp
  | call c k ih => exact ⟨hp.1, fun x s => ih _ (hp.2 x s)⟩

theorem amid_ofExcept {r : Except ε α} (hr : post r) :
    (ofExcept r : Program S ε α).Amid h φ post := by
  cases r with
  | ok a => exact hr
  | error e => exact hr

theorem Amid.all {ps : List (Program S ε Unit)}
    (hps : ∀ p ∈ ps, p.Amid h φ fun _ => True) :
    (Program.all ps).Amid h φ fun _ => True := by
  induction ps with
  | nil => trivial
  | cons p ps ih =>
      have hfirst : p.settle.Amid h φ fun _ => True :=
        (hps p (by simp)).settle fun _ _ => trivial
      have hrest : (Program.all ps).settle.Amid h φ fun _ => True :=
        (ih fun q hq => hps q (by simp [hq])).settle fun _ _ => trivial
      exact hfirst.seq fun _ => hrest.seq fun _ => amid_ofExcept trivial

/-- Alone, a program keeps a fact that all calls of its kind preserve. -/
theorem Amid.always {fact : σ → Prop}
    (hcalls : ∀ c, φ c → ∀ x s, fact s → fact (h x c s).2)
    {p : Program S ε α} : ∀ {s : σ}, p.Amid h φ post → fact s →
      p.Always h (fun r t => post r ∧ fact t) s := by
  induction p with
  | done a => exact fun hp hs => ⟨hp, hs⟩
  | fail e => exact fun hp hs => ⟨hp, hs⟩
  | call c k ih =>
      exact fun hp hs x => ih _ (hp.2 x _) (hcalls c hp.1 x _ hs)

/-- A program over the first of two signatures, where nothing is asked of its
calls. -/
theorem amid_inl {T : Signature} {g : Handler T χ σ}
    {φ : (S.sum T).Call → Prop} (hφ : ∀ c, φ (.inl c)) (p : Program S ε α) :
    p.inl.Amid (Handler.sum h g) φ fun _ => True := by
  induction p with
  | done a => trivial
  | fail e => trivial
  | call c k ih => exact ⟨hφ c, fun x s => ih _⟩

/-- A run that drops its result is a run. -/
theorem Observes.of_bind_done {f : α → β} {p : Program S ε α}
    {trace : List (Made S χ σ)}
    (htrace : (p >>= fun a => done (f a)).Observes h trace) :
    p.Observes h trace := by
  rcases htrace.of_bind (amid_trivial p) with
    hfirst | ⟨first, a, rest, rfl, hfirst, -, hrest⟩
  · exact hfirst
  · cases hrest
    rwa [List.append_nil]

/-- What a program over the first of two signatures observes. -/
theorem Observes.of_inl {T : Signature} {g : Handler T χ σ}
    {p : Program S ε α} {trace : List (Made (S.sum T) χ σ)}
    (htrace : p.inl.Observes (Handler.sum h g) trace) :
    ∃ calls, p.Observes h calls ∧ trace = calls.map Made.inl := by
  induction p generalizing trace with
  | done a =>
      cases htrace
      exact ⟨[], .nil _, rfl⟩
  | fail e =>
      cases htrace
      exact ⟨[], .nil _, rfl⟩
  | call c k ih =>
      cases htrace with
      | nil _ => exact ⟨[], .nil _, rfl⟩
      | cons x s hrest =>
          obtain ⟨calls, hcalls, rfl⟩ := ih _ hrest
          exact ⟨⟨c, x, s⟩ :: calls, .cons x s hcalls, rfl⟩

end Program

/-! ## The runs of an interleaving -/

namespace System

variable {τ : Type} (Y : System S ε α τ χ β σ)

/-- The calls that the run with this index makes in an execution. -/
def madeBy (i : ℕ) :
    Pool S ε α τ σ → List (Event τ χ β) → List (Made S χ σ)
  | _, [] => []
  | P, e :: events =>
      (match e with
        | .step j x =>
            if j = i then
              ((P.runs[i]?.bind fun run => run.program.next?).map fun c =>
                (⟨c, x, P.state⟩ : Made S χ σ)).toList
            else []
        | _ => []) ++ madeBy i (Y.apply P e) events

/-- The calls of a run are those of its program in a changing world. -/
theorem observes_madeBy {i : ℕ} {events : List (Event τ χ β)} :
    ∀ {P : Pool S ε α τ σ} {run : Run S ε α τ}, P.runs[i]? = some run →
      run.program.Observes Y.handler (Y.madeBy i P events) := by
  induction events with
  | nil => exact fun _ => .nil _
  | cons e events ih =>
      intro P run hi
      have hlt : i < P.runs.length := (List.getElem?_eq_some_iff.mp hi).1
      cases e with
      | start t => exact ih ((List.getElem?_append_left hlt).trans hi)
      | background b => exact ih (P := Y.apply P (.background b)) hi
      | step j x =>
          by_cases hji : j = i
          · subst hji
            have hnext := Y.apply_step_some x hi
            have hrest := ih (P := Y.apply P (.step j x)) (by
              rw [hnext]
              exact List.getElem?_set_self hlt)
            rw [madeBy, if_pos rfl, hi, Option.bind_some]
            cases hp : run.program with
            | done a =>
                rw [hp] at hrest
                exact hrest
            | fail e =>
                rw [hp] at hrest
                exact hrest
            | call c k =>
                rw [hp] at hrest
                exact .cons x P.state hrest
          · have hsame : (Y.apply P (.step j x)).runs[i]? = some run := by
              cases hj : P.runs[j]? with
              | none => rw [Y.apply_step_none x hj, hi]
              | some other =>
                  rw [Y.apply_step_some x hj, List.getElem?_set_ne hji, hi]
            simpa [madeBy, hji] using ih hsame

theorem madeBy_append (i : ℕ) (first second : List (Event τ χ β))
    (P : Pool S ε α τ σ) : Y.madeBy i P (first ++ second) =
      Y.madeBy i P first ++ Y.madeBy i (Y.exec P first) second := by
  induction first generalizing P with
  | nil => rfl
  | cons e events ih =>
      change _ ++ Y.madeBy i (Y.apply P e) (events ++ second) = _
      rw [ih, ← List.append_assoc]
      rfl

/-- A step of the run is its next call. -/
theorem madeBy_step {P : Pool S ε α τ σ} {i : ℕ} (x : χ)
    {run : Run S ε α τ} (hi : P.runs[i]? = some run) {c : S.Call}
    (hc : run.program.next? = some c) :
    Y.madeBy i P [.step i x] = [⟨c, x, P.state⟩] := by
  simp [madeBy, hi, hc]

/-- A call that a run has made is a step of the execution, and what it has
found is the state at that step. -/
theorem makes_of_mem_madeBy {i : ℕ} {events : List (Event τ χ β)}
    {m : Made S χ σ} : ∀ {P : Pool S ε α τ σ}, m ∈ Y.madeBy i P events →
      ∃ before after t, events = before ++ .step i m.choice :: after ∧
        (Y.exec P before).Makes i t m.call ∧
        m.found = (Y.exec P before).state := by
  induction events with
  | nil => exact fun h => absurd h List.not_mem_nil
  | cons e events ih =>
      intro P h
      rcases List.mem_append.mp h with h | h
      · cases e with
        | start t => simp at h
        | background b => simp at h
        | step j x =>
            dsimp only at h
            split at h
            next hji =>
              subst hji
              rw [Option.mem_toList, Option.map_eq_some_iff] at h
              obtain ⟨c, hc, rfl⟩ := h
              obtain ⟨run, hrun, hnext⟩ := Option.bind_eq_some_iff.mp hc
              exact ⟨[], events, run.task, rfl, ⟨run, hrun, rfl, hnext⟩, rfl⟩
            next => simp at h
      · obtain ⟨before, after, t, rfl, hmakes, hfound⟩ := ih h
        exact ⟨e :: before, after, t, rfl, hmakes, hfound⟩

/-- The calls of a run that starts during the execution are those of the
program of its task. -/
theorem observes_madeBy_of_none {i : ℕ} {events : List (Event τ χ β)} :
    ∀ {P : Pool S ε α τ σ}, P.runs[i]? = none →
      Y.madeBy i P events = [] ∨
        ∃ t, (Y.exec P events).WorksOn i t ∧
          (Y.program t).Observes Y.handler (Y.madeBy i P events) := by
  induction events with
  | nil => exact fun _ => Or.inl rfl
  | cons e events ih =>
      intro P hi
      cases e with
      | start t =>
          by_cases hlen : P.runs.length = i
          · subst hlen
            have hstarted : (Y.apply P (.start t)).runs[P.runs.length]? =
                some ⟨t, Y.program t⟩ := List.getElem?_concat_length
            exact Or.inr ⟨t, Y.worksOn_exec ⟨_, hstarted, rfl⟩ events,
              Y.observes_madeBy hstarted⟩
          · refine ih (P := Y.apply P (.start t)) ?_
            rw [List.getElem?_eq_none_iff] at hi ⊢
            simp only [apply, List.length_append, List.length_singleton]
            omega
      | background b => exact ih (P := Y.apply P (.background b)) hi
      | step j x =>
          have hnone : (Y.apply P (.step j x)).runs[i]? = none := by
            have htasks := congrArg List.length (Y.tasks_apply_step P j x)
            rw [List.length_map, List.length_map] at htasks
            rw [List.getElem?_eq_none_iff, htasks]
            exact List.getElem?_eq_none_iff.mp hi
          have hquiet : Y.madeBy i P (.step j x :: events) =
              Y.madeBy i (Y.apply P (.step j x)) events := by
            simp [madeBy, hi]
          rw [hquiet]
          exact ih hnone

variable {P : Pool S ε α τ σ} {before : List (Event τ χ β)} {i : ℕ} {t : τ}
  {c : S.Call}

/-- What a run has called before, and the call that it makes next, are calls of
its task. -/
theorem observes_makes (hnone : P.runs[i]? = none)
    (h : (Y.exec P before).Makes i t c) (x : χ) :
    (Y.program t).Observes Y.handler
      (Y.madeBy i P before ++ [⟨c, x, (Y.exec P before).state⟩]) := by
  obtain ⟨run, hi, htask, hc⟩ := h
  set events := before ++ [.step i x] with hevents
  have hmade : Y.madeBy i P events =
      Y.madeBy i P before ++ [⟨c, x, (Y.exec P before).state⟩] := by
    rw [hevents, madeBy_append, Y.madeBy_step x hi hc]
  have hcalls : Y.madeBy i P events = [] ∨
      ∃ t, (Y.exec P events).WorksOn i t ∧
        (Y.program t).Observes Y.handler (Y.madeBy i P events) :=
    Y.observes_madeBy_of_none hnone
  rw [← hmade]
  rcases hcalls with hempty | ⟨t', hworks, hobserves⟩
  · rw [hempty]
    exact .nil _
  · have hlast := Y.worksOn_append ⟨run, hi, htask⟩ [.step i x]
    rw [hlast.unique hworks]
    exact hobserves

/-- A call that a run makes is among its calls from then on. -/
theorem mem_madeBy_of_makes (h : (Y.exec P before).Makes i t c) (x : χ)
    (later : List (Event τ χ β)) :
    (⟨c, x, (Y.exec P before).state⟩ : Made S χ σ) ∈
      Y.madeBy i P (before ++ .step i x :: later) := by
  obtain ⟨run, hi, -, hc⟩ := h
  rw [← List.singleton_append, ← List.append_assoc, madeBy_append,
    madeBy_append, Y.madeBy_step x hi hc]
  exact List.mem_append_left _ (List.mem_append_right _ List.mem_cons_self)

end System

end Interaction
