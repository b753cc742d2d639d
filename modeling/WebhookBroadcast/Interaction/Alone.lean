import WebhookBroadcast.Interaction.Program

/-!
# Programs that run alone

The judgement on a program that nobody interferes with: from a state on,
whatever the environment chooses, it ends in a postcondition.  The rules follow
the constructors of programs and sequencing; `Always.eval` reads the
postcondition off an evaluation.
-/

namespace Interaction

variable {S : Signature} {ε α β χ σ : Type}

namespace Program

/-- Run alone from `s` under `h`, the program ends as `post` says. -/
def Always (h : Handler S χ σ) (post : Except ε α → σ → Prop) :
    Program S ε α → σ → Prop
  | done a, s => post (.ok a) s
  | fail e, s => post (.error e) s
  | call c k, s => ∀ x, Always h post (k (h x c s).1) (h x c s).2

variable {h : Handler S χ σ} {post : Except ε α → σ → Prop}

theorem Always.consequence {weaker : Except ε α → σ → Prop}
    (hpost : ∀ r s, post r s → weaker r s) {p : Program S ε α} :
    ∀ {s : σ}, p.Always h post s → p.Always h weaker s := by
  induction p with
  | done a => exact fun hp => hpost _ _ hp
  | fail e => exact fun hp => hpost _ _ hp
  | call c k ih => exact fun hp x => ih _ (hp x)

theorem Always.bind {mid : Except ε α → σ → Prop}
    {final : Except ε β → σ → Prop} {f : α → Program S ε β}
    {p : Program S ε α}
    (hok : ∀ a s, mid (.ok a) s → (f a).Always h final s)
    (herror : ∀ e s, mid (.error e) s → final (.error e) s) :
    ∀ {s : σ}, p.Always h mid s → (p >>= f).Always h final s := by
  induction p with
  | done a => exact fun hp => hok a _ hp
  | fail e => exact fun hp => herror e _ hp
  | call c k ih => exact fun hp x => ih _ (hp x)

/-- A fact that every call of the program preserves holds when it ends, and the
program ends in one of its ends. -/
theorem Always.of_everyCall {fact : σ → Prop} {ends : Except ε α → Prop}
    {p : Program S ε α} :
    ∀ {s : σ}, p.EveryCall (fun c _ => ∀ x t, fact t → fact (h x c t).2) →
      p.EveryEnd ends → fact s →
      p.Always h (fun r t => ends r ∧ fact t) s := by
  induction p with
  | done a => exact fun _ hend hs => ⟨hend, hs⟩
  | fail e => exact fun _ hend hs => ⟨hend, hs⟩
  | call c k ih =>
      exact fun hp hend hs x => ih _ (hp.2 _) (hend _) (hp.1 x _ hs)

/-- A relation that every call answers alike and keeps carries the judgement
from one state to the other. -/
theorem Always.transport {related : σ → σ → Prop}
    (hpost : ∀ r s t, related s t → post r s → post r t)
    {p : Program S ε α} :
    ∀ {s t : σ}, p.EveryCall (fun c _ => ∀ x s t, related s t →
        (h x c s).1 = (h x c t).1 ∧ related (h x c s).2 (h x c t).2) →
      related s t → p.Always h post s → p.Always h post t := by
  induction p with
  | done a => exact fun _ hst hp => hpost _ _ _ hst hp
  | fail e => exact fun _ hst hp => hpost _ _ _ hst hp
  | call c k ih =>
      intro s t hcalls hst hp x
      obtain ⟨hanswer, hnext⟩ := hcalls.1 x s t hst
      rw [← hanswer]
      exact ih _ (hcalls.2 _) hnext (hp x)

theorem always_trivial (p : Program S ε α) :
    ∀ s : σ, p.Always h (fun _ _ => True) s := by
  induction p with
  | done a => exact fun _ => trivial
  | fail e => exact fun _ => trivial
  | call c k ih => exact fun s x => ih _ _

/-- One step of a program that runs alone. -/
theorem Always.advance {p : Program S ε α} {s : σ} (hp : p.Always h post s)
    (x : χ) : (p.advance h x s).1.Always h post (p.advance h x s).2 := by
  cases p with
  | done a => exact hp
  | fail e => exact hp
  | call c k => exact hp x

theorem Always.of_result? {p : Program S ε α} {s : σ} (hp : p.Always h post s)
    {r : Except ε α} (hr : p.result? = some r) : post r s := by
  cases p with
  | done a =>
      cases hr
      exact hp
  | fail e =>
      cases hr
      exact hp
  | call c k => cases hr

theorem Always.eval {choices : ℕ → χ} {p : Program S ε α} :
    ∀ {i : ℕ} {s : σ}, p.Always h post s →
      post (p.eval h choices i s).1 (p.eval h choices i s).2 := by
  induction p with
  | done a => exact fun hp => hp
  | fail e => exact fun hp => hp
  | call c k ih => exact fun hp => ih _ (hp _)

/-- Two runs that begin alike end in related outcomes, when what follows is
related after everything that the common part can return. -/
theorem eval_bind_related {choices : ℕ → χ} {ends : Except ε α → Prop}
    {f g : α → Program S ε β} {R : Except ε β × σ → Except ε β × σ → Prop}
    (hok : ∀ a i s, ends (.ok a) →
      R ((f a).eval h choices i s) ((g a).eval h choices i s))
    (herror : ∀ e s, R (.error e, s) (.error e, s)) {p : Program S ε α} :
    ∀ {i : ℕ} {s : σ}, p.EveryEnd ends →
      R ((p >>= f).eval h choices i s) ((p >>= g).eval h choices i s) := by
  induction p with
  | done a => exact fun hp => hok a _ _ hp
  | fail e => exact fun _ => herror e _
  | call c k ih => exact fun hp => ih _ (hp _)

end Program

end Interaction
