import WebhookBroadcast.Interaction.Sum

/-!
# Components of larger systems

A program is verified under the discipline of the component that it belongs to.
`Extends` says when a discipline on a larger signature and a larger state leaves
that of a component intact; what the program ensures in the component, it then
ensures in the larger system.
-/

namespace Interaction

variable {S T : Signature} {ε α β χ χ' σ σ' : Type}

/-- Seen through `get`, the larger discipline asks of the calls of the component
what the discipline of the component asks, and promises them as much. -/
structure Discipline.Extends (D : Discipline S χ σ)
    (E : Discipline (S.sum T) χ' σ') (choice : χ' → χ) (get : σ' → σ) :
    Prop where
  answer : ∀ x c s, (E.handler x (.inl c) s).1 =
    (D.handler (choice x) c (get s)).1
  state : ∀ x c s, get (E.handler x (.inl c) s).2 =
    (D.handler (choice x) c (get s)).2
  permits : ∀ s c x, E.permits s (.inl c) x → D.permits (get s) c (choice x)
  invariant : ∀ s, E.invariant s → D.invariant (get s)
  rely : ∀ s t, E.rely s t → D.rely (get s) (get t)
  keeps : ∀ x c s, E.invariant s →
    D.invariant (get (E.handler x (.inl c) s).2) →
    D.guarantee (get s) (get (E.handler x (.inl c) s).2) →
      E.invariant (E.handler x (.inl c) s).2 ∧
        E.guarantee s (E.handler x (.inl c) s).2

namespace Discipline.Extends

variable {D : Discipline S χ σ} {E : Discipline (S.sum T) χ' σ'}
  {choice : χ' → χ} {get : σ' → σ} {post : Except ε α → σ → Prop}

theorem interferes (h : D.Extends E choice get) {s t : σ'}
    (hst : E.Interferes s t) : D.Interferes (get s) (get t) := by
  induction hst with
  | refl => exact .refl _
  | tail _ hstep ih =>
      exact ih.trans (Relation.ReflTransGen.single (h.rely _ _ hstep))

/-- A component does its part in the larger system. -/
theorem ensures (h : D.Extends E choice get) {p : Program S ε α} :
    ∀ {s : σ'}, D.Ensures post p (get s) →
      E.Ensures (fun r t => post r (get t)) p.inl s := by
  induction p with
  | done a => exact fun hp t hst => hp (get t) (h.interferes hst)
  | fail e => exact fun hp t hst => hp (get t) (h.interferes hst)
  | call c k ih =>
      intro s hp t hst ht x hx
      obtain ⟨hinv, hguarantee, hk⟩ := hp (get t) (h.interferes hst)
        (h.invariant t ht) (choice x) (h.permits t c x hx)
      rw [← h.state] at hinv hguarantee hk
      obtain ⟨hinv, hguarantee⟩ := h.keeps x c t ht hinv hguarantee
      refine ⟨hinv, hguarantee, ih _ ?_⟩
      rw [h.answer]
      exact hk

end Discipline.Extends

/-! ## Conditions on the calls of a program -/

namespace Program

variable {φ : S.Call → Prop}

theorem EveryCall.seq {p : Program S ε α} {f : α → Program S ε β}
    (hp : p.EveryCall fun c _ => φ c)
    (hf : ∀ a, (f a).EveryCall fun c _ => φ c) :
    (p >>= f).EveryCall fun c _ => φ c :=
  EveryCall.bind (fun _ _ h => h) (fun a _ => hf a) hp EveryEnd.trivial

theorem EveryCall.settle {p : Program S ε α}
    (hp : p.EveryCall fun c _ => φ c) :
    p.settle.EveryCall fun c _ => φ c := by
  induction p with
  | done a => trivial
  | fail e => trivial
  | call c k ih => exact ⟨hp.1, fun a => ih a (hp.2 a)⟩

theorem EveryCall.all {ps : List (Program S ε Unit)}
    (hps : ∀ p ∈ ps, p.EveryCall fun c _ => φ c) :
    (Program.all ps).EveryCall fun c _ => φ c := by
  induction ps with
  | nil => trivial
  | cons p ps ih =>
      refine (hps p List.mem_cons_self).settle.seq fun first => ?_
      refine (ih fun q hq =>
        hps q (List.mem_cons_of_mem _ hq)).settle.seq fun rest => ?_
      cases (first >>= fun _ => rest) <;> trivial

theorem EveryCall.inl {φ : (S.sum T).Call → Prop} {p : Program S ε α}
    (hp : p.EveryCall fun c _ => φ (.inl c)) :
    p.inl.EveryCall fun c _ => φ c := by
  induction p with
  | done a => trivial
  | fail e => trivial
  | call c k ih => exact ⟨hp.1, fun a => ih a (hp.2 a)⟩

end Program

end Interaction
