import WebhookBroadcast.Interaction.RelyGuarantee

/-!
# Programs over two signatures

Code that makes the calls of two signatures is a program over their sum.  A
program over the first of them is such a program too; the embedding is a lift, so
that it can be used as a step of a larger `do` block.
-/

namespace Interaction

variable {S T : Signature} {ε α β χ σ : Type}

/-- The calls of either signature. -/
def Signature.sum (S T : Signature) : Signature where
  Call := S.Call ⊕ T.Call
  Answer := Sum.elim S.Answer T.Answer

/-- A handler for either signature on one state. -/
def Handler.sum (h : Handler S χ σ) (g : Handler T χ σ) :
    Handler (S.sum T) χ σ
  | x, .inl c, s => h x c s
  | x, .inr c, s => g x c s

/-- A handler on a part of a larger state, for choices that decide more. -/
def Handler.within {χ' σ' : Type} (h : Handler S χ σ) (choice : χ' → χ)
    (get : σ' → σ) (set : σ → σ' → σ') : Handler S χ' σ' :=
  fun x c s =>
    ((h (choice x) c (get s)).1, set (h (choice x) c (get s)).2 s)

namespace Program

/-- The same program, seen among calls of two signatures. -/
def inl : Program S ε α → Program (S.sum T) ε α
  | done a => done a
  | fail e => fail e
  | call c k => call (.inl c) fun a => (k a).inl

instance : MonadLift (Program S ε) (Program (S.sum T) ε) := ⟨inl⟩

@[simp] theorem inl_bind (p : Program S ε α) (f : α → Program S ε β) :
    (p >>= f).inl (T := T) = (p.inl >>= fun a => (f a).inl) := by
  induction p with
  | done a => rfl
  | fail e => rfl
  | call c k ih => exact congrArg (call (S := S.sum T) (.inl c)) (funext ih)

end Program

end Interaction
