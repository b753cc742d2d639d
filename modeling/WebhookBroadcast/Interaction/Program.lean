import Mathlib.Data.Nat.Notation
import Mathlib.Logic.Relation

/-!
# Programs that make calls

A program over a signature is the tree of everything it may still do: it
returns a value, throws an error, or makes one call and continues with the
answer.  Asynchronous code translates into this type statement by statement,
one call for every point at which something outside the code answers.

What a call does is not part of the program.  A handler gives each call its
answer and its effect on a state, as selected by a choice; the choice stands
for everything the environment is free to decide (a fault, a clock reading, a
remote reply).
-/

namespace Interaction

/-- The calls that a program may make, and the type of the answer to each. -/
structure Signature where
  Call : Type
  Answer : Call → Type

/-- A program over `S` that returns an `α` or throws an `ε`. -/
inductive Program (S : Signature) (ε α : Type) : Type where
  | done (a : α)
  | fail (e : ε)
  | call (c : S.Call) (k : S.Answer c → Program S ε α)

variable {S : Signature} {ε α β χ σ : Type}

namespace Program

/-- Run `p`, then continue with the value it returns. -/
def bind : Program S ε α → (α → Program S ε β) → Program S ε β
  | done a, f => f a
  | fail e, _ => fail e
  | call c k, f => call c fun a => (k a).bind f

instance : Monad (Program S ε) where
  pure := done
  bind := bind

@[simp] theorem done_bind (a : α) (f : α → Program S ε β) :
    (done a >>= f) = f a := rfl

@[simp] theorem call_bind (c : S.Call) (k : S.Answer c → Program S ε α)
    (f : α → Program S ε β) :
    (call c k >>= f) = call c fun a => k a >>= f := rfl

theorem bind_done (p : Program S ε α) : (p >>= done) = p := by
  induction p with
  | done a => rfl
  | fail e => rfl
  | call c k ih => exact congrArg (call c) (funext ih)

theorem bind_assoc {γ : Type} (p : Program S ε α) (f : α → Program S ε β)
    (g : β → Program S ε γ) :
    (p >>= f >>= g) = (p >>= fun a => f a >>= g) := by
  induction p with
  | done a => rfl
  | fail e => rfl
  | call c k ih => exact congrArg (call c) (funext ih)

/-- Run `p` and hand its outcome to a caller that catches the error. -/
def settle : Program S ε α → Program S ε (Except ε α)
  | done a => done (.ok a)
  | fail e => done (.error e)
  | call c k => call c fun a => (k a).settle

/-- Return a value or throw an error that is at hand. -/
def ofExcept : Except ε α → Program S ε α
  | .ok a => done a
  | .error e => fail e

/-- Run all programs of a list, the later ones also after an error, and throw
the first error. -/
def all : List (Program S ε Unit) → Program S ε Unit
  | [] => done ()
  | p :: ps => do
      let first ← p.settle
      let rest ← (all ps).settle
      ofExcept (first >>= fun _ => rest)

/-- How a program ended, if it has. -/
def result? : Program S ε α → Option (Except ε α)
  | done a => some (.ok a)
  | fail e => some (.error e)
  | call _ _ => none

/-- The call that a program makes next, if it has not ended. -/
def next? : Program S ε α → Option S.Call
  | done _ => none
  | fail _ => none
  | call c _ => some c

end Program

/-! ## Handlers -/

/-- The answer to a call and its effect on the state, for each choice that the
environment may make. -/
abbrev Handler (S : Signature) (χ σ : Type) :=
  χ → (c : S.Call) → σ → S.Answer c × σ

namespace Program

/-- Let a program make its next call.  An ended program stays as it is. -/
def advance (h : Handler S χ σ) (x : χ) :
    Program S ε α → σ → Program S ε α × σ
  | done a, s => (done a, s)
  | fail e, s => (fail e, s)
  | call c k, s => (k (h x c s).1, (h x c s).2)

/-- Run a program alone to its end.  The `i`-th call of the run is decided by
the `i`-th choice. -/
def eval (h : Handler S χ σ) (choices : ℕ → χ) :
    ℕ → Program S ε α → σ → Except ε α × σ
  | _, done a, s => (.ok a, s)
  | _, fail e, s => (.error e, s)
  | i, call c k, s =>
      eval h choices (i + 1) (k (h (choices i) c s).1) (h (choices i) c s).2

end Program

/-! ## Conditions on every call of a program -/

namespace Program

/-- Every call that the program can still make, with its continuation,
satisfies `φ`. -/
def EveryCall (φ : (c : S.Call) → (S.Answer c → Program S ε α) → Prop) :
    Program S ε α → Prop
  | done _ => True
  | fail _ => True
  | call c k => φ c k ∧ ∀ a, (k a).EveryCall φ

theorem EveryCall.advance
    {φ : (c : S.Call) → (S.Answer c → Program S ε α) → Prop}
    {p : Program S ε α} (hp : p.EveryCall φ)
    (h : Handler S χ σ) (x : χ) (s : σ) :
    (p.advance h x s).1.EveryCall φ := by
  cases p with
  | done a => exact hp
  | fail e => exact hp
  | call c k => exact hp.2 _

theorem EveryCall.mono
    {φ ψ : (c : S.Call) → (S.Answer c → Program S ε α) → Prop}
    (h : ∀ c k, φ c k → ψ c k) :
    ∀ {p : Program S ε α}, p.EveryCall φ → p.EveryCall ψ
  | done _, _ => trivial
  | fail _, _ => trivial
  | call c k, hp => ⟨h c k hp.1, fun a => EveryCall.mono h (hp.2 a)⟩

/-! ## Conditions on every end of a program -/

/-- Every way in which the program can end satisfies `φ`. -/
def EveryEnd (φ : Except ε α → Prop) : Program S ε α → Prop
  | done a => φ (.ok a)
  | fail e => φ (.error e)
  | call _ k => ∀ a, (k a).EveryEnd φ

theorem EveryEnd.mono {φ ψ : Except ε α → Prop} (h : ∀ r, φ r → ψ r) :
    ∀ {p : Program S ε α}, p.EveryEnd φ → p.EveryEnd ψ
  | done _, hp => h _ hp
  | fail _, hp => h _ hp
  | call _ _, hp => fun a => EveryEnd.mono h (hp a)

theorem EveryEnd.bind {φ : Except ε α → Prop} {ψ : Except ε β → Prop}
    {f : α → Program S ε β} (hok : ∀ a, φ (.ok a) → (f a).EveryEnd ψ)
    (herror : ∀ e, φ (.error e) → ψ (.error e)) :
    ∀ {p : Program S ε α}, p.EveryEnd φ → (p >>= f).EveryEnd ψ
  | done a, hp => hok a hp
  | fail e, hp => herror e hp
  | call _ _, hp => fun a => EveryEnd.bind hok herror (hp a)

/-- What every end satisfies is satisfied by every end after each call. -/
theorem EveryCall.and_everyEnd
    {φ : (c : S.Call) → (S.Answer c → Program S ε α) → Prop}
    {ends : Except ε α → Prop} :
    ∀ {p : Program S ε α}, p.EveryCall φ → p.EveryEnd ends →
      p.EveryCall fun c k => φ c k ∧ ∀ a, (k a).EveryEnd ends
  | done _, _, _ => True.intro
  | fail _, _, _ => True.intro
  | call _ _, hp, hend =>
      ⟨⟨hp.1, hend⟩, fun a => (hp.2 a).and_everyEnd (hend a)⟩

/-- A sequence makes the calls of its parts; of the second part only those
after a value that the first can return. -/
theorem EveryCall.bind
    {φ : (c : S.Call) → (S.Answer c → Program S ε β) → Prop}
    {ψ : (c : S.Call) → (S.Answer c → Program S ε α) → Prop}
    {returned : Except ε α → Prop} {f : α → Program S ε β}
    (hψ : ∀ c k, ψ c k → φ c fun a => k a >>= f)
    (hf : ∀ a, returned (.ok a) → (f a).EveryCall φ) :
    ∀ {p : Program S ε α}, p.EveryCall ψ → p.EveryEnd returned →
      (p >>= f).EveryCall φ
  | done a, _, hend => hf a hend
  | fail _, _, _ => trivial
  | call c k, hp, hend =>
      ⟨hψ c k hp.1, fun a => EveryCall.bind hψ hf (hp.2 a) (hend a)⟩

theorem EveryEnd.trivial :
    ∀ {p : Program S ε α}, p.EveryEnd fun _ => True
  | done _ => True.intro
  | fail _ => True.intro
  | call _ _ => fun _ => EveryEnd.trivial

end Program

end Interaction
