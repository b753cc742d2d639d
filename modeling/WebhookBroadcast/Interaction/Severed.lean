import WebhookBroadcast.Interaction.Program

/-!
# Programs that lose a resource

A resource that is shut down while programs run answers no further calls.  A
severed program is one whose calls on the resource are answered by the shutdown
itself; a drained one may still finish the call that it has already made.
-/

namespace Interaction

variable {S : Signature} {ε α β : Type}

namespace Program

variable (cut : (c : S.Call) → Option (S.Answer c))

/-- The program when calls with an answer in `cut` get that answer without
being made. -/
def severed : Program S ε α → Program S ε α
  | done a => done a
  | fail e => fail e
  | call c k =>
      match cut c with
      | some a => severed (k a)
      | none => call c fun a => severed (k a)

/-- The program when only its current call is still made. -/
def drained : Program S ε α → Program S ε α
  | done a => done a
  | fail e => fail e
  | call c k => call c fun a => severed cut (k a)

variable {cut}

theorem severed_call_some {c : S.Call} {a : S.Answer c} (h : cut c = some a)
    (k : S.Answer c → Program S ε α) :
    (call c k).severed cut = (k a).severed cut := by
  rw [severed, h]

theorem severed_call_none {c : S.Call} (h : cut c = none)
    (k : S.Answer c → Program S ε α) :
    (call c k).severed cut = call c fun a => (k a).severed cut := by
  rw [severed, h]

theorem severed_bind (p : Program S ε α) (f : α → Program S ε β) :
    (p >>= f).severed cut = (p.severed cut >>= fun a => (f a).severed cut) := by
  induction p with
  | done a => rfl
  | fail e => rfl
  | call c k ih =>
      rw [call_bind]
      cases hc : cut c with
      | some a =>
          rw [severed_call_some hc, severed_call_some hc]
          exact ih a
      | none =>
          rw [severed_call_none hc, severed_call_none hc]
          exact congrArg (call c) (funext ih)

/-- A severed program makes only calls that are not cut. -/
theorem EveryCall.severed {φ : S.Call → Prop} {p : Program S ε α}
    (hp : p.EveryCall fun c _ => φ c) :
    (p.severed cut).EveryCall fun c _ => φ c ∧ cut c = none := by
  induction p with
  | done a => trivial
  | fail e => trivial
  | call c k ih =>
      cases hc : cut c with
      | some a =>
          rw [severed_call_some hc]
          exact ih a (hp.2 a)
      | none =>
          rw [severed_call_none hc]
          exact ⟨⟨hp.1, hc⟩, fun a => ih a (hp.2 a)⟩

/-- Severing adds no way to end. -/
theorem EveryEnd.severed {φ : Except ε α → Prop} {p : Program S ε α}
    (hp : p.EveryEnd φ) : (p.severed cut).EveryEnd φ := by
  induction p with
  | done a => exact hp
  | fail e => exact hp
  | call c k ih =>
      cases hc : cut c with
      | some a =>
          rw [severed_call_some hc]
          exact ih a (hp a)
      | none =>
          rw [severed_call_none hc]
          exact fun a => ih a (hp a)

theorem EveryCall.drained {φ : S.Call → Prop} {p : Program S ε α}
    (hp : p.EveryCall fun c _ => φ c) :
    (p.drained cut).EveryCall fun c _ => φ c := by
  cases p with
  | done a => trivial
  | fail e => trivial
  | call c k =>
      exact ⟨hp.1, fun a => EveryCall.mono (fun _ _ h => h.1) (hp.2 a).severed⟩

end Program

end Interaction
