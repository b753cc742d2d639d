import WebhookBroadcast.Interaction.RelyGuarantee
import WebhookBroadcast.Lifecycle.Refinement
import WebhookBroadcast.Worker.Calls

/-!
# The discipline of a Delivery

Rely and guarantee of the runs that work on one Delivery.  A run guarantees
that each of its calls is a worker step of the timeline or leaves it alone, and
it tolerates other workers, retention and, where the regime says so, operator
retries.

The functions of `processDelivery` are verified one by one.  What a run carries
through its stale read is `Behind`: it is stable under everything that may
happen, and it is all that `completeDelivery` needs.
-/

namespace WebhookBroadcast

open Interaction Timeline

/-! ## Calls that leave a Delivery alone -/

/-- No call of the program writes the Delivery. -/
def Quiet (deliveryId : Uuid) {α : Type} (p : Action α) : Prop :=
  p.EveryCall fun c _ => Call.writes c ≠ some deliveryId

namespace Quiet

variable {d : Uuid} {α : Type}

theorem of_makesOnly {kind : Call → Prop}
    (hkind : ∀ c, kind c → c.writes = none) {p : Action α}
    (hp : MakesOnly kind p) : Quiet d p := by
  refine Program.EveryCall.mono (fun c k hc => ?_) hp
  rw [hkind c hc]
  exact Option.some_ne_none d |>.symm

theorem now : Quiet d now := ⟨Option.some_ne_none d |>.symm, fun _ => trivial⟩

theorem computeBackoffDelayMs (input : BackoffInput) :
    Quiet d (computeBackoffDelayMs input) :=
  of_makesOnly (fun c hc => by rw [hc]; rfl)
    (MakesOnly.computeBackoffDelayMs input)

theorem dialEndpoint (dateParse : String → Option Instant)
    (deps : ProcessDeliveryDeps) (record : DeliveryForProcessing) :
    Quiet d (dialEndpoint dateParse deps record) :=
  of_makesOnly (fun _ => writes_of_dials) (MakesOnly.dialEndpoint _ _ _)

theorem maybeAutoDisableEndpoint (endpointId : Uuid)
    (autoDisableAfterMs : ℕ) (now : Instant) :
    Quiet d (maybeAutoDisableEndpoint endpointId autoDisableAfterMs now) :=
  of_makesOnly (fun _ => writes_of_onEndpoint)
    (MakesOnly.maybeAutoDisableEndpoint _ _ _)

/-- A run writes no Delivery but its own. -/
theorem of_shape {deliveryId : Uuid} (hne : deliveryId ≠ d) {capMs : ℕ}
    {p : Action Unit} (hp : p.EveryCall (Shape deliveryId capMs)) :
    Quiet d p := by
  refine Program.EveryCall.mono (fun c k hc => ?_) hp
  rcases writes_of_shape hc with h | h
  · rw [h]
    exact Option.some_ne_none d |>.symm
  · rw [h]
    exact fun heq => hne (Option.some.inj heq)

end Quiet

/-! ## The discipline -/

/-- What is known of the history of one Delivery: the Attempt budgets that its
workers use, whether operator retries occur, and whether the second statement
of a claim may find the row pending. -/
structure Regime where
  budgets : Set ℕ
  reopens : Prop
  misses : Prop

/-- The second statement of a claim is answered with a pending row. -/
def MissedClaim (deliveryId : Uuid) (w : World) (c : Call) (x : Choice) :
    Prop :=
  c = .query (.selectDeliveryStatus deliveryId) ∧ x.fault = none ∧
    selectDeliveryStatus w.db deliveryId = some .pending

namespace Regime

variable (R : Regime) (d : Uuid)

def discipline : Discipline Effects Choice World where
  handler := perform
  permits w c x := R.misses ∨ ¬ MissedClaim d w c x
  invariant w := w.db.Consistent d
  rely w w' :=
    Evolves R.budgets R.reopens (w.db.timeline? d) (w'.db.timeline? d)
  guarantee w w' := Change R.budgets (w.db.timeline? d) (w'.db.timeline? d)

/-- Without operator retries and missed claims, the Delivery is settled. -/
def Resolved (w : World) : Prop :=
  ¬ R.reopens → ¬ R.misses → Settled (w.db.timeline? d)

/-- A run that resolves leaves the Delivery resolved. -/
def resolves {α : Type} : Except Thrown α → World → Prop
  | .ok _, w => R.Resolved d w
  | .error _, _ => True

variable {R d} {α β : Type}

theorem Resolved.rely {w w' : World} (h : (R.discipline d).rely w w')
    (hw : R.Resolved d w) : R.Resolved d w' :=
  fun hreopens hmisses => (hw hreopens hmisses).evolves hreopens h

theorem Resolved.guarantee {w w' : World}
    (h : (R.discipline d).guarantee w w') (hw : R.Resolved d w) :
    R.Resolved d w' :=
  hw.rely (.change h)

theorem behind_rely {count : ℕ} {w w' : World}
    (h : (R.discipline d).rely w w') (hw : Behind count (w.db.timeline? d)) :
    Behind count (w'.db.timeline? d) :=
  hw.evolves h

theorem behind_guarantee {count : ℕ} {w w' : World}
    (h : (R.discipline d).guarantee w w')
    (hw : Behind count (w.db.timeline? d)) :
    Behind count (w'.db.timeline? d) :=
  behind_rely (R := R) (.change h) hw

/-- A quiet program keeps the discipline, whatever it computes. -/
theorem ensures_quiet {p : Action α} (hp : Quiet d p) (w : World) :
    (R.discipline d).Ensures (fun _ _ => True) p w := by
  have hcalls : p.EveryCall fun c _ => ∀ w x, (R.discipline d).invariant w →
      (R.discipline d).permits w c x → True →
      (R.discipline d).invariant (perform x c w).2 ∧
        (R.discipline d).guarantee w (perform x c w).2 ∧ True := by
    refine Program.EveryCall.mono (fun c k hc w' x hw' _ _ => ?_) hp
    obtain ⟨hrow, hlog⟩ := perform_frame hc x w'
    obtain ⟨hcons, hchange⟩ := hw'.frame hrow hlog R.budgets
    exact ⟨hcons, hchange, trivial⟩
  exact (Discipline.Ensures.of_everyCall (fun _ _ _ h => h) hcalls
    Program.EveryEnd.trivial trivial).consequence fun _ _ _ => trivial

/-- The rule for a statement whose rejection is handled. -/
theorem ensures_tryQuery {q : Query} {post : Except Thrown α → World → Prop}
    {f : Except DbError q.Result → Action α} {w : World}
    (hrun : ∀ t, (R.discipline d).Interferes w t → t.db.Consistent d →
      (q.run t.db).2.Consistent d ∧
        Change R.budgets (t.db.timeline? d) ((q.run t.db).2.timeline? d))
    (hok : ∀ t x, (R.discipline d).Interferes w t → t.db.Consistent d →
      (R.discipline d).permits t (.query q) x → x.fault = none →
      (R.discipline d).Ensures post (f (q.run t.db).1)
        { t with db := (q.run t.db).2 })
    (herror : ∀ t message,
      (R.discipline d).Ensures post (f (.error (.unavailable message))) t) :
    (R.discipline d).Ensures post (tryQuery q >>= f) w := by
  intro t hwt ht x hx
  obtain ⟨hcons, hchange⟩ := hrun t hwt ht
  rcases perform_query_cases x q t with ⟨h, hfault⟩ | ⟨message, h, hstate⟩
  · simp only [discipline, h]
    exact ⟨hcons, hchange, hok t x hwt ht hx hfault⟩
  · simp only [discipline, h]
    rcases hstate with hstate | hstate
    · simp only [hstate]
      exact ⟨ht, .stay _, herror _ message⟩
    · simp only [hstate]
      exact ⟨hcons, hchange, herror _ message⟩

/-- The rule for a statement whose rejection is thrown. -/
theorem ensures_query {q : Query} {post : Except Thrown α → World → Prop}
    {f : q.Result → Action α} {w : World}
    (hrun : ∀ t, (R.discipline d).Interferes w t → t.db.Consistent d →
      (q.run t.db).2.Consistent d ∧
        Change R.budgets (t.db.timeline? d) ((q.run t.db).2.timeline? d))
    (hok : ∀ t x result, (R.discipline d).Interferes w t →
      t.db.Consistent d → (R.discipline d).permits t (.query q) x →
      x.fault = none → (q.run t.db).1 = .ok result →
      (R.discipline d).Ensures post (f result)
        { t with db := (q.run t.db).2 })
    (herror : ∀ e t, post (.error e) t) :
    (R.discipline d).Ensures post (query q >>= f) w := by
  let settled : Except DbError q.Result → Action α := fun answer =>
    (match answer with
      | .ok result => Program.done result
      | .error e => Program.fail (.database e)) >>= f
  have hsettled : query q >>= f = tryQuery q >>= settled := by
    simp only [query, tryQuery, Program.call_bind, Program.done_bind]
    congr 1
  rw [hsettled]
  apply ensures_tryQuery hrun
  · intro t x hwt ht hx hfault
    cases hanswer : (q.run t.db).1 with
    | ok result => exact hok t x result hwt ht hx hfault hanswer
    | error e => exact fun u _ => herror _ u
  · exact fun t message u _ => herror _ u

theorem keeps_quiet {q : Query} (h : q.writes ≠ some d) (t : World)
    (ht : t.db.Consistent d) :
    (q.run t.db).2.Consistent d ∧
      Change R.budgets (t.db.timeline? d) ((q.run t.db).2.timeline? d) := by
  obtain ⟨hrow, hlog⟩ := Query.run_frame h t.db
  exact ht.frame hrow hlog R.budgets

end Regime

end WebhookBroadcast
