import Mathlib.Algebra.Order.Group.Int
import Mathlib.Tactic.Ring
import WebhookBroadcast.Db.Schema
import WebhookBroadcast.Timed.Machine

/-!
# Delay and hold of waiting states

The hook `useDelayedPending` of `apps/web/src/lib/delayedPending.ts`, through
which every waiting state of the web application is shown.  Its effect and its
two timers act on one component; the instants are those of `Date.now()`, and an
effect runs at the instant of the commit that it belongs to.
-/

namespace WebhookBroadcast

open Timed

def PENDING_DELAY_MS : ℤ := 250

def PENDING_HOLD_MS : ℤ := 400

/-- The timers of the hook, with the instant for which each is due. -/
inductive PendingTimer where
  | delayTimer (due : Instant)
  | holdTimer (due : Instant)
deriving DecidableEq

def PendingTimer.due : PendingTimer → Instant
  | delayTimer due => due
  | holdTimer due => due

/-- A component with the hook: what the hook returns, its ref, the dependency
of the effect that ran last, and the timer that the effect armed. -/
structure DelayedPending where
  visible : Bool := false
  shownAt : Option Instant := none
  isPending : Option Bool := none
  timer : Option PendingTimer := none
deriving DecidableEq

inductive PendingEvent where
  /-- A commit with this `isPending`. -/
  | commit (isPending : Bool)
  /-- The armed timer fires. -/
  | timeout
deriving DecidableEq

namespace DelayedPending

/-- The body of the effect, after the timer of the one before it was cleared. -/
def effect (h : DelayedPending) (now : Instant) (isPending : Bool) :
    DelayedPending :=
  if isPending then
    { h with timer := some (.delayTimer (now + PENDING_DELAY_MS)) }
  else
    match h.shownAt with
    | none => { h with visible := false }
    | some shownAt =>
        let remaining := PENDING_HOLD_MS - (now - shownAt)
        if remaining ≤ 0 then { h with shownAt := none, visible := false }
        else { h with timer := some (.holdTimer (now + remaining)) }

/-- An effect runs when its dependency has changed, and once at the start. -/
def step (h : DelayedPending) (now : Instant) : PendingEvent → DelayedPending
  | .commit isPending =>
      if h.isPending = some isPending then h
      else effect { h with timer := none, isPending := some isPending } now
        isPending
  | .timeout =>
      match h.timer with
      | none => h
      | some (.delayTimer _) =>
          { h with timer := none, shownAt := some now, visible := true }
      | some (.holdTimer _) =>
          { h with timer := none, shownAt := none, visible := false }

def machine : Machine Instant PendingEvent DelayedPending where
  step := step
  due h := h.timer.map PendingTimer.due
  fires e := e = .timeout

/-! ## Runs -/

/-- The last change of `isPending` made it `p`, and it came no later than
`t`. -/
def Since (p : Bool) (t : Instant) (history : List (Instant × PendingEvent)) :
    Prop :=
  ∃ early late, history = early ++ (t, .commit p) :: late ∧
    ∀ event ∈ late, event.2 ≠ .commit !p

/-- What the hook returns after a history. -/
def shows (history : List (Instant × PendingEvent)) : Bool :=
  (machine.exec {} history).visible

/-- What the timers and the ref say of each other. -/
inductive Stands (now : Instant) : DelayedPending → Prop where
  | fresh : Stands now {}
  | idle : Stands now ⟨false, none, some false, none⟩
  | delayed (shownAt : Option Instant) (due : Instant)
      (hpast : ∀ s ∈ shownAt, s ≤ now) (hdue : due ≤ now + PENDING_DELAY_MS) :
      Stands now ⟨shownAt.isSome, shownAt, some true, some (.delayTimer due)⟩
  | shown (shownAt : Instant) (hpast : shownAt ≤ now) :
      Stands now ⟨true, some shownAt, some true, none⟩
  | held (shownAt : Instant) (hpast : shownAt ≤ now) :
      Stands now ⟨true, some shownAt, some false,
        some (.holdTimer (shownAt + PENDING_HOLD_MS))⟩

variable {start now t : Instant} {h : DelayedPending} {p : Bool}
  {history : List (Instant × PendingEvent)}

namespace Stands

theorem visible_eq (hs : Stands now h) : h.visible = h.shownAt.isSome := by
  cases hs <;> rfl

theorem mono (hs : Stands now h) (hle : now ≤ t) : Stands t h := by
  cases hs with
  | fresh => exact .fresh
  | idle => exact .idle
  | delayed shownAt due hpast hdue =>
      exact .delayed shownAt due (fun s hs => (hpast s hs).trans hle)
        (hdue.trans (Int.add_le_add_right hle _))
  | shown shownAt hpast => exact .shown shownAt (hpast.trans hle)
  | held shownAt hpast => exact .held shownAt (hpast.trans hle)

theorem shownAt_le (hs : Stands now h) {s : Instant}
    (hshown : h.shownAt = some s) : s ≤ now := by
  cases hs with
  | fresh => cases hshown
  | idle => cases hshown
  | delayed shownAt due hpast hdue => exact hpast s hshown
  | shown shownAt hpast => cases hshown; exact hpast
  | held shownAt hpast => cases hshown; exact hpast

end Stands

/-- What an event does, and what was so before it. -/
inductive StepOf (h : DelayedPending) (t : Instant) :
    PendingEvent → DelayedPending → Prop where
  | same (e : PendingEvent) (he : ∀ p, e = .commit p → h.isPending = some p) :
      StepOf h t e h
  | arm (hchange : h.isPending ≠ some true) :
      StepOf h t (.commit true) ⟨h.shownAt.isSome, h.shownAt, some true,
        some (.delayTimer (t + PENDING_DELAY_MS))⟩
  | hide (hover : ∀ s, h.shownAt = some s → s + PENDING_HOLD_MS ≤ t) :
      StepOf h t (.commit false) ⟨false, none, some false, none⟩
  | hold (s : Instant) (hshown : h.shownAt = some s) :
      StepOf h t (.commit false) ⟨true, some s, some false,
        some (.holdTimer (s + PENDING_HOLD_MS))⟩
  | show_ (due : Instant) (hpending : h.isPending = some true)
      (htimer : h.timer = some (.delayTimer due)) :
      StepOf h t .timeout ⟨true, some t, some true, none⟩
  | release (s : Instant) (hpending : h.isPending = some false)
      (hshown : h.shownAt = some s)
      (htimer : h.timer = some (.holdTimer (s + PENDING_HOLD_MS))) :
      StepOf h t .timeout ⟨false, none, some false, none⟩

/-- The effect of a commit that is not pending any more. -/
theorem stepOf_effect_false (hs : Stands now h) (t : Instant) :
    StepOf h t (.commit false)
      (effect { h with timer := none, isPending := some false } t false) := by
  have hvisible := hs.visible_eq
  cases hshown : h.shownAt with
  | none =>
      have heffect : effect { h with timer := none, isPending := some false }
          t false = ⟨false, none, some false, none⟩ := by
        simp [effect, hshown]
      rw [← hshown, heffect]
      refine .hide fun s hs => ?_
      rw [hshown] at hs
      cases hs
  | some s =>
      by_cases hremaining : PENDING_HOLD_MS - (t - s) ≤ 0
      · have heffect : effect { h with timer := none, isPending := some false }
            t false = ⟨false, none, some false, none⟩ := by
          simp [effect, hshown, hremaining]
        rw [← hshown, heffect]
        refine .hide fun s' hs' => ?_
        rw [hshown] at hs'
        cases hs'
        have hsub : PENDING_HOLD_MS ≤ t - s := Int.le_of_sub_nonpos hremaining
        exact (Int.add_le_add_left hsub s).trans_eq (by ring)
      · have hdue : t + (PENDING_HOLD_MS - (t - s)) = s + PENDING_HOLD_MS := by
          ring
        have heffect : effect { h with timer := none, isPending := some false }
            t false = ⟨true, some s, some false,
              some (.holdTimer (s + PENDING_HOLD_MS))⟩ := by
          simp [effect, hshown, hremaining, hdue, hvisible]
        rw [← hshown, heffect]
        exact .hold s hshown

theorem stepOf_step (hs : Stands now h) (t : Instant) (e : PendingEvent) :
    StepOf h t e (machine.step h t e) := by
  cases e with
  | commit p =>
      by_cases hsame : h.isPending = some p
      · have hstep : machine.step h t (.commit p) = h := if_pos hsame
        rw [hstep]
        refine .same _ fun p' hp' => ?_
        cases hp'
        exact hsame
      · have hstep : machine.step h t (.commit p) =
            effect { h with timer := none, isPending := some p } t p :=
          if_neg hsame
        rw [hstep]
        cases p with
        | true =>
            have hvisible := hs.visible_eq
            change StepOf h t _ ⟨h.visible, h.shownAt, some true,
              some (.delayTimer (t + PENDING_DELAY_MS))⟩
            rw [hvisible]
            exact .arm hsame
        | false => exact stepOf_effect_false hs t
  | timeout =>
      cases hs with
      | fresh => exact .same _ nofun
      | idle => exact .same _ nofun
      | delayed shownAt due hpast hdue => exact .show_ due rfl rfl
      | shown shownAt hpast => exact .same _ nofun
      | held shownAt hpast => exact .release shownAt rfl rfl rfl

namespace Stands

protected theorem step (hs : Stands now h) (hle : now ≤ t) (e : PendingEvent) :
    Stands t (machine.step h t e) := by
  have hstep := stepOf_step hs t e
  generalize machine.step h t e = h' at hstep
  cases hstep with
  | same => exact hs.mono hle
  | arm =>
      exact .delayed _ _ (fun s hshown => (hs.shownAt_le hshown).trans hle)
        (Int.le_refl _)
  | hide => exact .idle
  | hold s hshown => exact .held s ((hs.shownAt_le hshown).trans hle)
  | show_ => exact .shown t (Int.le_refl _)
  | release => exact .idle

theorem of_run (hrun : machine.Run start {} history now) :
    Stands now (machine.exec {} history) :=
  hrun.invariant .fresh fun hs hle _ => hs.step hle _

end Stands

theorem Since.concat {t₀ : Instant} (hsince : Since p t₀ history)
    {e : PendingEvent} (he : e ≠ .commit !p) (t : Instant) :
    Since p t₀ (history ++ [(t, e)]) := by
  obtain ⟨early, late, rfl, hlate⟩ := hsince
  refine ⟨early, late ++ [(t, e)], by simp, ?_⟩
  intro event hevent
  rcases List.mem_append.mp hevent with hevent | hevent
  · exact hlate event hevent
  · rw [List.mem_singleton.mp hevent]
    exact he

/-! ## The delay -/

/-- A delay timer was armed when the component became pending, which it still
is. -/
theorem since_of_delayTimer (hrun : machine.Run start {} history now)
    {due : Instant}
    (htimer : (machine.exec {} history).timer = some (.delayTimer due)) :
    ∃ t₀, Since true t₀ history ∧ t₀ + PENDING_DELAY_MS = due := by
  induction hrun generalizing due with
  | nil => cases htimer
  | @concat history _ hrun t e _ _ ih =>
      rw [Machine.exec_concat] at htimer
      have hstands := Stands.of_run hrun
      have hstep := stepOf_step hstands t e
      generalize machine.step (machine.exec {} history) t e = h' at hstep htimer
      cases hstep with
      | same _ he =>
          obtain ⟨t₀, hsince, hdue⟩ := ih htimer
          refine ⟨t₀, hsince.concat (fun hfalse => ?_) t, hdue⟩
          have hpending := he false hfalse
          generalize machine.exec {} history = h at hstands hpending htimer
          cases hstands <;> cases hpending <;> cases htimer
      | arm =>
          cases htimer
          exact ⟨t, ⟨history, [], rfl, nofun⟩, rfl⟩
      | hide => cases htimer
      | hold => cases htimer
      | show_ => cases htimer
      | release => cases htimer

/-- Only a delay timer makes the hook begin to show. -/
theorem delayTimer_of_show {e : PendingEvent}
    (hrun : machine.Run start {} (history ++ [(t, e)]) now)
    (hhidden : shows history = false)
    (hshown : shows (history ++ [(t, e)]) = true) :
    (∃ due, (machine.exec {} history).timer = some (.delayTimer due) ∧
        due ≤ t) ∧
      machine.exec {} (history ++ [(t, e)]) =
        ⟨true, some t, some true, none⟩ := by
  obtain ⟨-, last, hbefore, -, henabled⟩ := hrun.of_concat
  rw [shows] at hhidden
  rw [shows, Machine.exec_concat] at hshown
  rw [Machine.exec_concat]
  have hstands := Stands.of_run hbefore
  have hstep := stepOf_step hstands t e
  have hnone : (machine.exec {} history).shownAt = none := by
    rw [← Option.not_isSome_iff_eq_none, ← hstands.visible_eq, hhidden]
    decide
  generalize machine.step (machine.exec {} history) t e = h' at hstep hshown
  cases hstep with
  | same => rw [hhidden] at hshown; cases hshown
  | arm =>
      change (machine.exec {} history).shownAt.isSome = true at hshown
      rw [hnone] at hshown
      cases hshown
  | hide => cases hshown
  | hold s hs => rw [hnone] at hs; cases hs
  | show_ due hpending htimer =>
      obtain ⟨d, hd, hle⟩ := henabled rfl
      change Option.map PendingTimer.due (machine.exec {} history).timer =
        some d at hd
      rw [htimer] at hd
      cases hd
      exact ⟨⟨due, htimer, hle⟩, rfl⟩
  | release => cases hshown

/-- The hook begins to show only when the component has been pending for the
whole delay. -/
theorem since_of_show {e : PendingEvent}
    (hrun : machine.Run start {} (history ++ [(t, e)]) now)
    (hhidden : shows history = false)
    (hshown : shows (history ++ [(t, e)]) = true) :
    ∃ t₀, Since true t₀ history ∧ t₀ + PENDING_DELAY_MS ≤ t := by
  obtain ⟨-, last, hbefore, -⟩ := hrun.of_concat
  obtain ⟨⟨due, htimer, hle⟩, -⟩ := delayTimer_of_show hrun hhidden hshown
  obtain ⟨t₀, hsince, hdue⟩ := since_of_delayTimer hbefore htimer
  exact ⟨t₀, hsince, hdue.trans_le hle⟩

/-! ## The hold -/

/-- What is shown at `s` is shown, or shown again, until the hold is over. -/
structure HeldFrom (s now : Instant) (h : DelayedPending) : Prop where
  stands : Stands now h
  past : s ≤ now
  later : ∀ s', h.shownAt = some s' → s ≤ s'
  ended : h.shownAt = none → s + PENDING_HOLD_MS ≤ now

theorem HeldFrom.step {s : Instant} (hheld : HeldFrom s now h) (hle : now ≤ t)
    {e : PendingEvent} (henabled : machine.Enabled h t e) :
    HeldFrom s t (machine.step h t e) := by
  have hpast := hheld.past.trans hle
  have hhidden : (∀ s', h.shownAt = some s' → s' + PENDING_HOLD_MS ≤ t) →
      HeldFrom s t ⟨false, none, some false, none⟩ := by
    intro hover
    refine ⟨.idle, hpast, nofun, fun _ => ?_⟩
    cases hshown : h.shownAt with
    | none => exact (hheld.ended hshown).trans hle
    | some s' =>
        exact (Int.add_le_add_right (hheld.later s' hshown) _).trans
          (hover s' hshown)
  have hstands := hheld.stands.step hle e
  have hstep := stepOf_step hheld.stands t e
  generalize machine.step h t e = h' at hstands hstep
  cases hstep with
  | same =>
      exact ⟨hstands, hpast, hheld.later,
        fun hnone => (hheld.ended hnone).trans hle⟩
  | arm =>
      exact ⟨hstands, hpast, hheld.later,
        fun hnone => (hheld.ended hnone).trans hle⟩
  | hide hover => exact hhidden hover
  | hold s' hshown =>
      refine ⟨hstands, hpast, fun s'' hs'' => ?_, nofun⟩
      cases hs''
      exact hheld.later s' hshown
  | show_ =>
      refine ⟨hstands, hpast, fun s' hs' => ?_, nofun⟩
      cases hs'
      exact hpast
  | release s' _ hshown htimer =>
      obtain ⟨d, hd, hdue⟩ := henabled rfl
      change Option.map PendingTimer.due h.timer = some d at hd
      rw [htimer] at hd
      cases hd
      refine hhidden fun s'' hs'' => ?_
      rw [hshown] at hs''
      cases hs''
      exact hdue

/-- What was shown at `s` is hidden at `t` only when the hold is over. -/
theorem hold_of_hide {s : Instant} {e : PendingEvent}
    {between : List (Instant × PendingEvent)}
    (hrun : machine.Run start {} (history ++ (s, e) :: between) now)
    (hhidden : shows history = false)
    (hshown : shows (history ++ [(s, e)]) = true)
    (hhides : shows (history ++ (s, e) :: between) = false) :
    s + PENDING_HOLD_MS ≤ now := by
  rw [← List.singleton_append, ← List.append_assoc] at hrun hhides
  obtain ⟨at_, hfirst, hrest⟩ := hrun.split
  obtain ⟨hat, -⟩ := hfirst.of_concat
  rw [hat] at hrest
  obtain ⟨-, hexec⟩ := delayTimer_of_show hfirst hhidden hshown
  have hheld : HeldFrom s s (machine.exec {} (history ++ [(s, e)])) := by
    rw [hexec]
    refine ⟨.shown s (Int.le_refl _), Int.le_refl _, fun s' hs' => ?_, nofun⟩
    cases hs'
    exact Int.le_refl _
  have hlast := hrest.invariant hheld fun h hle henabled => h.step hle henabled
  rw [← Machine.exec_append] at hlast
  refine hlast.ended ?_
  rw [← Option.not_isSome_iff_eq_none, ← hlast.stands.visible_eq]
  rw [shows] at hhides
  rw [hhides]
  decide

/-! ## When the timers are prompt -/

/-- A component that became pending at `t₀` shows it or is about to. -/
structure PendingFrom (t₀ now : Instant) (h : DelayedPending) : Prop where
  stands : Stands now h
  pending : h.isPending = some true
  soon : h.shownAt = none →
    ∃ due, h.timer = some (.delayTimer due) ∧ due ≤ t₀ + PENDING_DELAY_MS

theorem PendingFrom.step {t₀ : Instant} (hpending : PendingFrom t₀ now h)
    (hle : now ≤ t) {e : PendingEvent} (he : e ≠ .commit false) :
    PendingFrom t₀ t (machine.step h t e) := by
  have hstands := hpending.stands.step hle e
  have hstep := stepOf_step hpending.stands t e
  generalize machine.step h t e = h' at hstands hstep
  cases hstep with
  | same => exact ⟨hstands, hpending.pending, hpending.soon⟩
  | arm hchange => exact absurd hpending.pending hchange
  | hide => exact absurd rfl he
  | hold => exact absurd rfl he
  | show_ => exact ⟨hstands, rfl, nofun⟩
  | release _ hnot => rw [hpending.pending] at hnot; cases hnot

/-- A component that has not been pending since `t₀` shows nothing or is about
to show nothing. -/
structure SettledFrom (t₀ now : Instant) (h : DelayedPending) : Prop where
  stands : Stands now h
  settled : h.isPending = some false
  past : ∀ s, h.shownAt = some s → s ≤ t₀

theorem SettledFrom.step {t₀ : Instant} (hsettled : SettledFrom t₀ now h)
    (hle : now ≤ t) {e : PendingEvent} (he : e ≠ .commit true) :
    SettledFrom t₀ t (machine.step h t e) := by
  have hstands := hsettled.stands.step hle e
  have hstep := stepOf_step hsettled.stands t e
  generalize machine.step h t e = h' at hstands hstep
  cases hstep with
  | same => exact ⟨hstands, hsettled.settled, hsettled.past⟩
  | arm => exact absurd rfl he
  | hide => exact ⟨hstands, rfl, nofun⟩
  | hold s hshown =>
      refine ⟨hstands, rfl, fun s' hs' => ?_⟩
      cases hs'
      exact hsettled.past s hshown
  | show_ _ hnot => rw [hsettled.settled] at hnot; cases hnot
  | release => exact ⟨hstands, rfl, nofun⟩

/-- The state after the last change, on a run since then. -/
theorem of_since {t₀ : Instant} (hrun : machine.Run start {} history now)
    (hsince : Since p t₀ history) {I : Instant → DelayedPending → Prop}
    (hchange : ∀ {h}, Stands t₀ h → I t₀ (machine.step h t₀ (.commit p)))
    (hstep : ∀ {now h t e}, I now h → now ≤ t → e ≠ .commit !p →
      I t (machine.step h t e)) : I now (machine.exec {} history) := by
  obtain ⟨early, late, rfl, hlate⟩ := hsince
  obtain ⟨last, hearly, hle, -, hrun⟩ := hrun.split_at
  rw [Machine.exec_append, Machine.exec_cons]
  exact hrun.invariant_of (hchange ((Stands.of_run hearly).mono hle))
    (fun hI hle _ he => hstep hI hle he) hlate

/-- A component that has been pending for longer than the delay shows it. -/
theorem shows_of_since {t₀ : Instant} (hrun : machine.Run start {} history now)
    (hprompt : machine.Prompt (machine.exec {} history) t)
    (hsince : Since true t₀ history) (hlong : t₀ + PENDING_DELAY_MS < t) :
    shows history = true := by
  have hpending : PendingFrom t₀ now (machine.exec {} history) := by
    refine of_since hrun hsince (fun {h} hs => ?_) fun hI hle he => hI.step hle he
    have hstands := hs.step (Int.le_refl _) (.commit true)
    have hstep := stepOf_step hs t₀ (.commit true)
    generalize machine.step h t₀ (.commit true) = h' at hstands hstep
    cases hstep with
    | same _ he =>
        have hp := he true rfl
        refine ⟨hs, hp, fun hnone => ?_⟩
        cases hs with
        | fresh => cases hp
        | idle => cases hp
        | delayed shownAt due hpast hdue => exact ⟨due, rfl, hdue⟩
        | shown shownAt hpast => cases hnone
        | held shownAt hpast => cases hp
    | arm => exact ⟨hstands, rfl, fun _ => ⟨_, rfl, Int.le_refl _⟩⟩
  rw [shows, hpending.stands.visible_eq, Option.isSome_iff_ne_none]
  intro hnone
  obtain ⟨due, htimer, hdue⟩ := hpending.soon hnone
  refine absurd (hprompt due ?_) (not_le.mpr (hdue.trans_lt hlong))
  change Option.map PendingTimer.due (machine.exec {} history).timer = some due
  rw [htimer]
  rfl

/-- A component that has not been pending for longer than the hold does not
show that it is. -/
theorem hides_of_since {t₀ : Instant} (hrun : machine.Run start {} history now)
    (hprompt : machine.Prompt (machine.exec {} history) t)
    (hsince : Since false t₀ history) (hlong : t₀ + PENDING_HOLD_MS < t) :
    shows history = false := by
  have hsettled : SettledFrom t₀ now (machine.exec {} history) := by
    refine of_since hrun hsince (fun {h} hs => ?_) fun hI hle he => hI.step hle he
    have hstands := hs.step (Int.le_refl _) (.commit false)
    have hstep := stepOf_step hs t₀ (.commit false)
    generalize machine.step h t₀ (.commit false) = h' at hstands hstep
    cases hstep with
    | same _ he => exact ⟨hs, he false rfl, fun s => hs.shownAt_le⟩
    | hide => exact ⟨hstands, rfl, nofun⟩
    | hold s hshown =>
        refine ⟨hstands, rfl, fun s' hs' => ?_⟩
        cases hs'
        exact hs.shownAt_le hshown
  have hstands := hsettled.stands
  have hpending := hsettled.settled
  have hpast := hsettled.past
  rw [shows]
  rw [Machine.Prompt] at hprompt
  generalize machine.exec {} history = h at hstands hpending hpast hprompt
  cases hstands with
  | fresh => rfl
  | idle => rfl
  | delayed => cases hpending
  | shown => cases hpending
  | held s _ =>
      have hover : s + PENDING_HOLD_MS < t :=
        (Int.add_le_add_right (hpast s rfl) _).trans_lt hlong
      exact absurd (hprompt _ rfl) (not_le.mpr hover)

end DelayedPending

open DelayedPending in
/-- No run of the hook flickers.  It begins to show a waiting state only when
the component has been pending for 250 ms without a break, and does not hide
it within 400 ms.  While the timers are prompt, a component that has been
pending for longer than the delay shows it, and one that has not been pending
for longer than the hold does not. -/
theorem no_flicker {start now : Instant}
    {history : List (Instant × PendingEvent)}
    (hrun : machine.Run start {} history now) :
    (∀ before t e after, history = before ++ (t, e) :: after →
        shows before = false → shows (before ++ [(t, e)]) = true →
          (∃ t₀, Since true t₀ before ∧ t₀ + 250 ≤ t) ∧
            (shows history = false → t + 400 ≤ now)) ∧
      ∀ t, machine.Prompt (machine.exec {} history) t →
        (∀ t₀, Since true t₀ history → t₀ + 250 < t → shows history = true) ∧
          ∀ t₀, Since false t₀ history → t₀ + 400 < t →
            shows history = false := by
  refine ⟨?_, fun t hprompt => ⟨fun t₀ hsince hlong => ?_,
    fun t₀ hsince hlong => ?_⟩⟩
  · rintro before t e after rfl hhidden hshown
    refine ⟨?_, fun hhides => hold_of_hide hrun hhidden hshown hhides⟩
    rw [← List.singleton_append, ← List.append_assoc] at hrun
    obtain ⟨_, hfirst, -⟩ := hrun.split
    exact since_of_show hfirst hhidden hshown
  · exact shows_of_since hrun hprompt hsince hlong
  · exact hides_of_since hrun hprompt hsince hlong

/-- A component waits from 0 on and is shown as waiting at 251, which is held
after it has stopped waiting at 300. -/
theorem no_flicker_slow :
    DelayedPending.shows [(0, .commit true), (251, .timeout),
        (300, .commit false), (660, .timeout)] = false ∧
      (251 : Instant) + 400 ≤ 660 := by
  have hpending : DelayedPending.machine.Run 0 {}
      ([] ++ [((0 : Instant), .commit true)]) 0 := by
    refine Machine.Run.nil.concat (Int.le_refl 0) ?_
    intro h
    cases h
  have hshown : DelayedPending.machine.Run 0 {}
      ([((0 : Instant), .commit true)] ++ [(251, .timeout)]) 251 :=
    hpending.concat (by decide) fun _ => ⟨250, rfl, by decide⟩
  have hheld : DelayedPending.machine.Run 0 {} ([((0 : Instant), .commit true),
      (251, .timeout)] ++ [(300, .commit false)]) 300 := by
    refine hshown.concat (by decide) ?_
    intro h
    cases h
  have hrun : DelayedPending.machine.Run 0 {} ([((0 : Instant), .commit true),
      (251, .timeout), (300, .commit false)] ++ [(660, .timeout)]) 660 :=
    hheld.concat (by decide) fun _ => ⟨651, rfl, by decide⟩
  have hhides : DelayedPending.shows [(0, .commit true), (251, .timeout),
      (300, .commit false), (660, .timeout)] = false := by decide
  exact ⟨hhides, ((no_flicker hrun).1 [(0, .commit true)] 251 .timeout
    [(300, .commit false), (660, .timeout)] rfl (by decide) (by decide)).2
      hhides⟩

end WebhookBroadcast
