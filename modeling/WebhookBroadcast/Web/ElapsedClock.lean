import Mathlib.Algebra.Order.Group.Int
import Mathlib.Data.Finset.Erase
import Mathlib.Data.Finset.Insert
import Mathlib.Data.Finset.Basic
import Mathlib.Tactic.Ring
import Mathlib.Tactic.SplitIfs
import WebhookBroadcast.Db.Schema
import WebhookBroadcast.Timed.Machine

/-!
# Elapsed time on screen

The shared clock of `apps/web/src/lib/elapsedClock.ts` and the labels that
`formatElapsed` of `apps/web/src/lib/relativeTime.ts` makes from it.  Every
timestamp on screen subscribes to the one clock, which has one interval and
pauses it while the tab is hidden.
-/

namespace WebhookBroadcast

open Timed

/-! ## Labels -/

def SECOND : ℤ := 1000
def MINUTE : ℤ := 60 * SECOND
def HOUR : ℤ := 60 * MINUTE
def DAY : ℤ := 24 * HOUR
def MONTH : ℤ := 30 * DAY
def YEAR : ℤ := 365 * DAY

def formatElapsed (iso now : Instant) : String :=
  let diff : ℤ := now - iso
  if diff < 10 * SECOND then "just now"
  else if diff < MINUTE then toString (diff / SECOND) ++ "s ago"
  else if diff < HOUR then toString (diff / MINUTE) ++ "m ago"
  else if diff < DAY then toString (diff / HOUR) ++ "h ago"
  else if diff < MONTH then toString (diff / DAY) ++ "d ago"
  else if diff < YEAR then toString (diff / MONTH) ++ "mo ago"
  else toString (diff / YEAR) ++ "y ago"

/-- The units of the labels. -/
def elapsedUnits : List (ℤ × String) :=
  [(SECOND, "s ago"), (MINUTE, "m ago"), (HOUR, "h ago"), (DAY, "d ago"),
    (MONTH, "mo ago"), (YEAR, "y ago")]

/-- The label says what has elapsed, to the unit. -/
def Says (label : String) (diff slack : ℤ) : Prop :=
  label = "just now" ∧ diff < 10 * SECOND + slack ∨
    ∃ unit ∈ elapsedUnits, ∃ n : ℤ, 1 ≤ n ∧
      label = toString n ++ unit.2 ∧ n * unit.1 ≤ diff ∧
        diff < (n + 1) * unit.1 + slack

/-- A label that is a little old says a little less. -/
theorem Says.late {label : String} {diff diff' slack : ℤ}
    (h : Says label diff 0) (hle : diff ≤ diff') (hslack : diff' ≤ diff + slack) :
    Says label diff' slack := by
  rcases h with ⟨hlabel, hlt⟩ | ⟨unit, hunit, n, hn, hlabel, hge, hlt⟩
  · exact Or.inl ⟨hlabel, by omega⟩
  · exact Or.inr ⟨unit, hunit, n, hn, hlabel, by omega, by omega⟩

/-- A quotient that is not zero is what the label of its unit says. -/
theorem says_unit {diff : ℤ} (unit : ℤ × String) (hunit : unit ∈ elapsedUnits)
    (hpos : 0 < unit.1) (hge : unit.1 ≤ diff) :
    Says (toString (diff / unit.1) ++ unit.2) diff 0 := by
  refine Or.inr ⟨unit, hunit, diff / unit.1, ?_, rfl, ?_, ?_⟩
  · exact (Int.le_ediv_iff_mul_le hpos).mpr (by omega)
  · exact Int.ediv_mul_le diff hpos.ne'
  · rw [Int.add_zero]
    exact Int.lt_ediv_add_one_mul_self diff hpos

theorem says_formatElapsed (iso now : Instant) :
    Says (formatElapsed iso now) (now - iso) 0 := by
  unfold formatElapsed
  dsimp only
  split
  · exact Or.inl ⟨rfl, by omega⟩
  next hnow =>
  split
  · refine says_unit (SECOND, "s ago") (by simp [elapsedUnits]) (by decide) ?_
    simp only [SECOND] at hnow ⊢
    omega
  next hminute =>
  split
  · exact says_unit (MINUTE, "m ago") (by simp [elapsedUnits]) (by decide)
      (not_lt.mp hminute)
  next hhour =>
  split
  · exact says_unit (HOUR, "h ago") (by simp [elapsedUnits]) (by decide)
      (not_lt.mp hhour)
  next hday =>
  split
  · exact says_unit (DAY, "d ago") (by simp [elapsedUnits]) (by decide)
      (not_lt.mp hday)
  next hmonth =>
  split
  · exact says_unit (MONTH, "mo ago") (by simp [elapsedUnits]) (by decide)
      (not_lt.mp hmonth)
  next hyear =>
  exact says_unit (YEAR, "y ago") (by simp [elapsedUnits]) (by decide)
    (not_lt.mp hyear)

/-! ## The clock -/

def TICK_MS : ℤ := 30000

/-- The module's variables: the subscribers, the snapshot, the interval with
the instant of its next tick.  Beside them is whether the tab is hidden, and
the snapshot that each subscriber read last. -/
structure ElapsedClock where
  listeners : Finset ℕ
  now : Instant
  interval : Option Instant
  hidden : Bool
  read : ℕ → Instant

inductive ClockEvent where
  /-- The interval fires. -/
  | interval
  | visibilitychange (hidden : Bool)
  | subscribe (listener : ℕ)
  | unsubscribe (listener : ℕ)
deriving DecidableEq

namespace ElapsedClock

/-- The module when it is loaded. -/
def loaded (hidden : Bool) (now : Instant) : ElapsedClock where
  listeners := ∅
  now := now
  interval := none
  hidden := hidden
  read := fun _ => now

/-- Each listener reads the new snapshot. -/
def tick (c : ElapsedClock) (t : Instant) : ElapsedClock :=
  { c with
    now := t
    read := fun l => if l ∈ c.listeners then t else c.read l }

def startTicking (c : ElapsedClock) (t : Instant) : ElapsedClock :=
  if c.interval ≠ none then c
  else if c.hidden then c
  else { c with interval := some (t + TICK_MS) }

def stopTicking (c : ElapsedClock) : ElapsedClock :=
  { c with interval := none }

/-- The subscriber reads the snapshot. -/
def reads (c : ElapsedClock) (listener : ℕ) : ElapsedClock :=
  { c with read := Function.update c.read listener c.now }

/-- The subscriber reads the snapshot as soon as it has subscribed. -/
def subscribe (c : ElapsedClock) (t : Instant) (listener : ℕ) : ElapsedClock :=
  let c := if c.listeners = ∅ then { c with now := t } else c
  let c := startTicking { c with listeners := insert listener c.listeners } t
  c.reads listener

def unsubscribe (c : ElapsedClock) (listener : ℕ) : ElapsedClock :=
  let c := { c with listeners := c.listeners.erase listener }
  if c.listeners = ∅ then c.stopTicking else c

def step (c : ElapsedClock) (t : Instant) : ClockEvent → ElapsedClock
  | .interval => { c.tick t with interval := some (t + TICK_MS) }
  | .visibilitychange hidden =>
      let c := { c with hidden := hidden }
      if hidden then c.stopTicking else (c.tick t).startTicking t
  | .subscribe listener => c.subscribe t listener
  | .unsubscribe listener => c.unsubscribe listener

def machine : Machine Instant ClockEvent ElapsedClock where
  step := step
  due := interval
  fires e := e = .interval

/-! ## Runs -/

/-- The interval runs only on a visible tab, and does while somebody listens.
Each subscriber has read the snapshot, which is from before the last tick that
was due. -/
structure Keeps (t : Instant) (c : ElapsedClock) : Prop where
  past : c.now ≤ t
  ticking : ∀ due, c.interval = some due →
    c.hidden = false ∧ due ≤ c.now + TICK_MS
  running : c.hidden = false → c.listeners ≠ ∅ → c.interval ≠ none
  current : ∀ l ∈ c.listeners, c.read l = c.now

variable {now t : Instant} {c : ElapsedClock}

theorem startTicking_cases (c : ElapsedClock) (t : Instant) :
    startTicking c t = c ∧ (c.interval = none → c.hidden = true) ∨
      c.interval = none ∧ c.hidden = false ∧
        startTicking c t = { c with interval := some (t + TICK_MS) } := by
  unfold startTicking
  split
  next hrunning => exact Or.inl ⟨rfl, fun hnone => absurd hnone hrunning⟩
  next hstopped =>
    have hnone : c.interval = none := not_not.mp hstopped
    split
    next hhidden => exact Or.inl ⟨rfl, fun _ => hhidden⟩
    next hvisible => exact Or.inr ⟨hnone, Bool.eq_false_of_not_eq_true hvisible, rfl⟩

/-- A subscriber might as well read before the clock is started. -/
theorem reads_startTicking (c : ElapsedClock) (t : Instant) (listener : ℕ) :
    (startTicking c t).reads listener = startTicking (c.reads listener) t := by
  unfold startTicking reads
  split_ifs <;> rfl

namespace Keeps

theorem mono (h : Keeps now c) (hle : now ≤ t) : Keeps t c :=
  ⟨h.past.trans hle, h.ticking, h.running, h.current⟩

/-- The clock is started at a snapshot of its own instant, if at all. -/
theorem of_startTicking (hpast : c.now ≤ t)
    (hticking : ∀ due, c.interval = some due →
      c.hidden = false ∧ due ≤ c.now + TICK_MS)
    (hfresh : c.interval = none → c.hidden = false → c.now = t)
    (hcurrent : ∀ l ∈ c.listeners, c.read l = c.now) :
    Keeps t (startTicking c t) := by
  rcases startTicking_cases c t with ⟨hsame, hhidden⟩ | ⟨hnone, hvisible, hstart⟩
  · rw [hsame]
    refine ⟨hpast, hticking, fun hvisible _ hnone => ?_, hcurrent⟩
    rw [hhidden hnone] at hvisible
    cases hvisible
  · rw [hstart]
    refine ⟨hpast, fun due hdue => ?_, nofun, hcurrent⟩
    cases hdue
    exact ⟨hvisible, (congrArg (· + TICK_MS) (hfresh hnone hvisible)).ge⟩

theorem interval (h : Keeps t c) (hrunning : c.interval ≠ none) :
    Keeps t (c.step t .interval) where
  past := Int.le_refl _
  ticking due hdue := by
    cases hdue
    obtain ⟨d, hd⟩ := Option.ne_none_iff_exists'.mp hrunning
    exact ⟨(h.ticking d hd).1, Int.le_refl _⟩
  running := nofun
  current l hl := if_pos hl

theorem visibilitychange (h : Keeps t c) (hidden : Bool) :
    Keeps t (c.step t (.visibilitychange hidden)) := by
  cases hidden with
  | true => exact ⟨h.past, nofun, nofun, h.current⟩
  | false =>
      refine of_startTicking (Int.le_refl _) (fun due hdue => ?_) (fun _ _ => rfl)
        fun l hl => if_pos hl
      exact ⟨rfl, (h.ticking due hdue).2.trans (Int.add_le_add_right h.past _)⟩

/-- A subscriber who is the first takes a new snapshot. -/
theorem subscribe (h : Keeps t c) (listener : ℕ) :
    Keeps t (c.step t (.subscribe listener)) := by
  change Keeps t (c.subscribe t listener)
  unfold ElapsedClock.subscribe
  dsimp only
  rw [reads_startTicking]
  by_cases hempty : c.listeners = ∅
  · rw [if_pos hempty]
    refine of_startTicking (Int.le_refl _) (fun due hdue => ?_) (fun _ _ => rfl)
      fun l hl => ?_
    · obtain ⟨hhidden, hle⟩ := h.ticking due hdue
      exact ⟨hhidden, hle.trans (Int.add_le_add_right h.past _)⟩
    · have hl : l = listener := by simpa [reads, hempty] using hl
      rw [hl]
      exact Function.update_self ..
  · rw [if_neg hempty]
    refine of_startTicking h.past h.ticking (fun hnone hvisible =>
      absurd hnone (h.running hvisible hempty)) fun l hl => ?_
    by_cases hself : l = listener
    · rw [hself]
      exact Function.update_self ..
    · have hold : l ∈ c.listeners :=
        (Finset.mem_insert.mp hl).resolve_left hself
      exact (Function.update_of_ne hself ..).trans (h.current l hold)

theorem unsubscribe (h : Keeps t c) (listener : ℕ) :
    Keeps t (c.step t (.unsubscribe listener)) := by
  have hcurrent : ∀ l ∈ c.listeners.erase listener, c.read l = c.now :=
    fun l hl => h.current l (Finset.mem_of_mem_erase hl)
  change Keeps t (if c.listeners.erase listener = ∅ then _ else _)
  split
  next hempty =>
    exact ⟨h.past, nofun, fun _ hsome => absurd hempty hsome, hcurrent⟩
  next hsome =>
    refine ⟨h.past, h.ticking, fun hvisible _ => h.running hvisible ?_, hcurrent⟩
    intro hempty
    rw [hempty] at hsome
    exact hsome rfl

protected theorem step (h : Keeps now c) (hle : now ≤ t) {e : ClockEvent}
    (henabled : machine.Enabled c t e) : Keeps t (machine.step c t e) := by
  have h := h.mono hle
  cases e with
  | interval =>
      obtain ⟨d, hd, -⟩ := henabled rfl
      refine h.interval fun hnone => ?_
      change c.interval = some d at hd
      rw [hnone] at hd
      cases hd
  | visibilitychange hidden => exact h.visibilitychange hidden
  | subscribe listener => exact h.subscribe listener
  | unsubscribe listener => exact h.unsubscribe listener

theorem of_run {start : Instant} {hidden : Bool}
    {history : List (Instant × ClockEvent)}
    (hrun : machine.Run start (loaded hidden start) history now) :
    Keeps now (machine.exec (loaded hidden start) history) :=
  hrun.invariant
    ⟨Int.le_refl _, nofun, fun _ hsome => absurd rfl hsome,
      fun l hl => absurd hl (Finset.notMem_empty l)⟩
    fun h hle henabled => h.step hle henabled

end Keeps

end ElapsedClock

open ElapsedClock in
/-- On every run of the shared clock, whoever subscribes and unsubscribes and
however often the tab is hidden: the interval runs only while the tab is
visible, and while it ticks when it is due, each timestamp on a visible tab has
read an instant that is at most 30 s old.  So its label says the time that has
elapsed to the unit, and less than 30 s too little. -/
theorem elapsed_label_fresh {start now : Instant} {hidden : Bool}
    {history : List (Instant × ClockEvent)}
    (hrun : machine.Run start (loaded hidden start) history now) :
    let c := machine.exec (loaded hidden start) history
    (c.interval ≠ none → c.hidden = false) ∧
      ∀ t, now ≤ t → machine.Prompt c t → c.hidden = false →
        ∀ l ∈ c.listeners, c.read l ≤ t ∧ t ≤ c.read l + TICK_MS ∧
          ∀ iso, Says (formatElapsed iso (c.read l)) (t - iso) TICK_MS := by
  intro c
  have hkeeps : Keeps now c := .of_run hrun
  refine ⟨fun hrunning => ?_, fun t hle hprompt hvisible l hl => ?_⟩
  · obtain ⟨due, hdue⟩ := Option.ne_none_iff_exists'.mp hrunning
    exact (hkeeps.ticking due hdue).1
  · obtain ⟨due, hdue⟩ := Option.ne_none_iff_exists'.mp
      (hkeeps.running hvisible (Finset.ne_empty_of_mem hl))
    have hpast : c.read l ≤ t := by
      rw [hkeeps.current l hl]
      exact hkeeps.past.trans hle
    have hfresh : t ≤ c.read l + TICK_MS := by
      rw [hkeeps.current l hl]
      exact (hprompt due hdue).trans (hkeeps.ticking due hdue).2
    refine ⟨hpast, hfresh, fun iso => (says_formatElapsed iso _).late ?_ ?_⟩
    · exact Int.sub_le_sub_right hpast iso
    · exact (Int.sub_le_sub_right hfresh iso).trans_eq (by ring)

/-- A timestamp mounts a minute after the page was loaded; 20 s later its label
still says what it said then. -/
theorem elapsed_label_fresh_mounted :
    (ElapsedClock.machine.exec (.loaded false 0)
        [(60000, .subscribe 1)]).read 1 = 60000 ∧
      Says (formatElapsed 0 60000) 80000 TICK_MS := by
  have hrun : ElapsedClock.machine.Run 0 (.loaded false 0)
      ([] ++ [((60000 : Instant), .subscribe 1)]) 60000 := by
    refine Machine.Run.nil.concat (by decide) ?_
    intro h
    cases h
  have hfresh := (elapsed_label_fresh hrun).2 80000 (by decide)
    (fun d hd => by cases hd; decide) rfl 1 (by decide)
  exact ⟨rfl, hfresh.2.2 0⟩

end WebhookBroadcast
