import Mathlib.Data.List.Induction
import Mathlib.Order.Lattice

/-!
# Machines with a timer

A machine takes its events at the instants of a clock that does not go back,
and has at most one timer armed.  An armed timer fires at the instant for which
it is due, or later.
-/

namespace Timed

variable {τ ε σ : Type}

/-- What an event makes of a state at an instant, the instant for which the
armed timer is due, and which events are the timer's. -/
structure Machine (τ ε σ : Type) where
  step : σ → τ → ε → σ
  due : σ → Option τ
  fires : ε → Prop

namespace Machine

variable (M : Machine τ ε σ)

/-- The state after a history. -/
def exec (s : σ) (history : List (τ × ε)) : σ :=
  history.foldl (fun s event => M.step s event.1 event.2) s

variable {M} {s : σ} {history : List (τ × ε)}

@[simp] theorem exec_nil : M.exec s [] = s := rfl

@[simp] theorem exec_cons (event : τ × ε) :
    M.exec s (event :: history) = M.exec (M.step s event.1 event.2) history :=
  rfl

theorem exec_append (before after : List (τ × ε)) :
    M.exec s (before ++ after) = M.exec (M.exec s before) after :=
  List.foldl_append

theorem exec_concat (t : τ) (e : ε) :
    M.exec s (history ++ [(t, e)]) = M.step (M.exec s history) t e :=
  exec_append _ _

variable [LinearOrder τ]

variable (M) in
/-- An event can happen at an instant; the timer fires when it is due. -/
def Enabled (s : σ) (t : τ) (e : ε) : Prop :=
  M.fires e → ∃ d, M.due s = some d ∧ d ≤ t

variable (M) in
/-- The histories that begin at `start` in state `s`, with the instant of their
last event. -/
inductive Run (start : τ) (s : σ) : List (τ × ε) → τ → Prop where
  | nil : Run start s [] start
  | concat {history : List (τ × ε)} {now : τ} (h : Run start s history now)
      {t : τ} {e : ε} (hle : now ≤ t)
      (henabled : M.Enabled (M.exec s history) t e) :
      Run start s (history ++ [(t, e)]) t

variable (M) in
/-- No timer that was due before `t` is still armed. -/
def Prompt (s : σ) (t : τ) : Prop :=
  ∀ d, M.due s = some d → t ≤ d

variable {start now : τ}

namespace Run

/-- What holds at the start and is kept by the events of a run holds at its
end. -/
theorem invariant_of {I : τ → σ → Prop} {P : ε → Prop} (hstart : I start s)
    (hstep : ∀ {now s t e}, I now s → now ≤ t → M.Enabled s t e → P e →
      I t (M.step s t e)) (h : M.Run start s history now)
    (hevents : ∀ event ∈ history, P event.2) : I now (M.exec s history) := by
  induction h with
  | nil => exact hstart
  | @concat history _ _ t e hle henabled ih =>
      rw [exec_concat]
      refine hstep (ih fun event hevent => hevents event ?_) hle henabled
        (hevents (t, e) ?_)
      · exact List.mem_append_left _ hevent
      · exact List.mem_append_right _ (List.mem_singleton.mpr rfl)

/-- What holds at the start and is kept by each event holds after each run. -/
theorem invariant {I : τ → σ → Prop} (hstart : I start s)
    (hstep : ∀ {now s t e}, I now s → now ≤ t → M.Enabled s t e →
      I t (M.step s t e)) (h : M.Run start s history now) :
    I now (M.exec s history) :=
  h.invariant_of hstart
    (fun hI hle henabled _ => hstep hI hle henabled) (P := fun _ => True)
    fun _ _ => trivial

/-- The last event of a run was possible after the run before it. -/
theorem of_concat {t : τ} {e : ε} (h : M.Run start s (history ++ [(t, e)]) now) :
    now = t ∧ ∃ before, M.Run start s history before ∧ before ≤ t ∧
      M.Enabled (M.exec s history) t e := by
  generalize hall : history ++ [(t, e)] = all at h
  cases h with
  | nil => exact absurd hall (by simp)
  | concat h hle henabled =>
      obtain ⟨hhistory, hevent⟩ := List.append_inj' hall rfl
      cases hhistory
      cases hevent
      exact ⟨rfl, _, h, hle, henabled⟩

/-- A run is a run and then another from where it ended. -/
theorem split {before after : List (τ × ε)}
    (h : M.Run start s (before ++ after) now) :
    ∃ between, M.Run start s before between ∧
      M.Run between (M.exec s before) after now := by
  induction after using List.reverseRecOn generalizing now with
  | nil =>
      rw [List.append_nil] at h
      exact ⟨now, h, .nil⟩
  | append_singleton after event ih =>
      rw [← List.append_assoc] at h
      obtain ⟨rfl, last, hlast, hle, henabled⟩ := h.of_concat
      obtain ⟨between, hbefore, hafter⟩ := ih hlast
      refine ⟨between, hbefore, hafter.concat hle ?_⟩
      rwa [exec_append] at henabled

/-- Each event of a run is possible when it happens, and a run follows it. -/
theorem split_at {before after : List (τ × ε)} {t : τ} {e : ε}
    (h : M.Run start s (before ++ (t, e) :: after) now) :
    ∃ last, M.Run start s before last ∧ last ≤ t ∧
      M.Enabled (M.exec s before) t e ∧
      M.Run t (M.step (M.exec s before) t e) after now := by
  rw [← List.singleton_append, ← List.append_assoc] at h
  obtain ⟨between, hbefore, hafter⟩ := h.split
  obtain ⟨rfl, last, hlast, hle, henabled⟩ := hbefore.of_concat
  rw [exec_concat] at hafter
  exact ⟨last, hlast, hle, henabled, hafter⟩

end Run

end Machine

end Timed
