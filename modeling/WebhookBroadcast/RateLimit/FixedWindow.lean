import Mathlib.Algebra.Order.Group.Basic
import Mathlib.Data.List.Induction
import Mathlib.Data.Nat.Notation
import Mathlib.Tactic.Abel

/-!
# Fixed windows

A limiter that counts attempts in windows.  The first attempt opens a window of
fixed length; while it is open a bounded number of attempts is allowed; the
first attempt after its end opens the next one.  Times are any linearly ordered
group.

Windows follow each other at least a length apart, whatever the clock does, so
one window never allows more than its share.  An interval of that length can
meet two windows, of which the earlier one has spent an attempt on being opened:
that is the bound for arbitrary intervals.
-/

namespace RateLimit

variable {T : Type} [AddCommGroup T] [LinearOrder T]

/-- How many attempts a window allows and how long it is open. -/
structure Limit (T : Type) [AddCommGroup T] [LinearOrder T] where
  maxAttempts : ℕ
  length : T
  maxAttempts_pos : 0 < maxAttempts
  length_pos : 0 < length

/-- An open window: the attempts it has allowed, and its end. -/
structure Window (T : Type) where
  count : ℕ
  resetAt : T
deriving DecidableEq

/-- What is decided about an attempt, and the end of its window. -/
structure Verdict (T : Type) where
  allowed : Bool
  resetAt : T
deriving DecidableEq

namespace Limit

variable (L : Limit T)

/-- The window that an attempt at this time opens. -/
def opened (now : T) : Window T := ⟨1, now + L.length⟩

/-- One attempt. -/
def take (window : Option (Window T)) (now : T) : Verdict T × Window T :=
  match window with
  | none => (⟨true, now + L.length⟩, L.opened now)
  | some w =>
      if w.resetAt ≤ now then (⟨true, now + L.length⟩, L.opened now)
      else if L.maxAttempts ≤ w.count then (⟨false, w.resetAt⟩, w)
      else (⟨true, w.resetAt⟩, ⟨w.count + 1, w.resetAt⟩)

/-- The attempts at these times, each with its verdict. -/
def verdicts : Option (Window T) → List T → List (T × Verdict T)
  | _, [] => []
  | window, now :: rest =>
      (now, (L.take window now).1) ::
        verdicts (some (L.take window now).2) rest

/-- The window after attempts at these times. -/
def after (window : Option (Window T)) (times : List T) : Option (Window T) :=
  times.foldl (fun window now => some (L.take window now).2) window

theorem after_concat (window : Option (Window T)) (times : List T) (now : T) :
    L.after window (times ++ [now]) =
      some (L.take (L.after window times) now).2 := by
  rw [after, List.foldl_append]
  rfl

theorem map_fst_verdicts (window : Option (Window T)) (times : List T) :
    (L.verdicts window times).map Prod.fst = times := by
  induction times generalizing window with
  | nil => rfl
  | cons now rest ih => rw [verdicts, List.map_cons, ih]

/-- What an attempt can do: open a window, be refused in one, or be counted. -/
theorem take_cases (window : Option (Window T)) (now : T) :
    ((∀ w, window = some w → w.resetAt ≤ now) ∧
      L.take window now = (⟨true, now + L.length⟩, L.opened now)) ∨
    ∃ w, window = some w ∧ now < w.resetAt ∧
      ((L.maxAttempts ≤ w.count ∧ L.take window now = (⟨false, w.resetAt⟩, w)) ∨
        (w.count < L.maxAttempts ∧
          L.take window now =
            (⟨true, w.resetAt⟩, ⟨w.count + 1, w.resetAt⟩))) := by
  cases window with
  | none => exact Or.inl ⟨by simp, rfl⟩
  | some w =>
      by_cases hreset : w.resetAt ≤ now
      · left
        refine ⟨fun w' hw' => ?_, by rw [take, if_pos hreset]⟩
        cases hw'
        exact hreset
      · refine Or.inr ⟨w, rfl, not_le.mp hreset, ?_⟩
        by_cases hfull : L.maxAttempts ≤ w.count
        · exact Or.inl ⟨hfull, by rw [take, if_neg hreset, if_pos hfull]⟩
        · exact Or.inr ⟨not_le.mp hfull,
            by rw [take, if_neg hreset, if_neg hfull]⟩

/-! ## One window -/

/-- How many of these attempts were allowed in the window that ends at
`resetAt`. -/
def allowedIn (resetAt : T) (entries : List (T × Verdict T)) : ℕ :=
  entries.countP fun entry => entry.2.allowed && entry.2.resetAt = resetAt

/-- What a window may still allow. -/
def left (window : Option (Window T)) (resetAt : T) : ℕ :=
  match window with
  | none => L.maxAttempts
  | some w =>
      if resetAt = w.resetAt then L.maxAttempts - w.count
      else if w.resetAt < resetAt then L.maxAttempts
      else 0

theorem left_of_lt {window : Option (Window T)} {resetAt : T}
    (h : ∀ w, window = some w → w.resetAt < resetAt) :
    L.left window resetAt = L.maxAttempts := by
  cases window with
  | none => rfl
  | some w =>
      have hlt := h w rfl
      rw [left, if_neg hlt.ne', if_pos hlt]

variable [IsOrderedAddMonoid T]

/-- An attempt uses up what it is allowed. -/
theorem left_take (window : Option (Window T)) (now resetAt : T) :
    L.left (some (L.take window now).2) resetAt +
        (if (L.take window now).1.allowed &&
          (L.take window now).1.resetAt = resetAt then 1 else 0) ≤
      L.left window resetAt := by
  have hpos := L.maxAttempts_pos
  rcases L.take_cases window now with
    ⟨hopen, htake⟩ | ⟨w, rfl, hnow, ⟨hfull, htake⟩ | ⟨hcount, htake⟩⟩
  · rw [htake]
    have hlater : ∀ w, window = some w → w.resetAt < now + L.length :=
      fun w hw => lt_add_of_le_of_pos (hopen w hw) L.length_pos
    rcases lt_trichotomy resetAt (now + L.length) with hlt | rfl | hlt
    · simp [left, opened, hlt.ne, hlt.ne', hlt.not_gt]
    · rw [L.left_of_lt hlater]
      simp only [left, opened, Bool.true_and, decide_true, if_true]
      omega
    · rw [L.left_of_lt fun w hw => (hlater w hw).trans hlt]
      simp [left, opened, hlt.ne, hlt.ne', hlt]
  · rw [htake]
    simp
  · rw [htake]
    by_cases hreset : resetAt = w.resetAt
    · simp only [left, hreset, Bool.true_and, decide_true, if_true]
      omega
    · simp [left, hreset, Ne.symm hreset]

theorem allowedIn_le_left (resetAt : T) (times : List T) :
    ∀ window : Option (Window T),
      allowedIn resetAt (L.verdicts window times) ≤ L.left window resetAt := by
  induction times with
  | nil => exact fun window => Nat.zero_le _
  | cons now rest ih =>
      intro window
      have hrest := ih (some (L.take window now).2)
      rw [verdicts, allowedIn, List.countP_cons]
      exact (Nat.add_le_add_right hrest _).trans (L.left_take window now resetAt)

/-- A window allows no more than its share. -/
theorem allowedIn_le (resetAt : T) (times : List T) :
    allowedIn resetAt (L.verdicts none times) ≤ L.maxAttempts :=
  L.allowedIn_le_left resetAt times none

/-! ## An interval -/

/-- How many of these attempts were allowed within a length from `start`. -/
def allowedFrom (start : T) (entries : List (T × Verdict T)) : ℕ :=
  entries.countP fun entry =>
    entry.2.allowed && (start ≤ entry.1 && entry.1 < start + L.length)

/-- What may still be allowed in the interval: a window that ends in it may be
followed by another one, and so may one that ends before; but such a window is
opened before the interval, or it lasts until its end. -/
def room (start : T) (window : Option (Window T)) : ℕ :=
  match window with
  | none => 2 * L.maxAttempts - 1
  | some w =>
      if w.resetAt ≤ start then 2 * L.maxAttempts - 1
      else if w.resetAt < start + L.length then
        (L.maxAttempts - w.count) + L.maxAttempts
      else L.maxAttempts - w.count

omit [IsOrderedAddMonoid T] in
theorem allowedFrom_of_late {start now : T} (hnow : start + L.length ≤ now)
    {times : List T} (htimes : ∀ t ∈ times, now ≤ t)
    (window : Option (Window T)) :
    L.allowedFrom start (L.verdicts window times) = 0 := by
  rw [allowedFrom, List.countP_eq_zero]
  intro entry hentry
  have hmem : entry.1 ∈ times := by
    rw [← L.map_fst_verdicts window times]
    exact List.mem_map_of_mem hentry
  have hlate : ¬ entry.1 < start + L.length :=
    not_lt.mpr (hnow.trans (htimes _ hmem))
  simp [hlate]

/-- An attempt before the end of the interval uses up what it is allowed. -/
theorem room_take {start now : T} (hnow : now < start + L.length)
    (window : Option (Window T)) :
    L.room start (some (L.take window now).2) +
        (if (L.take window now).1.allowed &&
          (start ≤ now && now < start + L.length) then 1 else 0) ≤
      L.room start window := by
  have hpos := L.maxAttempts_pos
  rcases L.take_cases window now with
    ⟨hopen, htake⟩ | ⟨w, rfl, hbefore, ⟨hfull, htake⟩ | ⟨hcount, htake⟩⟩
  · rw [htake]
    by_cases hstart : start ≤ now
    · -- opened in the interval, the window lasts until its end
      have hlong : start + L.length ≤ now + L.length :=
        add_le_add_left hstart _
      have hpast : ¬ now + L.length ≤ start :=
        not_le.mpr (lt_add_of_le_of_pos hstart L.length_pos)
      have hroom : L.maxAttempts ≤ L.room start window := by
        cases window with
        | none =>
            rw [room]
            omega
        | some w =>
            have hreset : w.resetAt < start + L.length :=
              (hopen w rfl).trans_lt hnow
            rw [room, if_pos hreset]
            split <;> omega
      have hopened : L.room start (some (L.opened now)) =
          L.maxAttempts - 1 := by
        unfold room opened
        dsimp only
        rw [if_neg hpast, if_neg (not_lt.mpr hlong)]
      simp only [hopened, hstart, hnow, decide_true, Bool.and_self, if_true]
      omega
    · have hearly : now < start := not_le.mp hstart
      have hshort : now + L.length < start + L.length :=
        add_lt_add_left hearly _
      have hroom : L.room start window = 2 * L.maxAttempts - 1 := by
        cases window with
        | none => rfl
        | some w => rw [room, if_pos ((hopen w rfl).trans hearly.le)]
      have hopened : L.room start (some (L.opened now)) ≤
          2 * L.maxAttempts - 1 := by
        unfold room opened
        dsimp only
        rw [if_pos hshort]
        split <;> omega
      simpa [hroom, hstart] using hopened
  · rw [htake]
    simp
  · rw [htake]
    by_cases hreset : w.resetAt ≤ start
    · have hearly : ¬ start ≤ now :=
        not_le.mpr (hbefore.trans_le hreset)
      simp [room, hreset, hearly]
    · have hone : (if (true && (decide (start ≤ now) &&
          decide (now < start + L.length))) = true then 1 else 0) ≤ 1 := by
        split <;> omega
      refine (Nat.add_le_add_left hone _).trans ?_
      simp only [room, if_neg hreset]
      split <;> omega

theorem allowedFrom_le_room (start : T) (times : List T)
    (htimes : times.Pairwise (· ≤ ·)) : ∀ window : Option (Window T),
      L.allowedFrom start (L.verdicts window times) ≤ L.room start window := by
  induction times with
  | nil => exact fun window => Nat.zero_le _
  | cons now rest ih =>
      intro window
      by_cases hnow : now < start + L.length
      · have hrest := ih (List.pairwise_cons.mp htimes).2
          (some (L.take window now).2)
        rw [verdicts, allowedFrom, List.countP_cons]
        exact (Nat.add_le_add_right hrest _).trans (L.room_take hnow window)
      · have hlater : ∀ t ∈ now :: rest, now ≤ t := by
          intro t ht
          rcases List.mem_cons.mp ht with rfl | ht
          · exact le_refl _
          · exact (List.pairwise_cons.mp htimes).1 t ht
        rw [L.allowedFrom_of_late (not_lt.mp hnow) hlater]
        exact Nat.zero_le _

/-- An interval of the length of a window allows at most twice its share, less
the attempt that opened the earlier window. -/
theorem allowedFrom_le (start : T) {times : List T}
    (htimes : times.Pairwise (· ≤ ·)) :
    L.allowedFrom start (L.verdicts none times) ≤ 2 * L.maxAttempts - 1 :=
  L.allowedFrom_le_room start times htimes none

/-! ## A refusal -/

omit [IsOrderedAddMonoid T] in
/-- A window has been opened by an attempt. -/
theorem opened_after (times : List T) : ∀ w, L.after none times = some w →
    ∃ t ∈ times, w.resetAt = t + L.length := by
  induction times using List.reverseRecOn with
  | nil => exact fun w hw => by cases hw
  | append_singleton times now ih =>
      intro w hw
      rw [L.after_concat, Option.some.injEq] at hw
      have hkept {w' : Window T} (hw' : L.after none times = some w')
          (hreset : w.resetAt = w'.resetAt) :
          ∃ t ∈ times ++ [now], w.resetAt = t + L.length := by
        obtain ⟨t, ht, htw⟩ := ih w' hw'
        exact ⟨t, List.mem_append_left _ ht, hreset.trans htw⟩
      rcases L.take_cases (L.after none times) now with
        ⟨hopen, htake⟩ | ⟨w', hw', hbefore, ⟨hfull, htake⟩ | ⟨hcount, htake⟩⟩
      · rw [htake] at hw
        exact ⟨now, by simp, by rw [← hw]; rfl⟩
      · rw [htake] at hw
        exact hkept hw' (by rw [← hw])
      · rw [htake] at hw
        exact hkept hw' (by rw [← hw])

omit [IsOrderedAddMonoid T] in
/-- The window after some attempts counts attempts since it was opened. -/
theorem count_after (times : List T) (htimes : times.Pairwise (· ≤ ·)) :
    ∀ w, L.after none times = some w →
      w.count ≤ times.countP fun t => w.resetAt - L.length ≤ t := by
  induction times using List.reverseRecOn with
  | nil => exact fun w hw => by cases hw
  | append_singleton times now ih =>
      have hearlier := (List.pairwise_append.mp htimes).1
      have hnow : ∀ t ∈ times, t ≤ now := fun t ht =>
        (List.pairwise_append.mp htimes).2.2 t ht now (by simp)
      have hcounts := ih hearlier
      intro w hw
      rw [L.after_concat, Option.some.injEq] at hw
      rw [List.countP_append, List.countP_singleton]
      rcases L.take_cases (L.after none times) now with
        ⟨hopen, htake⟩ | ⟨w', hw', hbefore, ⟨hfull, htake⟩ | ⟨hcount, htake⟩⟩
      · rw [htake] at hw
        rw [← hw]
        simp [opened]
      · rw [htake] at hw
        cases hw
        exact (hcounts _ hw').trans (Nat.le_add_right _ _)
      · rw [htake] at hw
        cases hw
        have hcount' := hcounts _ hw'
        obtain ⟨t, ht, hreset⟩ := L.opened_after times w' hw'
        have hsince : w'.resetAt - L.length ≤ now := by
          rw [hreset, add_sub_cancel_right]
          exact hnow t ht
        dsimp only at hcount' ⊢
        rw [if_pos (decide_eq_true hsince)]
        exact Nat.add_le_add_right hcount' 1

/-- An attempt is refused only when as many attempts as the limit allows have
been made within its length. -/
theorem count_of_refused {times : List T} {now : T}
    (htimes : (times ++ [now]).Pairwise (· ≤ ·))
    (h : (L.take (L.after none times) now).1.allowed = false) :
    L.maxAttempts ≤ times.countP fun t => now - L.length < t := by
  rcases L.take_cases (L.after none times) now with
    ⟨hopen, htake⟩ | ⟨w, hw, hbefore, ⟨hfull, htake⟩ | ⟨hcount, htake⟩⟩
  · rw [htake] at h
    cases h
  · refine hfull.trans ((L.count_after times
      (List.pairwise_append.mp htimes).1 w hw).trans ?_)
    apply List.countP_mono_left
    intro t _ ht
    rw [decide_eq_true_eq] at ht ⊢
    exact (sub_lt_sub_right hbefore _).trans_le ht
  · rw [htake] at h
    cases h

/-! ## Many clients -/

section Clients

variable {κ ρ : Type} [DecidableEq κ]

/-- One attempt where every client has a window of its own. -/
def takeFor (windows : κ → Option (Window T)) (client : κ) (now : T) :
    Verdict T × (κ → Option (Window T)) :=
  ((L.take (windows client) now).1,
    Function.update windows client (some (L.take (windows client) now).2))

/-- These attempts, made by clients at times, each with its verdict. -/
def verdictsFor (client : ρ → κ) (time : ρ → T) :
    (κ → Option (Window T)) → List ρ → List (ρ × Verdict T)
  | _, [] => []
  | windows, attempt :: rest =>
      (attempt, (L.takeFor windows (client attempt) (time attempt)).1) ::
        verdictsFor client time
          (L.takeFor windows (client attempt) (time attempt)).2 rest

/-- The windows after these attempts. -/
def afterFor (client : ρ → κ) (time : ρ → T)
    (windows : κ → Option (Window T)) (attempts : List ρ) :
    κ → Option (Window T) :=
  attempts.foldl (fun windows attempt =>
    (L.takeFor windows (client attempt) (time attempt)).2) windows

variable {client : ρ → κ} {time : ρ → T}

omit [IsOrderedAddMonoid T]

theorem map_fst_verdictsFor (windows : κ → Option (Window T))
    (attempts : List ρ) :
    (L.verdictsFor client time windows attempts).map Prod.fst = attempts := by
  induction attempts generalizing windows with
  | nil => rfl
  | cons attempt rest ih => rw [verdictsFor, List.map_cons, ih]

/-- The verdicts on one client's attempts are those of a limiter that sees
nobody else. -/
theorem filter_verdictsFor (k : κ) (windows : κ → Option (Window T))
    (attempts : List ρ) :
    ((L.verdictsFor client time windows attempts).filter fun entry =>
        client entry.1 = k).map (fun entry => (time entry.1, entry.2)) =
      L.verdicts (windows k)
        ((attempts.filter fun attempt => client attempt = k).map time) := by
  induction attempts generalizing windows with
  | nil => rfl
  | cons attempt rest ih =>
      by_cases hk : client attempt = k
      · simp only [verdictsFor, List.filter_cons, hk, decide_true, if_true,
          List.map_cons, verdicts, ih]
        simp [takeFor]
      · simp only [verdictsFor, List.filter_cons, hk, decide_false,
          Bool.false_eq_true, if_false, ih]
        simp [takeFor, Function.update_of_ne (Ne.symm hk)]

theorem afterFor_apply (k : κ) (windows : κ → Option (Window T))
    (attempts : List ρ) :
    L.afterFor client time windows attempts k =
      L.after (windows k)
        ((attempts.filter fun attempt => client attempt = k).map time) := by
  induction attempts generalizing windows with
  | nil => rfl
  | cons attempt rest ih =>
      rw [afterFor, List.foldl_cons]
      refine (ih _).trans ?_
      by_cases hk : client attempt = k
      · simp [hk, takeFor, after]
      · simp [hk, takeFor,
          Function.update_of_ne (Ne.symm hk)]

/-- Only who is who matters, not what the clients are called. -/
theorem verdictsFor_congr {κ' : Type} [DecidableEq κ'] {client' : ρ → κ'}
    {windows : κ → Option (Window T)} {windows' : κ' → Option (Window T)}
    {attempts : List ρ}
    (hsame : ∀ a ∈ attempts, ∀ b ∈ attempts,
      client a = client b ↔ client' a = client' b)
    (hwindows : ∀ a ∈ attempts, windows (client a) = windows' (client' a)) :
    L.verdictsFor client time windows attempts =
      L.verdictsFor client' time windows' attempts := by
  induction attempts generalizing windows windows' with
  | nil => rfl
  | cons attempt rest ih =>
      have hfirst := hwindows attempt (by simp)
      have hrest : ∀ b ∈ rest,
          (L.takeFor windows (client attempt) (time attempt)).2 (client b) =
            (L.takeFor windows' (client' attempt) (time attempt)).2
              (client' b) := by
        intro b hb
        have hiff := hsame b (by simp [hb]) attempt (by simp)
        by_cases hk : client b = client attempt
        · simp [takeFor, hk, hiff.mp hk, hfirst]
        · have hk' : client' b ≠ client' attempt := fun h => hk (hiff.mpr h)
          simp [takeFor, Function.update_of_ne hk, Function.update_of_ne hk',
            hwindows b (by simp [hb])]
      rw [verdictsFor, verdictsFor, ih (fun a ha b hb =>
        hsame a (by simp [ha]) b (by simp [hb])) hrest]
      simp [takeFor, hfirst]

end Clients

end Limit

end RateLimit
