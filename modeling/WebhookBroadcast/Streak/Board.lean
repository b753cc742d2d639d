import Mathlib.Order.Bounds.Basic

/-!
# Failure streaks read off a board

Items succeed and fail at certain times.  A log keeps every outcome ever
recorded; a board shows the current outcome of each item, if it has one.
Recording puts an outcome into both, erasing takes outcomes off the board and
leaves the log alone.

A streak starts at the earliest failure after the last success.  Reading it off
the board is right about the log as long as erasing loses neither a success
that a failure on the board precedes (soundness) nor the first failure after
the last success (completeness).
-/

namespace Streak

/-- An outcome and its time. -/
structure Mark (τ : Type) where
  success : Bool
  at_ : τ
deriving DecidableEq

/-- The current outcome of each item. -/
abbrev Board (ι τ : Type) := ι → Option (Mark τ)

variable {ι τ : Type}

namespace Board

/-- Some item has this outcome. -/
def Shows (B : Board ι τ) (m : Mark τ) : Prop := ∃ i, B i = some m

def record [DecidableEq ι] (B : Board ι τ) (i : ι) (m : Mark τ) : Board ι τ :=
  Function.update B i (some m)

def erase (B : Board ι τ) (p : ι → Prop) [DecidablePred p] : Board ι τ :=
  fun i => if p i then none else B i

theorem shows_record_iff [DecidableEq ι] {B : Board ι τ} {i : ι}
    (hi : B i = none) {m m' : Mark τ} :
    (B.record i m).Shows m' ↔ B.Shows m' ∨ m' = m := by
  constructor
  · rintro ⟨j, hj⟩
    by_cases hji : j = i
    · subst hji
      rw [record, Function.update_self] at hj
      exact Or.inr (Option.some.inj hj).symm
    · rw [record, Function.update_of_ne hji] at hj
      exact Or.inl ⟨j, hj⟩
  · rintro (⟨j, hj⟩ | rfl)
    · have hji : j ≠ i := by
        rintro rfl
        rw [hi] at hj
        cases hj
      exact ⟨j, by rw [record, Function.update_of_ne hji, hj]⟩
    · exact ⟨i, Function.update_self i _ B⟩

/-- A recorded outcome keeps the board within the log. -/
theorem mem_log_of_record [DecidableEq ι] {B : Board ι τ} {log : List (Mark τ)}
    (hB : ∀ m, B.Shows m → m ∈ log) {i : ι} (hi : B i = none) {m m' : Mark τ}
    (hm' : (B.record i m).Shows m') : m' ∈ log ++ [m] := by
  rw [List.mem_append, List.mem_singleton]
  exact ((shows_record_iff hi).mp hm').imp (hB m') id

theorem not_shows_blank (m : Mark τ) :
    ¬ Shows (fun _ : ι => none) m := by
  rintro ⟨i, hi⟩
  cases hi

theorem shows_erase_iff {B : Board ι τ} {p : ι → Prop} [DecidablePred p]
    {m : Mark τ} : (B.erase p).Shows m ↔ ∃ i, ¬ p i ∧ B i = some m := by
  constructor
  · rintro ⟨i, hi⟩
    by_cases hp : p i
    · simp [erase, hp] at hi
    · exact ⟨i, hp, by simpa [erase, hp] using hi⟩
  · rintro ⟨i, hp, hi⟩
    exact ⟨i, by simpa [erase, hp] using hi⟩

theorem Shows.of_erase {B : Board ι τ} {p : ι → Prop} [DecidablePred p]
    {m : Mark τ} (h : (B.erase p).Shows m) : B.Shows m := by
  obtain ⟨i, _, hi⟩ := shows_erase_iff.mp h
  exact ⟨i, hi⟩

end Board

/-- One turn of a board, with what it adds to the log: a new outcome is
recorded, or the items of `p` are erased. -/
inductive Turn [DecidableEq ι] (p : ι → Prop) [DecidablePred p]
    (B : Board ι τ) : Board ι τ → List (Mark τ) → Prop
  | record (i : ι) (m : Mark τ) (h : B i = none) : Turn p B (B.record i m) [m]
  | erase : Turn p B (B.erase p) []

theorem Turn.congr [DecidableEq ι] {p q : ι → Prop} [DecidablePred p]
    [DecidablePred q] {B B' : Board ι τ} {new : List (Mark τ)}
    (h : Turn p B B' new) (hpq : ∀ i, p i ↔ q i) : Turn q B B' new := by
  cases h with
  | record i m hi => exact .record i m hi
  | erase =>
      have hsame : B.erase p = B.erase q :=
        funext fun i => if_congr (hpq i) rfl rfl
      rw [hsame]
      exact .erase

/-- A turn in which nothing is erased and nothing recorded. -/
theorem Turn.stay [DecidableEq ι] {p : ι → Prop} [DecidablePred p]
    (hp : ∀ i, ¬ p i) (B : Board ι τ) : Turn p B B [] := by
  have herase : B.erase p = B := funext fun i => if_neg (hp i)
  have hturn : Turn p B (B.erase p) [] := .erase
  rwa [herase] at hturn

/-- A turn that erases nothing adds to the board what it adds to the log. -/
theorem Turn.shows_iff [DecidableEq ι] {p : ι → Prop} [DecidablePred p]
    {B B' : Board ι τ} {new : List (Mark τ)} (h : Turn p B B' new)
    (hp : ∀ i, ¬ p i) {m : Mark τ} : B'.Shows m ↔ B.Shows m ∨ m ∈ new := by
  cases h with
  | record i m' hi =>
      rw [Board.shows_record_iff hi, List.mem_singleton]
  | erase =>
      rw [Board.shows_erase_iff]
      simp [hp, Board.Shows]

/-- After a turn the board still shows only what was recorded. -/
theorem Turn.mem_log [DecidableEq ι] {p : ι → Prop} [DecidablePred p]
    {B B' : Board ι τ} {new log : List (Mark τ)} (h : Turn p B B' new)
    (hB : ∀ m, B.Shows m → m ∈ log) {m : Mark τ} (hm : B'.Shows m) :
    m ∈ log ++ new := by
  cases h with
  | record i m' hi => exact Board.mem_log_of_record hB hi hm
  | erase =>
      rw [List.append_nil]
      exact hB m hm.of_erase

variable [LinearOrder τ]

namespace Board

/-- A failure on the board that is later than every success on it. -/
def Unbroken (B : Board ι τ) (s : τ) : Prop :=
  B.Shows ⟨false, s⟩ ∧ ∀ u, B.Shows ⟨true, u⟩ → u < s

/-- The first of these failures. -/
def StreakStart (B : Board ι τ) (s : τ) : Prop :=
  IsLeast {t | B.Unbroken t} s

/-- Whenever a success is erased that an earlier failure on the board precedes,
a success that is no earlier stays. -/
def KeepsSuccess (B : Board ι τ) (p : ι → Prop) : Prop :=
  ∀ i u, p i → B i = some ⟨true, u⟩ →
    ∀ j s, ¬ p j → B j = some ⟨false, s⟩ → s < u →
      ∃ k v, ¬ p k ∧ B k = some ⟨true, v⟩ ∧ u ≤ v

/-- Whenever a failure after the last success is erased, another one that is no
later stays. -/
def KeepsStart (B : Board ι τ) (p : ι → Prop) : Prop :=
  ∀ i s, p i → B i = some ⟨false, s⟩ → B.Unbroken s →
    ∃ j s', ¬ p j ∧ B j = some ⟨false, s'⟩ ∧ s' ≤ s ∧ B.Unbroken s'

end Board

/-! ## Soundness -/

/-- The board shows only what was recorded, and a recorded success is either
superseded on the board or precedes every failure on it. -/
structure Sound (B : Board ι τ) (log : List (Mark τ)) : Prop where
  recorded : ∀ m, B.Shows m → m ∈ log
  remembered : ∀ u, ⟨true, u⟩ ∈ log →
    (∃ v, u ≤ v ∧ B.Shows ⟨true, v⟩) ∨ ∀ s, B.Shows ⟨false, s⟩ → u ≤ s

section Soundness

variable {B : Board ι τ} {log : List (Mark τ)}

theorem Sound.blank : Sound (fun _ : ι => none) ([] : List (Mark τ)) where
  recorded := fun m hm => absurd hm (Board.not_shows_blank m)
  remembered := by simp

theorem Sound.record [DecidableEq ι] (h : Sound B log) {i : ι}
    (hi : B i = none) {m : Mark τ} (hm : ∀ m' ∈ log, m'.at_ ≤ m.at_) :
    Sound (B.record i m) (log ++ [m]) where
  recorded := fun _ hm' => Board.mem_log_of_record h.recorded hi hm'
  remembered := by
    intro u hu
    rcases List.mem_append.mp hu with hold | hu
    · rcases h.remembered u hold with ⟨v, huv, hv⟩ | hall
      · exact Or.inl ⟨v, huv, (Board.shows_record_iff hi).mpr (Or.inl hv)⟩
      · refine Or.inr fun s hs => ?_
        rcases (Board.shows_record_iff hi).mp hs with hs | rfl
        · exact hall s hs
        · exact hm _ hold
    · rw [List.mem_singleton] at hu
      exact Or.inl ⟨u, le_rfl, (Board.shows_record_iff hi).mpr (Or.inr hu)⟩

theorem Sound.erase (h : Sound B log) {p : ι → Prop} [DecidablePred p]
    (hp : B.KeepsSuccess p) : Sound (B.erase p) log where
  recorded := fun m hm => h.recorded m hm.of_erase
  remembered := by
    intro u hu
    rcases h.remembered u hu with ⟨v, huv, i, hi⟩ | hall
    · by_cases hgone : p i
      · by_cases hlate : ∃ w, u ≤ w ∧ (B.erase p).Shows ⟨true, w⟩
        · exact Or.inl hlate
        · refine Or.inr fun s hs => ?_
          obtain ⟨j, hj, hjs⟩ := Board.shows_erase_iff.mp hs
          by_contra hsu
          obtain ⟨k, w, hk, hkw, hvw⟩ := hp i v hgone hi j s hj hjs
            (lt_of_lt_of_le (not_le.mp hsu) huv)
          exact hlate ⟨w, huv.trans hvw,
            Board.shows_erase_iff.mpr ⟨k, hk, hkw⟩⟩
      · exact Or.inl ⟨v, huv, Board.shows_erase_iff.mpr ⟨i, hgone, hi⟩⟩
    · exact Or.inr fun s hs => hall s hs.of_erase

theorem Sound.turn [DecidableEq ι] (h : Sound B log) {p : ι → Prop}
    [DecidablePred p] {B' : Board ι τ} {new : List (Mark τ)}
    (hturn : Turn p B B' new)
    (hnew : ∀ m ∈ new, ∀ m' ∈ log, m'.at_ ≤ m.at_)
    (hp : B.KeepsSuccess p) : Sound B' (log ++ new) := by
  cases hturn with
  | record i m hi => exact h.record hi (hnew m (by simp))
  | erase =>
      rw [List.append_nil]
      exact h.erase hp

/-- A streak on the board is one of the log. -/
theorem Sound.unbroken (h : Sound B log) {s : τ} (hs : B.Unbroken s) :
    ⟨false, s⟩ ∈ log ∧ ∀ u, ⟨true, u⟩ ∈ log → u ≤ s := by
  refine ⟨h.recorded _ hs.1, fun u hu => ?_⟩
  rcases h.remembered u hu with ⟨v, huv, hv⟩ | hall
  · exact huv.trans (hs.2 v hv).le
  · exact hall s hs.1

end Soundness

/-! ## Completeness -/

/-- The board shows only what was recorded, and of every recorded failure after
the last recorded success it shows a streak that started no later. -/
structure Complete (B : Board ι τ) (log : List (Mark τ)) : Prop where
  recorded : ∀ m, B.Shows m → m ∈ log
  started : ∀ s, ⟨false, s⟩ ∈ log → (∀ u, ⟨true, u⟩ ∈ log → u < s) →
    ∃ s' ≤ s, B.Unbroken s'

section Completeness

variable {B : Board ι τ} {log : List (Mark τ)}

theorem Complete.blank : Complete (fun _ : ι => none) ([] : List (Mark τ)) where
  recorded := fun m hm => absurd hm (Board.not_shows_blank m)
  started := by simp

theorem Complete.record [DecidableEq ι] (h : Complete B log) {i : ι}
    (hi : B i = none) {m : Mark τ} (hm : ∀ m' ∈ log, m'.at_ ≤ m.at_) :
    Complete (B.record i m) (log ++ [m]) where
  recorded := fun _ hm' => Board.mem_log_of_record h.recorded hi hm'
  started := by
    intro s hs hlast
    rcases List.mem_append.mp hs with hold | hs
    · obtain ⟨s', hs's, hshown, hbroken⟩ :=
        h.started s hold fun u hu => hlast u (List.mem_append_left _ hu)
      refine ⟨s', hs's, (Board.shows_record_iff hi).mpr (Or.inl hshown), ?_⟩
      intro u hu
      rcases (Board.shows_record_iff hi).mp hu with hu | rfl
      · exact hbroken u hu
      · -- a success is recorded no earlier than the failure it would precede
        exact absurd (hlast u (by simp)) (not_lt.mpr (hm _ hold))
    · rw [List.mem_singleton] at hs
      refine ⟨s, le_rfl, (Board.shows_record_iff hi).mpr (Or.inr hs), ?_⟩
      intro u hu
      rcases (Board.shows_record_iff hi).mp hu with hu | hu
      · exact hlast u (List.mem_append_left _ (h.recorded _ hu))
      · rw [← hs] at hu
        cases hu

theorem Complete.erase (h : Complete B log) {p : ι → Prop} [DecidablePred p]
    (hp : B.KeepsStart p) : Complete (B.erase p) log where
  recorded := fun m hm => h.recorded m hm.of_erase
  started := by
    intro s hs hlast
    obtain ⟨s', hs's, ⟨i, hi⟩, hbroken⟩ := h.started s hs hlast
    by_cases hgone : p i
    · obtain ⟨j, s'', hj, hjs, hle, hunbroken⟩ :=
        hp i s' hgone hi ⟨⟨i, hi⟩, hbroken⟩
      exact ⟨s'', hle.trans hs's, Board.shows_erase_iff.mpr ⟨j, hj, hjs⟩,
        fun u hu => hunbroken.2 u hu.of_erase⟩
    · exact ⟨s', hs's, Board.shows_erase_iff.mpr ⟨i, hgone, hi⟩,
        fun u hu => hbroken u hu.of_erase⟩

theorem Complete.turn [DecidableEq ι] (h : Complete B log) {p : ι → Prop}
    [DecidablePred p] {B' : Board ι τ} {new : List (Mark τ)}
    (hturn : Turn p B B' new)
    (hnew : ∀ m ∈ new, ∀ m' ∈ log, m'.at_ ≤ m.at_)
    (hp : B.KeepsStart p) : Complete B' (log ++ new) := by
  cases hturn with
  | record i m hi => exact h.record hi (hnew m (by simp))
  | erase =>
      rw [List.append_nil]
      exact h.erase hp

end Completeness

/-! ## Boards that keep their successes -/

/-- Every recorded success is on the board. -/
def Retains (B : Board ι τ) (log : List (Mark τ)) : Prop :=
  ∀ u, ⟨true, u⟩ ∈ log → B.Shows ⟨true, u⟩

section Retention

variable {B : Board ι τ} {log : List (Mark τ)}

omit [LinearOrder τ] in
theorem Retains.record [DecidableEq ι] (h : Retains B log) {i : ι}
    (hi : B i = none) (m : Mark τ) : Retains (B.record i m) (log ++ [m]) := by
  intro u hu
  rw [List.mem_append, List.mem_singleton] at hu
  exact (Board.shows_record_iff hi).mpr (hu.imp (h u) id)

omit [LinearOrder τ] in
theorem Retains.erase (h : Retains B log) {p : ι → Prop} [DecidablePred p]
    (hp : ∀ i u, p i → B i ≠ some ⟨true, u⟩) : Retains (B.erase p) log := by
  intro u hu
  obtain ⟨i, hi⟩ := h u hu
  exact Board.shows_erase_iff.mpr ⟨i, fun hgone => hp i u hgone hi, hi⟩

omit [LinearOrder τ] in
theorem Retains.turn [DecidableEq ι] (h : Retains B log) {p : ι → Prop}
    [DecidablePred p] {B' : Board ι τ} {new : List (Mark τ)}
    (hturn : Turn p B B' new) (hp : ∀ i u, p i → B i ≠ some ⟨true, u⟩) :
    Retains B' (log ++ new) := by
  cases hturn with
  | record i m hi => exact h.record hi m
  | erase =>
      rw [List.append_nil]
      exact h.erase hp

/-- A streak on such a board starts after every recorded success. -/
theorem Retains.lt_of_unbroken (h : Retains B log) {s u : τ}
    (hs : B.Unbroken s) (hu : ⟨true, u⟩ ∈ log) : u < s :=
  hs.2 u (h u hu)

end Retention

end Streak
