import Mathlib.Data.Finset.Card
import Mathlib.Data.List.Nodup
import Mathlib.Data.List.Sort
import Mathlib.Logic.Function.Basic

/-!
# Keyset pagination

A page is the first rows after a cursor in key order, and its cursor is the key
of its last row, as long as one row more than the page holds was found.  A walk
follows the cursors from request to request while the rows, and even their keys,
may change in between.

Whatever changes, the keys that are listed increase (`pairwise_walk`), a row
that stays and does not move back is listed (`mem_walk`), and if the keys ahead
are finitely many the walk ends (`ended_walk`).  When nothing changes the pages
partition the rows (`partitioned_walk`).
-/

namespace Relational

variable {ρ κ : Type}

/-! ## Pages -/

/-- The rows that a request finds, with their keys. -/
structure Source (ρ κ : Type) where
  rows : List ρ
  key : ρ → κ

structure Page (ρ κ : Type) where
  items : List ρ
  next : Option κ

/-- The key comes after the cursor, if there is one. -/
def After [LT κ] (cursor : Option κ) (k : κ) : Prop := ∀ c ∈ cursor, c < k

instance [LT κ] [DecidableLT κ] (cursor : Option κ) (k : κ) :
    Decidable (After cursor k) :=
  inferInstanceAs (Decidable (∀ c ∈ cursor, c < k))

theorem after_none [LT κ] (k : κ) : After none k := fun _ h => nomatch h

theorem after_some [LT κ] {c k : κ} : After (some c) k ↔ c < k :=
  ⟨fun h => h c rfl, fun h _ hc => Option.some.inj hc ▸ h⟩

/-- A keyset `WHERE` that compares as the order does. -/
theorem all_precedes [LT κ] [DecidableLT κ] {precedes : κ → κ → Bool}
    (h : ∀ {c k}, precedes c k = true ↔ c < k) (cursor : Option κ) (k : κ) :
    (cursor.all fun c => precedes c k) = decide (After cursor k) := by
  cases cursor with
  | none => simp [after_none]
  | some c => rw [Option.all_some, Bool.eq_iff_iff, decide_eq_true_eq,
      after_some, h]

namespace Source

variable [LinearOrder κ] (s : Source ρ κ)

/-- Different rows have different keys. -/
def Keyed : Prop := (s.rows.map s.key).Nodup

/-- `WHERE key > cursor ORDER BY key`. -/
def rest (cursor : Option κ) : List ρ :=
  (s.rows.filter fun r => After cursor (s.key r)).mergeSort
    fun a b => s.key a ≤ s.key b

/-- The page after the cursor, out of `LIMIT limit + 1` rows. -/
def page (limit : ℕ) (cursor : Option κ) : Page ρ κ :=
  let rows := (s.rest cursor).take (limit + 1)
  let hasMore : Bool := rows.length > limit
  let items := if hasMore then rows.take limit else rows
  { items := items
    next := if hasMore then items.getLast?.map s.key else none }

variable {s}

theorem mem_rest {cursor : Option κ} {r : ρ} :
    r ∈ s.rest cursor ↔ r ∈ s.rows ∧ After cursor (s.key r) := by
  simp [rest]

/-- The rows after the cursor, by a predicate for what comes after it. -/
theorem rest_filter (rows : List ρ) (key : ρ → κ) (p : ρ → Bool)
    {cursor : Option κ} {q : ρ → Bool}
    (hq : ∀ r, q r = decide (After cursor (key r))) :
    (Source.mk (rows.filter p) key).rest cursor =
      (rows.filter fun r => p r && q r).mergeSort
        fun a b => key a ≤ key b := by
  rw [rest, List.filter_filter]
  congr 1
  apply List.filter_congr
  intro r _
  rw [Bool.and_comm, hq]

/-- The rows after the cursor are in strictly increasing order. -/
theorem pairwise_rest (hs : s.Keyed) (cursor : Option κ) :
    (s.rest cursor).Pairwise fun a b => s.key a < s.key b := by
  have hsorted : (s.rest cursor).Pairwise fun a b =>
      decide (s.key a ≤ s.key b) = true := by
    apply List.pairwise_mergeSort
    · intro a b c hab hbc
      simp only [decide_eq_true_eq] at hab hbc ⊢
      exact hab.trans hbc
    · intro a b
      simpa using le_total (s.key a) (s.key b)
  have hdistinct : (s.rest cursor).Pairwise fun a b => s.key a ≠ s.key b := by
    rw [← List.pairwise_map (f := s.key)]
    refine ((List.mergeSort_perm _ _).map s.key).nodup_iff.mpr ?_
    exact hs.sublist (List.filter_sublist.map s.key)
  exact hsorted.imp₂ (fun _ _ hle => lt_of_le_of_ne (of_decide_eq_true hle))
    hdistinct

/-- A page keeps the rows after the cursor in their order. -/
theorem sublist_page (s : Source ρ κ) (limit : ℕ) (cursor : Option κ) :
    (s.page limit cursor).items.Sublist (s.rest cursor) := by
  have hrows : ((s.rest cursor).take (limit + 1)).Sublist (s.rest cursor) :=
    List.take_sublist _ _
  simp only [page]
  split
  · exact (List.take_sublist _ _).trans hrows
  · exact hrows

theorem page_of_lt {limit : ℕ} {cursor : Option κ}
    (h : limit < (s.rest cursor).length) :
    s.page limit cursor = ⟨(s.rest cursor).take limit,
      ((s.rest cursor).take limit).getLast?.map s.key⟩ := by
  have hlength : limit < ((s.rest cursor).take (limit + 1)).length := by
    rw [List.length_take]
    omega
  have htake : ((s.rest cursor).take (limit + 1)).take limit =
      (s.rest cursor).take limit := by
    rw [List.take_take, Nat.min_eq_left (Nat.le_succ limit)]
  simp only [page, gt_iff_lt, hlength, decide_true, if_true, htake]

theorem page_of_le {limit : ℕ} {cursor : Option κ}
    (h : (s.rest cursor).length ≤ limit) :
    s.page limit cursor = ⟨s.rest cursor, none⟩ := by
  have hall : (s.rest cursor).take (limit + 1) = s.rest cursor :=
    List.take_of_length_le (by omega)
  simp only [page, hall, gt_iff_lt, not_lt.mpr h, decide_false,
    Bool.false_eq_true, if_false]

/-- A page is cut off at the limit, or it is all that there is. -/
theorem page_cases (s : Source ρ κ) {limit : ℕ} (hlimit : 1 ≤ limit)
    (cursor : Option κ) :
    (∃ last, (s.page limit cursor).items = (s.rest cursor).take limit ∧
      (s.page limit cursor).items.length = limit ∧
      (s.page limit cursor).items.getLast? = some last ∧
      (s.page limit cursor).next = some (s.key last)) ∨
    ((s.page limit cursor).items = s.rest cursor ∧
      (s.page limit cursor).items.length ≤ limit ∧
      (s.page limit cursor).next = none) := by
  by_cases hmore : limit < (s.rest cursor).length
  · have htaken : ((s.rest cursor).take limit).length = limit := by
      rw [List.length_take]
      omega
    have hne : (s.rest cursor).take limit ≠ [] := by
      rw [← List.length_pos_iff, htaken]
      exact hlimit
    rw [page_of_lt hmore]
    refine Or.inl ⟨_, rfl, htaken, List.getLast?_eq_some_getLast hne, ?_⟩
    rw [List.getLast?_eq_some_getLast hne, Option.map_some]
  · rw [page_of_le (not_lt.mp hmore)]
    exact Or.inr ⟨rfl, not_lt.mp hmore, rfl⟩

variable {limit : ℕ} {cursor : Option κ}

/-- The items are in strictly increasing order. -/
theorem pairwise_page (hs : s.Keyed) :
    (s.page limit cursor).items.Pairwise fun a b => s.key a < s.key b :=
  (pairwise_rest hs cursor).sublist (s.sublist_page limit cursor)

theorem mem_of_mem_page {r : ρ} (hr : r ∈ (s.page limit cursor).items) :
    r ∈ s.rows ∧ After cursor (s.key r) :=
  mem_rest.mp ((s.sublist_page limit cursor).mem hr)

/-- A page without a cursor holds every row that is left. -/
theorem mem_page_of_next_none (hlimit : 1 ≤ limit)
    (hnext : (s.page limit cursor).next = none) {r : ρ} (hr : r ∈ s.rows)
    (hafter : After cursor (s.key r)) : r ∈ (s.page limit cursor).items := by
  rcases s.page_cases hlimit cursor with ⟨last, -, -, -, hsome⟩ | ⟨hitems, -⟩
  · rw [hnext] at hsome
    cases hsome
  · rw [hitems]
    exact mem_rest.mpr ⟨hr, hafter⟩

/-- A page with a cursor is full, ends at the cursor and holds every row up to
it. -/
theorem page_of_next_some (hs : s.Keyed) (hlimit : 1 ≤ limit) {k : κ}
    (hnext : (s.page limit cursor).next = some k) :
    (s.page limit cursor).items.length = limit ∧
      (∃ last ∈ s.rows, s.key last = k ∧ After cursor k) ∧
      (∀ r ∈ (s.page limit cursor).items, s.key r ≤ k) ∧
      ∀ r ∈ s.rows, After cursor (s.key r) → s.key r ≤ k →
        r ∈ (s.page limit cursor).items := by
  rcases s.page_cases hlimit cursor with
    ⟨last, hitems, hlength, hlast, hsome⟩ | ⟨-, -, hnone⟩
  · obtain rfl : s.key last = k := Option.some.inj (hsome.symm.trans hnext)
    have hmem := List.mem_of_getLast? hlast
    obtain ⟨init, hinit⟩ : ∃ init,
        (s.page limit cursor).items = init ++ [last] :=
      List.getLast?_eq_some_iff.mp hlast
    have hsorted : (s.page limit cursor).items.Pairwise
        fun a b => s.key a < s.key b := pairwise_page hs
    refine ⟨hlength, ⟨last, (mem_of_mem_page hmem).1, rfl,
      (mem_of_mem_page hmem).2⟩, ?_, ?_⟩
    · intro r hr
      rw [hinit, List.pairwise_append] at hsorted
      rw [hinit, List.mem_append, List.mem_singleton] at hr
      rcases hr with hr | rfl
      · exact (hsorted.2.2 r hr last (List.mem_singleton_self _)).le
      · exact le_refl _
    · intro r hr hafter hle
      -- what the page leaves out lies strictly after its last row
      have hrest := mem_rest.mpr ⟨hr, hafter⟩
      rw [← List.take_append_drop limit (s.rest cursor), List.mem_append,
        ← hitems] at hrest
      rcases hrest with hrest | hrest
      · exact hrest
      · have hall := pairwise_rest hs cursor
        rw [← List.take_append_drop limit (s.rest cursor),
          List.pairwise_append, ← hitems] at hall
        exact absurd hle (not_le.mpr (hall.2.2 last hmem r hrest))
  · rw [hnext] at hnone
    cases hnone

end Source

/-! ## Walks -/

/-- The last page has no cursor. -/
def Ended (pages : List (Page ρ κ)) : Prop :=
  ∃ last ∈ pages.getLast?, last.next = none

/-- All items, page after page. -/
def listed (pages : List (Page ρ κ)) : List ρ := pages.flatMap Page.items

theorem Ended.cons {pages : List (Page ρ κ)} (h : Ended pages)
    (page : Page ρ κ) : Ended (page :: pages) := by
  obtain ⟨last, hlast, hnext⟩ := h
  refine ⟨last, ?_, hnext⟩
  rw [Option.mem_def] at hlast ⊢
  rw [List.getLast?_cons, hlast, Option.getD_some]

theorem Ended.of_cons {page : Page ρ κ} {pages : List (Page ρ κ)}
    (h : Ended (page :: pages)) (hpage : page.next ≠ none) : Ended pages := by
  obtain ⟨last, hlast, hnext⟩ := h
  cases hpages : pages.getLast? with
  | none =>
      rw [Option.mem_def, List.getLast?_cons, hpages] at hlast
      cases hlast
      exact absurd hnext hpage
  | some other =>
      rw [Option.mem_def, List.getLast?_cons, hpages] at hlast
      cases hlast
      exact ⟨other, hpages, hnext⟩

section Walk

variable [LinearOrder κ]

/-- The pages of a client that follows the cursors, when its requests find
these sources one after the other. -/
def walk (limit : ℕ) : Option κ → List (Source ρ κ) → List (Page ρ κ)
  | _, [] => []
  | cursor, s :: later =>
      let page := s.page limit cursor
      page :: match page.next with
        | none => []
        | some k => walk limit (some k) later

variable {limit : ℕ} {cursor : Option κ} {s : Source ρ κ}

theorem walk_of_next_none (h : (s.page limit cursor).next = none)
    (later : List (Source ρ κ)) :
    walk limit cursor (s :: later) = [s.page limit cursor] := by
  simp [walk, h]

theorem walk_of_next_some {k : κ} (h : (s.page limit cursor).next = some k)
    (later : List (Source ρ κ)) :
    walk limit cursor (s :: later) =
      s.page limit cursor :: walk limit (some k) later := by
  simp [walk, h]

/-- Whatever is listed was found by a request. -/
theorem exists_of_mem_walk {r : ρ} :
    ∀ {sources : List (Source ρ κ)} {cursor : Option κ},
      r ∈ listed (walk limit cursor sources) → ∃ s ∈ sources, r ∈ s.rows
  | [], _, hr => absurd hr List.not_mem_nil
  | s :: later, cursor, hr => by
      have hpage : r ∈ (s.page limit cursor).items →
          ∃ s' ∈ s :: later, r ∈ s'.rows :=
        fun h => ⟨s, List.mem_cons_self, (Source.mem_of_mem_page h).1⟩
      cases hnext : (s.page limit cursor).next with
      | none =>
          rw [walk_of_next_none hnext] at hr
          exact hpage (by simpa [listed] using hr)
      | some k =>
          rw [walk_of_next_some hnext, listed, List.flatMap_cons] at hr
          rcases List.mem_append.mp hr with hr | hr
          · exact hpage hr
          · obtain ⟨s', hs', hr⟩ := exists_of_mem_walk hr
            exact ⟨s', List.mem_cons_of_mem s hs', hr⟩

/-- While the keys stay what they are, the keys listed increase. -/
theorem pairwise_walk (hlimit : 1 ≤ limit) {key : ρ → κ} :
    ∀ {sources : List (Source ρ κ)} {cursor : Option κ},
      (∀ s ∈ sources, s.Keyed) → (∀ s ∈ sources, s.key = key) →
      (listed (walk limit cursor sources)).Pairwise
          (fun a b => key a < key b) ∧
        ∀ r ∈ listed (walk limit cursor sources), After cursor (key r)
  | [], _, _, _ => ⟨List.Pairwise.nil, fun _ hr => absurd hr List.not_mem_nil⟩
  | s :: later, cursor, hkeyed, hkey => by
      have hs := hkeyed s List.mem_cons_self
      obtain rfl : s.key = key := hkey s List.mem_cons_self
      have hitems : (s.page limit cursor).items.Pairwise
          fun a b => s.key a < s.key b := Source.pairwise_page hs
      have hafter : ∀ r ∈ (s.page limit cursor).items,
          After cursor (s.key r) :=
        fun r hr => (Source.mem_of_mem_page hr).2
      cases hnext : (s.page limit cursor).next with
      | none =>
          rw [walk_of_next_none hnext]
          simpa [listed] using ⟨hitems, hafter⟩
      | some k =>
          obtain ⟨-, ⟨last, -, hlast, hk⟩, hle, -⟩ :=
            Source.page_of_next_some hs hlimit hnext
          have hlater : (listed (walk limit (some k) later)).Pairwise
                (fun a b => s.key a < s.key b) ∧
              ∀ r ∈ listed (walk limit (some k) later),
                After (some k) (s.key r) :=
            pairwise_walk hlimit
              (fun s' hs' => hkeyed s' (List.mem_cons_of_mem s hs'))
              fun s' hs' => hkey s' (List.mem_cons_of_mem s hs')
          obtain ⟨hpairwise, hrest⟩ := hlater
          rw [walk_of_next_some hnext, listed, List.flatMap_cons]
          refine ⟨List.pairwise_append.mpr ⟨hitems, hpairwise, ?_⟩, ?_⟩
          · intro a ha b hb
            exact (hle a ha).trans_lt (after_some.mp (hrest b hb))
          · intro r hr
            rcases List.mem_append.mp hr with hr | hr
            · exact hafter r hr
            · intro c hc
              exact (hk c hc).trans (after_some.mp (hrest r hr))

/-- A row that stays and never moves back is not skipped. -/
theorem mem_walk (hlimit : 1 ≤ limit) {r : ρ} :
    ∀ {sources : List (Source ρ κ)} {cursor : Option κ},
      (∀ s ∈ sources, s.Keyed) → (∀ s ∈ sources, r ∈ s.rows) →
      (sources.Pairwise fun s s' => s.key r ≤ s'.key r) →
      (∀ s ∈ sources, After cursor (s.key r)) →
      Ended (walk limit cursor sources) →
      r ∈ listed (walk limit cursor sources)
  | [], _, _, _, _, _, hended => by
      obtain ⟨_, hlast, -⟩ := hended
      cases hlast
  | s :: later, cursor, hkeyed, hstays, hforward, hafter, hended => by
      have hs := hkeyed s List.mem_cons_self
      have hr := hstays s List.mem_cons_self
      have hrafter := hafter s List.mem_cons_self
      cases hnext : (s.page limit cursor).next with
      | none =>
          rw [walk_of_next_none hnext]
          simpa [listed] using
            Source.mem_page_of_next_none hlimit hnext hr hrafter
      | some k =>
          rw [walk_of_next_some hnext] at hended ⊢
          rw [listed, List.flatMap_cons, List.mem_append]
          obtain ⟨-, -, -, hupto⟩ := Source.page_of_next_some hs hlimit hnext
          obtain ⟨hfirst, hforward⟩ := List.pairwise_cons.mp hforward
          by_cases hle : s.key r ≤ k
          · exact Or.inl (hupto r hr hrafter hle)
          · right
            refine mem_walk hlimit
              (fun s' hs' => hkeyed s' (List.mem_cons_of_mem s hs'))
              (fun s' hs' => hstays s' (List.mem_cons_of_mem s hs')) hforward
              (fun s' hs' => ?_) (hended.of_cons (by simp [hnext]))
            exact after_some.mpr ((not_le.mp hle).trans_le (hfirst s' hs'))

/-- Every page but the last is full. -/
theorem length_of_mem_dropLast_walk (hlimit : 1 ≤ limit) :
    ∀ {sources : List (Source ρ κ)} {cursor : Option κ},
      (∀ s ∈ sources, s.Keyed) →
      ∀ page ∈ (walk limit cursor sources).dropLast,
        page.items.length = limit
  | [], _, _ => by simp [walk]
  | s :: later, cursor, hkeyed => by
      cases hnext : (s.page limit cursor).next with
      | none => simp [walk_of_next_none hnext]
      | some k =>
          rw [walk_of_next_some hnext]
          intro page hpage
          cases hrest : walk limit (some k) later with
          | nil => simp [hrest] at hpage
          | cons other others =>
              rw [hrest, List.dropLast_cons_cons, ← hrest] at hpage
              rcases List.mem_cons.mp hpage with rfl | hpage
              · exact (Source.page_of_next_some
                  (hkeyed s List.mem_cons_self) hlimit hnext).1
              · exact length_of_mem_dropLast_walk hlimit
                  (fun s' hs' => hkeyed s' (List.mem_cons_of_mem s hs'))
                  page hpage

/-- A walk ends once its requests outnumber the keys that are ahead of it. -/
theorem ended_walk (hlimit : 1 ≤ limit) :
    ∀ {sources : List (Source ρ κ)} {cursor : Option κ} (K : Finset κ),
      (∀ s ∈ sources, s.Keyed) →
      (∀ s ∈ sources, ∀ r ∈ s.rows, After cursor (s.key r) → s.key r ∈ K) →
      K.card < sources.length → Ended (walk limit cursor sources)
  | [], _, _, _, _, hcard => absurd hcard (Nat.not_lt_zero _)
  | s :: later, cursor, K, hkeyed, hK, hcard => by
      cases hnext : (s.page limit cursor).next with
      | none =>
          rw [walk_of_next_none hnext]
          exact ⟨_, rfl, hnext⟩
      | some k =>
          rw [walk_of_next_some hnext]
          obtain ⟨-, ⟨last, hlast, rfl, hk⟩, -, -⟩ :=
            Source.page_of_next_some (hkeyed s List.mem_cons_self) hlimit hnext
          refine Ended.cons (ended_walk hlimit (K.erase (s.key last))
            (fun s' hs' => hkeyed s' (List.mem_cons_of_mem s hs')) ?_ ?_) _
          · intro s' hs' r hr hafter
            have hlt := after_some.mp hafter
            refine Finset.mem_erase.mpr ⟨hlt.ne', ?_⟩
            exact hK s' (List.mem_cons_of_mem s hs') r hr
              fun c hc => (hk c hc).trans hlt
          · have hmem := hK s List.mem_cons_self last hlast hk
            have hless := Finset.card_erase_lt_of_mem hmem
            rw [List.length_cons] at hcard
            omega

/-! ### Rows that join ahead of the walk -/

/-- Later requests find rows that the first one has found, and rows that come
before its whole page. -/
def JoinsAhead (limit : ℕ) (s : Source ρ κ) (later : List (Source ρ κ)) :
    Prop :=
  ∀ s' ∈ later, s'.Keyed ∧ s'.key = s.key ∧ ∀ r ∈ s'.rows,
    r ∈ s.rows ∨ ∀ first ∈ (s.page limit none).items, s.key r < s.key first

section JoinsAhead

variable {later : List (Source ρ κ)}

theorem JoinsAhead.keyed (hs : s.Keyed) (hlater : JoinsAhead limit s later) :
    ∀ s' ∈ s :: later, s'.Keyed := by
  intro s' hs'
  rcases List.mem_cons.mp hs' with rfl | hs'
  · exact hs
  · exact (hlater s' hs').1

theorem JoinsAhead.key (hlater : JoinsAhead limit s later) :
    ∀ s' ∈ s :: later, s'.key = s.key := by
  intro s' hs'
  rcases List.mem_cons.mp hs' with rfl | hs'
  · rfl
  · exact (hlater s' hs').2.1

/-- What lies behind the first page was there from the beginning. -/
theorem JoinsAhead.mem_rows (hs : s.Keyed) (hlimit : 1 ≤ limit)
    (hlater : JoinsAhead limit s later) {k : κ}
    (hnext : (s.page limit none).next = some k) {s' : Source ρ κ}
    (hs' : s' ∈ later) {r : ρ} (hr : r ∈ s'.rows) (hafter : k < s'.key r) :
    r ∈ s.rows := by
  obtain ⟨-, ⟨last, hlast, rfl, -⟩, -, hupto⟩ :=
    Source.page_of_next_some hs hlimit hnext
  obtain ⟨-, hkey, hjoin⟩ := hlater s' hs'
  rcases hjoin r hr with hr | hahead
  · exact hr
  · have hpage := hupto last hlast (after_none _) (le_refl _)
    rw [hkey] at hafter
    exact absurd (hahead last hpage) (not_lt.mpr hafter.le)

theorem mem_rows_of_mem_walk (hs : s.Keyed) (hlimit : 1 ≤ limit)
    (hlater : JoinsAhead limit s later) {r : ρ}
    (hr : r ∈ listed (walk limit none (s :: later))) : r ∈ s.rows := by
  cases hnext : (s.page limit none).next with
  | none =>
      rw [walk_of_next_none hnext] at hr
      have hpage : r ∈ (s.page limit none).items := by simpa [listed] using hr
      exact (Source.mem_of_mem_page hpage).1
  | some k =>
      rw [walk_of_next_some hnext, listed, List.flatMap_cons] at hr
      rcases List.mem_append.mp hr with hr | hr
      · exact (Source.mem_of_mem_page hr).1
      · have hafter : k < s.key r := by
          have hkeyed : ∀ s' ∈ later, s'.Keyed :=
            fun s' hs' => (hlater s' hs').1
          exact after_some.mp ((pairwise_walk hlimit hkeyed
            fun s' hs' => (hlater s' hs').2.1).2 r hr)
        obtain ⟨s', hs', hr⟩ := exists_of_mem_walk hr
        refine hlater.mem_rows hs hlimit hnext hs' hr ?_
        rwa [(hlater s' hs').2.1]

/-- The walk ends once it has made more requests than there were rows. -/
theorem ended_walk_of_joinsAhead (hs : s.Keyed) (hlimit : 1 ≤ limit)
    (hlater : JoinsAhead limit s later)
    (hlength : s.rows.length ≤ later.length) :
    Ended (walk limit none (s :: later)) := by
  cases hnext : (s.page limit none).next with
  | none =>
      rw [walk_of_next_none hnext]
      exact ⟨_, rfl, hnext⟩
  | some k =>
      rw [walk_of_next_some hnext]
      obtain ⟨-, ⟨last, hlast, rfl, -⟩, -, -⟩ :=
        Source.page_of_next_some hs hlimit hnext
      have hmem : s.key last ∈ (s.rows.map s.key).toFinset :=
        List.mem_toFinset.mpr (List.mem_map_of_mem hlast)
      refine Ended.cons (ended_walk hlimit
        ((s.rows.map s.key).toFinset.erase (s.key last))
        (fun s' hs' => (hlater s' hs').1) ?_ ?_) _
      · intro s' hs' r hr hafter
        have hlt := after_some.mp hafter
        have hrows := hlater.mem_rows hs hlimit hnext hs' hr hlt
        refine Finset.mem_erase.mpr ⟨hlt.ne', List.mem_toFinset.mpr ?_⟩
        rw [(hlater s' hs').2.1]
        exact List.mem_map_of_mem hrows
      · have hless := Finset.card_erase_lt_of_mem hmem
        have hcard := List.toFinset_card_le (s.rows.map s.key)
        rw [List.length_map] at hcard
        omega

end JoinsAhead

/-! ### Rows that stay as they are -/

/-- The pages list each row once, in order; all but the last are full, and the
last has no cursor. -/
structure Source.Partitioned (s : Source ρ κ) (limit : ℕ) {κ' : Type}
    (pages : List (Page ρ κ')) : Prop where
  ended : Ended pages
  full : ∀ page ∈ pages.dropLast, page.items.length = limit
  increasing : (listed pages).Pairwise fun a b => s.key a < s.key b
  once : (listed pages).Perm s.rows

/-- A walk that ends has gone through all rows. -/
theorem partitioned_walk (hs : s.Keyed) (hlimit : 1 ≤ limit) {n : ℕ}
    (hended : Ended (walk limit none (List.replicate n s))) :
    s.Partitioned limit (walk limit none (List.replicate n s)) := by
  have hkeyed : ∀ s' ∈ List.replicate n s, s'.Keyed := by
    intro s' hs'
    rw [List.eq_of_mem_replicate hs']
    exact hs
  have hkey : ∀ s' ∈ List.replicate n s, s'.key = s.key := by
    intro s' hs'
    rw [List.eq_of_mem_replicate hs']
  have hincreasing : (listed (walk limit none (List.replicate n s))).Pairwise
      fun a b => s.key a < s.key b := (pairwise_walk hlimit hkeyed hkey).1
  refine ⟨hended, length_of_mem_dropLast_walk hlimit hkeyed, hincreasing,
    (List.perm_ext_iff_of_nodup ?_ hs.of_map).mpr fun r => ⟨?_, ?_⟩⟩
  · refine hincreasing.imp fun {a b} hlt heq => hlt.ne ?_
    rw [heq]
  · intro hr
    obtain ⟨s', hs', hr⟩ := exists_of_mem_walk hr
    rwa [List.eq_of_mem_replicate hs'] at hr
  · intro hr
    refine mem_walk hlimit hkeyed (fun s' hs' => ?_)
      (List.pairwise_replicate.mpr (Or.inr (le_refl _)))
      (fun _ _ => after_none _) hended
    rwa [List.eq_of_mem_replicate hs']

/-- More requests than there are rows are enough. -/
theorem partitioned_walk_of_lt (hs : s.Keyed) (hlimit : 1 ≤ limit) {n : ℕ}
    (hn : s.rows.length < n) :
    s.Partitioned limit (walk limit none (List.replicate n s)) := by
  refine partitioned_walk hs hlimit ?_
  obtain ⟨m, rfl⟩ := Nat.exists_eq_add_one_of_ne_zero (Nat.ne_zero_of_lt hn)
  have hsame : JoinsAhead limit s (List.replicate m s) := by
    intro s' hs'
    rw [List.eq_of_mem_replicate hs']
    exact ⟨hs, rfl, fun r hr => Or.inl hr⟩
  exact ended_walk_of_joinsAhead hs hlimit hsame
    (by rw [List.length_replicate]; exact Nat.lt_succ_iff.mp hn)

end Walk

/-! ## Cursors as texts -/

/-- How cursors are written for a client. -/
structure Codec (κ : Type) where
  encode : κ → String
  decode : String → Option κ
  decode_encode : ∀ k, decode (encode k) = some k
  encode_ne_empty : ∀ k, encode k ≠ ""

/-- The page with the text of its cursor. -/
def Page.encoded (codec : Codec κ) (page : Page ρ κ) : Page ρ String where
  items := page.items
  next := page.next.map codec.encode

/-- The pages of a client that sends back the texts it gets, until it gets none
or its request is refused. -/
def follow {σ ε : Type}
    (request : σ → Option String → Except ε (Page ρ String)) :
    Option String → List σ → List (Page ρ String)
  | _, [] => []
  | cursor, state :: later =>
      match request state cursor with
      | .error _ => []
      | .ok page =>
          page :: match page.next with
            | none => []
            | some next => follow request (some next) later

/-- Requests that answer the text of a cursor like the cursor make a walk. -/
theorem follow_eq_walk [LinearOrder κ] {σ ε : Type} {codec : Codec κ}
    {request : σ → Option String → Except ε (Page ρ String)}
    {source : σ → Source ρ κ} {limit : ℕ}
    (hrequest : ∀ state cursor, request state (cursor.map codec.encode) =
      .ok (((source state).page limit cursor).encoded codec)) :
    ∀ (states : List σ) (cursor : Option κ),
      follow request (cursor.map codec.encode) states =
        (walk limit cursor (states.map source)).map (Page.encoded codec)
  | [], _ => rfl
  | state :: later, cursor => by
      rw [follow, hrequest, List.map_cons]
      cases hnext : ((source state).page limit cursor).next with
      | none => simp [walk_of_next_none hnext, Page.encoded, hnext]
      | some k =>
          rw [walk_of_next_some hnext, List.map_cons,
            ← follow_eq_walk hrequest later (some k)]
          simp [Page.encoded, hnext]

theorem listed_map_encoded (codec : Codec κ) (pages : List (Page ρ κ)) :
    listed (pages.map (Page.encoded codec)) = listed pages := by
  rw [listed, List.flatMap_map]
  rfl

theorem ended_map_encoded (codec : Codec κ) (pages : List (Page ρ κ)) :
    Ended (pages.map (Page.encoded codec)) ↔ Ended pages := by
  simp only [Ended, List.getLast?_map]
  cases pages.getLast? with
  | none => simp
  | some last => simp [Page.encoded]

theorem Source.Partitioned.encoded [LinearOrder κ] {s : Source ρ κ}
    {limit : ℕ} {pages : List (Page ρ κ)} (h : s.Partitioned limit pages)
    (codec : Codec κ) :
    s.Partitioned limit (pages.map (Page.encoded codec)) where
  ended := (ended_map_encoded codec pages).mpr h.ended
  full := by
    rw [← List.map_dropLast]
    intro page hpage
    obtain ⟨page', hpage', rfl⟩ := List.mem_map.mp hpage
    exact h.full page' hpage'
  increasing := by
    rw [listed_map_encoded]
    exact h.increasing
  once := by
    rw [listed_map_encoded]
    exact h.once

/-! ## A codec with one text as given -/

/-- Numbers in unary, each with a full stop. -/
def unary : List ℕ → List Char
  | [] => []
  | n :: numbers => List.replicate n '#' ++ '.' :: unary numbers

theorem replicate_append_injective {m n : ℕ} {xs ys : List Char}
    (h : List.replicate m '#' ++ '.' :: xs =
      List.replicate n '#' ++ '.' :: ys) : m = n ∧ xs = ys := by
  induction m generalizing n with
  | zero =>
      cases n with
      | zero => exact ⟨rfl, by simpa using h⟩
      | succ n => simp [List.replicate_succ] at h
  | succ m ih =>
      cases n with
      | zero => simp [List.replicate_succ] at h
      | succ n =>
          simp only [List.replicate_succ, List.cons_append, List.cons.injEq,
            true_and] at h
          exact ⟨congrArg _ (ih h).1, (ih h).2⟩

theorem unary_injective : Function.Injective unary
  | [], [], _ => rfl
  | [], n :: ys, h => by simp [unary] at h
  | m :: xs, [], h => by simp [unary] at h
  | m :: xs, n :: ys, h => by
      obtain ⟨rfl, htail⟩ := replicate_append_injective h
      rw [unary_injective htail]

theorem not_mem_unary {c : Char} (hhash : c ≠ '#') (hstop : c ≠ '.') :
    ∀ numbers, c ∉ unary numbers
  | [] => List.not_mem_nil
  | n :: numbers => by
      simp [unary, hhash, hstop, not_mem_unary hhash hstop numbers]

theorem ofList_unary_ne {text : String} (htext : 'e' ∈ text.toList)
    (numbers : List ℕ) : String.ofList ('.' :: unary numbers) ≠ text := by
  rintro rfl
  simp [not_mem_unary] at htext

section Writing

variable [DecidableEq κ] {k : κ} {text : String} {code : κ → List ℕ}

/-- The text for one cursor, numbers for all others. -/
def textOr (k : κ) (text : String) (code : κ → List ℕ) (k' : κ) : String :=
  if k' = k then text else .ofList ('.' :: unary (code k'))

theorem textOr_injective (htext : 'e' ∈ text.toList)
    (hcode : Function.Injective code) :
    Function.Injective (textOr k text code) := by
  intro a b h
  rw [textOr, textOr] at h
  split at h
  next ha =>
    split at h
    next hb => exact ha.trans hb.symm
    next => exact absurd h.symm (ofList_unary_ne htext _)
  next =>
    split at h
    next => exact absurd h (ofList_unary_ne htext _)
    next =>
      have hchars := congrArg String.toList h
      simp only [String.toList_ofList, List.cons.injEq, true_and] at hchars
      exact hcode (unary_injective hchars)

theorem textOr_ne {other : String} (hother : 'e' ∈ other.toList)
    (hne : text ≠ other) (k' : κ) : textOr k text code k' ≠ other := by
  rw [textOr]
  split
  · exact hne
  · exact ofList_unary_ne hother _

/-- A codec that writes one cursor as this text. -/
noncomputable def Codec.writing (k : κ) (text : String) (code : κ → List ℕ)
    (htext : 'e' ∈ text.toList) (hcode : Function.Injective code) :
    Codec κ where
  encode := textOr k text code
  decode := Function.partialInv (textOr k text code)
  decode_encode :=
    Function.partialInv_left (textOr_injective htext hcode)
  encode_ne_empty k' := by
    rw [textOr]
    split
    · rintro rfl
      cases htext
    · simp

/-- The codec, but for this text of one cursor. -/
def Codec.also (codec : Codec κ) (k : κ) (text : String) (hne : text ≠ "")
    (hfresh : ∀ k', codec.encode k' ≠ text) : Codec κ where
  encode k' := if k' = k then text else codec.encode k'
  decode text' := if text' = text then some k else codec.decode text'
  decode_encode k' := by
    by_cases hk : k' = k
    · rw [if_pos hk, if_pos rfl, hk]
    · rw [if_neg hk, if_neg (hfresh k'), codec.decode_encode]
  encode_ne_empty k' := by
    split
    · exact hne
    · exact codec.encode_ne_empty k'

end Writing

end Relational
