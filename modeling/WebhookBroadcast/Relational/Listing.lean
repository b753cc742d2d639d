import WebhookBroadcast.Relational.Keyset

/-!
# What a client shows of a listing

The listing of a source is its keys in the order of the pages, and a page is cut
from it.  A client that shows the beginning of a listing and appends the page
after its cursor shows a longer beginning of it, if the source has kept what
lies behind the cursor (`Begins.append`).

A source in which new rows come ahead of all others grows in front of its
listing.  There a page continues what is shown only if it was asked for with the
cursor that stands after it (`Begins.next_eq_of_append`).
-/

namespace Relational

deriving instance DecidableEq for Page

variable {ρ σ κ : Type}

/-- The page with each item turned into another. -/
def Page.map (f : ρ → σ) (page : Page ρ κ) : Page σ κ :=
  ⟨page.items.map f, page.next⟩

variable [LinearOrder κ]

/-! ## Listings -/

/-- The keys in the order of the pages. -/
def Source.listing (s : Source ρ κ) : List κ := (s.rest none).map s.key

theorem filter_after_none (listing : List κ) :
    (listing.filter fun k => After none k) = listing :=
  List.filter_eq_self.mpr fun k _ => decide_eq_true (after_none k)

/-- The page after the cursor of a listing. -/
def cut (listing : List κ) (limit : ℕ) (cursor : Option κ) : Page κ κ :=
  let ahead := listing.filter fun k => After cursor k
  { items := ahead.take limit
    next := if ahead.length ≤ limit then none else (ahead.take limit).getLast? }

namespace Source

variable {s : Source ρ κ}

theorem mem_listing {k : κ} : k ∈ s.listing ↔ ∃ r ∈ s.rows, s.key r = k := by
  simp [listing, mem_rest, after_none]

theorem pairwise_listing (hs : s.Keyed) : s.listing.Pairwise (· < ·) :=
  List.pairwise_map.mpr (pairwise_rest hs none)

theorem map_key_rest (hs : s.Keyed) (cursor : Option κ) :
    (s.rest cursor).map s.key =
      s.listing.filter fun k => After cursor k := by
  refine List.Pairwise.eq_of_mem_iff (r := (· < ·))
    (List.pairwise_map.mpr (pairwise_rest hs cursor))
    ((pairwise_listing hs).sublist List.filter_sublist) fun k => ?_
  simp only [List.mem_map, mem_rest, List.mem_filter, mem_listing,
    decide_eq_true_eq]
  constructor
  · rintro ⟨r, ⟨hr, hafter⟩, rfl⟩
    exact ⟨⟨r, hr, rfl⟩, hafter⟩
  · rintro ⟨⟨r, hr, rfl⟩, hafter⟩
    exact ⟨r, ⟨hr, hafter⟩, rfl⟩

/-- The keys of a page are cut from the listing. -/
theorem map_page (hs : s.Keyed) (limit : ℕ) (cursor : Option κ) :
    (s.page limit cursor).map s.key = cut s.listing limit cursor := by
  have hlength : (s.listing.filter fun k => After cursor k).length =
      (s.rest cursor).length := by
    rw [← map_key_rest hs, List.length_map]
  simp only [cut, hlength]
  by_cases hmore : limit < (s.rest cursor).length
  · rw [page_of_lt hmore, Page.map, if_neg (not_le.mpr hmore),
      ← map_key_rest hs, ← List.map_take, List.getLast?_map]
  · rw [page_of_le (not_lt.mp hmore), Page.map, if_pos (not_lt.mp hmore),
      ← map_key_rest hs, List.take_of_length_le]
    rw [List.length_map]
    exact not_lt.mp hmore

end Source

/-- The key is listed, and another one behind it. -/
def Followed (listing : List κ) (q : κ) : Prop :=
  q ∈ listing ∧ ∃ k ∈ listing, q < k

theorem Followed.of_suffix {old new : List κ} {q : κ} (h : Followed old q)
    (hgrows : old <:+ new) : Followed new q := by
  obtain ⟨hq, k, hk, hlt⟩ := h
  exact ⟨hgrows.mem hq, k, hgrows.mem hk, hlt⟩

/-! ## The beginning of a listing -/

/-- The keys shown are the first of the listing, and the cursor is the last of
them if more follow. -/
structure Begins (listing shown : List κ) (next : Option κ) : Prop where
  isPrefix : shown <+: listing
  nonempty : shown = [] → listing = []
  next_eq : next = if shown = listing then none else shown.getLast?

section Begins

variable {listing shown : List κ} {next : Option κ} {limit : ℕ}

theorem begins_nil : Begins ([] : List κ) [] none :=
  ⟨List.prefix_refl [], fun _ => rfl, rfl⟩

/-- The first page. -/
theorem begins_cut (hlimit : 1 ≤ limit) :
    Begins listing (cut listing limit none).items
      (cut listing limit none).next := by
  simp only [cut, filter_after_none]
  refine ⟨List.take_prefix limit listing, fun hnil => ?_, ?_⟩
  · rcases List.take_eq_nil_iff.mp hnil with hzero | hnil
    · omega
    · exact hnil
  · simp only [List.take_eq_self_iff]

/-- What is shown ends at the cursor, and what lies behind it is to come. -/
theorem Begins.eq_append_filter (hlisting : listing.Pairwise (· < ·)) {q : κ}
    (h : Begins listing shown (some q)) :
    shown.getLast? = some q ∧
      listing = shown ++ listing.filter fun k => After (some q) k := by
  have hnext := h.next_eq
  split at hnext
  · cases hnext
  · refine ⟨hnext.symm, ?_⟩
    obtain ⟨rest, rfl⟩ := h.isPrefix
    obtain ⟨init, rfl⟩ := List.getLast?_eq_some_iff.mp hnext.symm
    obtain ⟨hshown, -, hbehind⟩ := List.pairwise_append.mp hlisting
    have hnone : ((init ++ [q]).filter fun k => After (some q) k) = [] := by
      refine List.filter_eq_nil_iff.mpr fun k hk => ?_
      rw [decide_eq_true_eq, after_some, not_lt]
      rcases List.mem_append.mp hk with hk | hk
      · exact ((List.pairwise_append.mp hshown).2.2 k hk q
          (List.mem_singleton_self q)).le
      · exact (List.mem_singleton.mp hk).le
    have hall : (rest.filter fun k => After (some q) k) = rest := by
      refine List.filter_eq_self.mpr fun k hk => ?_
      rw [decide_eq_true_eq, after_some]
      exact hbehind q (by simp) k hk
    rw [List.filter_append, hnone, hall, List.nil_append]

/-- There is a cursor where more is to come. -/
theorem Begins.followed (hlisting : listing.Pairwise (· < ·)) {q : κ}
    (h : Begins listing shown (some q)) : Followed listing q := by
  obtain ⟨hlast, hsplit⟩ := h.eq_append_filter hlisting
  refine ⟨h.isPrefix.mem (List.mem_of_getLast? hlast), ?_⟩
  have hne : (listing.filter fun k => After (some q) k) ≠ [] := by
    intro hnil
    rw [hnil, List.append_nil] at hsplit
    have hnext := h.next_eq
    rw [if_pos hsplit.symm] at hnext
    cases hnext
  obtain ⟨k, hk⟩ := List.exists_mem_of_ne_nil _ hne
  obtain ⟨hk, hafter⟩ := List.mem_filter.mp hk
  exact ⟨k, hk, after_some.mp (of_decide_eq_true hafter)⟩

/-- The page after the cursor continues what is shown, if behind the cursor it
is cut from the same keys. -/
theorem Begins.append (hlisting : listing.Pairwise (· < ·)) {q : κ}
    (h : Begins listing shown (some q)) {found : List κ}
    (hfound : found.Pairwise (· < ·))
    (hsame : ∀ k, q < k → (k ∈ found ↔ k ∈ listing)) (hlimit : 1 ≤ limit) :
    Begins listing (shown ++ (cut found limit (some q)).items)
      (cut found limit (some q)).next := by
  obtain ⟨hlast, hrest⟩ := h.eq_append_filter hlisting
  have hahead : (found.filter fun k => After (some q) k) =
      listing.filter fun k => After (some q) k := by
    refine List.Pairwise.eq_of_mem_iff (r := (· < ·))
      (hfound.sublist List.filter_sublist)
      (hlisting.sublist List.filter_sublist) fun k => ?_
    simp only [List.mem_filter, decide_eq_true_eq, after_some]
    exact and_congr_left fun hk => hsame k hk
  simp only [cut, hahead]
  generalize (listing.filter fun k => After (some q) k) = rest at hrest
  subst hrest
  refine ⟨?_, fun hnil => ?_, ?_⟩
  · exact (List.prefix_append_right_inj shown).mpr (List.take_prefix limit rest)
  · rw [(List.append_eq_nil_iff.mp hnil).1] at hlast
    cases hlast
  · simp only [List.append_right_inj, List.take_eq_self_iff]
    split
    · rfl
    next hmore =>
      have hne : rest.take limit ≠ [] := by
        intro hnil
        have hlength := congrArg List.length hnil
        rw [List.length_take, List.length_nil] at hlength
        omega
      rw [List.getLast?_append, List.getLast?_eq_some_getLast hne, Option.some_or]

end Begins

/-! ## Growth in front -/

section Growth

variable {listing found server : List κ}

/-- A listing grows in front if what is new comes ahead of all the rest. -/
theorem suffix_of_ahead (hlisting : listing.Pairwise (· < ·))
    (hserver : server.Pairwise (· < ·)) (hkept : ∀ k ∈ listing, k ∈ server)
    (hnew : ∀ k ∈ server, k ∈ listing ∨ ∀ old ∈ listing, k < old) :
    listing <:+ server := by
  refine ⟨server.filter fun k => k ∉ listing, ?_⟩
  refine List.Pairwise.eq_of_mem_iff (r := (· < ·))
    (List.pairwise_append.mpr ⟨hserver.sublist List.filter_sublist, hlisting,
      fun k hk old hold => ?_⟩) hserver fun k => ?_
  · obtain ⟨hk, hout⟩ := List.mem_filter.mp hk
    exact (hnew k hk).resolve_left (of_decide_eq_true hout) old hold
  · rw [List.mem_append, List.mem_filter, decide_eq_true_eq]
    constructor
    · rintro (⟨hk, -⟩ | hk)
      · exact hk
      · exact hkept k hk
    · intro hk
      by_cases hold : k ∈ listing
      · exact Or.inr hold
      · exact Or.inl ⟨hk, hold⟩

/-- Nothing came in behind a key that was there. -/
theorem mem_of_lt_of_suffix (hserver : server.Pairwise (· < ·))
    (h : listing <:+ server) {q k : κ} (hq : q ∈ listing) (hk : k ∈ server)
    (hlt : q < k) : k ∈ listing := by
  obtain ⟨new, rfl⟩ := h
  rcases List.mem_append.mp hk with hk | hk
  · have hahead := (List.pairwise_append.mp hserver).2.2 k hk q hq
    exact absurd hahead hlt.asymm
  · exact hk

/-- At two moments the same keys are behind a key that was there at both. -/
theorem mem_iff_mem_of_suffix (hserver : server.Pairwise (· < ·))
    (hfound : found <:+ server) (hlisting : listing <:+ server) {q : κ}
    (hqfound : q ∈ found) (hqlisting : q ∈ listing) {k : κ} (hlt : q < k) :
    k ∈ found ↔ k ∈ listing := by
  constructor
  · intro hk
    exact mem_of_lt_of_suffix hserver hlisting hqlisting (hfound.mem hk) hlt
  · intro hk
    exact mem_of_lt_of_suffix hserver hfound hqfound (hlisting.mem hk) hlt

theorem lt_of_next {q k : κ} {rest : List κ}
    (h : (found.filter fun k => After (some q) k) = k :: rest) : q < k := by
  have hmem : k ∈ found.filter fun k => After (some q) k :=
    h ▸ List.mem_cons_self
  exact after_some.mp (of_decide_eq_true (List.mem_filter.mp hmem).2)

/-- A key that comes after `q` is not ahead of the next one after `q`. -/
theorem not_lt_of_next (hserver : server.Pairwise (· < ·))
    (hfound : found <:+ server) {q c k : κ} {rest : List κ} (hq : q ∈ found)
    (hnext : (found.filter fun k => After (some q) k) = k :: rest)
    (hc : c ∈ server) (hck : c < k) : ¬ q < c := by
  intro hqc
  have hmem : c ∈ found.filter fun k => After (some q) k :=
    List.mem_filter.mpr ⟨mem_of_lt_of_suffix hserver hfound hq hc hqc,
      decide_eq_true (after_some.mpr hqc)⟩
  have hsorted : (k :: rest).Pairwise (· < ·) :=
    hnext ▸ (hserver.sublist hfound.sublist).sublist List.filter_sublist
  rw [hnext] at hmem
  rcases List.mem_cons.mp hmem with rfl | hmem
  · exact lt_irrefl c hck
  · exact ((List.pairwise_cons.mp hsorted).1 c hmem).asymm hck

omit [LinearOrder κ] in
/-- A list that occurs where its beginning is the beginning of the whole. -/
theorem isPrefix_of_isInfix {shown items : List κ} (hlisting : listing.Nodup)
    (hshown : shown <+: listing) (hne : shown ≠ [])
    (h : shown ++ items <:+: listing) : shown ++ items <+: listing := by
  obtain ⟨before, after, rfl⟩ := h
  obtain ⟨first, others, rfl⟩ := List.exists_cons_of_ne_nil hne
  cases before with
  | nil => exact ⟨after, rfl⟩
  | cons other before =>
      -- the first key shown would occur twice
      obtain ⟨rest, hrest⟩ := hshown
      obtain rfl : first = other := (List.cons.inj hrest).1
      simp at hlisting

/-- What is appended and leaves no gap was asked for with the cursor that stands
after what is shown. -/
theorem Begins.next_eq_of_append {shown : List κ} {next : Option κ} {limit : ℕ}
    (h : Begins listing shown next) (hserver : server.Pairwise (· < ·))
    (hlisting : listing <:+ server) (hfound : found <:+ server) {q : κ}
    (hq : Followed found q) (hlimit : 1 ≤ limit)
    (happend : shown ++ (cut found limit (some q)).items <:+: listing) :
    next = some q := by
  have hsorted := hserver.sublist hlisting.sublist
  obtain ⟨k, rest, hnext⟩ : ∃ k rest,
      (found.filter fun k => After (some q) k) = k :: rest := by
    obtain ⟨-, k, hk, hqk⟩ := hq
    refine List.exists_cons_of_ne_nil fun hnil => ?_
    exact List.filter_eq_nil_iff.mp hnil k hk
      (decide_eq_true (after_some.mpr hqk))
  obtain ⟨n, rfl⟩ := Nat.exists_eq_add_of_le' hlimit
  have hitems : (cut found (n + 1) (some q)).items = k :: rest.take n := by
    simp only [cut, hnext, List.take_succ_cons]
  rw [hitems] at happend
  have hne : shown ≠ [] := by
    rintro rfl
    rw [h.nonempty rfl, List.infix_nil] at happend
    cases happend
  obtain ⟨behind, hbehind⟩ := isPrefix_of_isInfix
    (hsorted.imp fun hlt => hlt.ne) h.isPrefix hne happend
  have hlast := List.getLast?_eq_some_getLast hne
  generalize shown.getLast hne = c at hlast
  obtain rfl : next = some c := by
    rw [h.next_eq, if_neg, hlast]
    rintro rfl
    simp at hbehind
  have hc : c ∈ listing := h.isPrefix.mem (List.mem_of_getLast? hlast)
  have hafter : (listing.filter fun k => After (some c) k) =
      k :: (rest.take n ++ behind) := by
    have hsplit := (h.eq_append_filter hsorted).2
    rw [← hbehind, List.append_assoc] at hsplit
    rw [← hbehind, List.append_assoc]
    exact ((List.append_right_inj shown).mp hsplit).symm
  refine congrArg some (le_antisymm ?_ ?_)
  · exact not_lt.mp (not_lt_of_next hserver hfound hq.1 hnext (hlisting.mem hc)
      (lt_of_next hafter))
  · exact not_lt.mp (not_lt_of_next hserver hlisting hc hafter
      (hfound.mem hq.1) (lt_of_next hnext))

end Growth

end Relational
