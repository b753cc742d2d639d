import Mathlib.Data.Finset.Prod
import Mathlib.Data.Finset.Union
import Mathlib.Logic.Equiv.Nat
import WebhookBroadcast.Admin.Cursors
import WebhookBroadcast.Db.Directory

/-!
# The pages of the Channel directory

A client that follows the cursors of `GET /channels` on an unchanged database
gets every live Channel.  With one `now` for all requests it gets each once, in
the order of the directory; as `now` moves on, failures leave the window and
Channels move back in the order, so that one may come again but none is skipped.
-/

namespace WebhookBroadcast

open Relational

variable [Collation]

/-! ## The route -/

/-- `GET /channels` with a valid query. -/
def getChannels (codec : Codec ChannelCursor) (db : Database) (limit : ℕ)
    (slug : Option String) (now : Instant) (cursorParam : Option String) :
    Except Refusal (Page ChannelRow String) := do
  let cursor ← parseListCursor cursorParam codec.decode
  return (listChannels db ⟨cursor, limit, slug, now⟩).encoded codec

/-- The pages that a client gets whose requests arrive at these times. -/
def directoryPages (codec : Codec ChannelCursor) (db : Database) (limit : ℕ)
    (slug : Option String) (nows : List Instant) :
    List (Page ChannelRow String) :=
  follow (getChannels codec db limit slug) none nows

theorem directoryPages_eq_walk (codec : Codec ChannelCursor) (db : Database)
    (limit : ℕ) (slug : Option String) (nows : List Instant) :
    directoryPages codec db limit slug nows =
      (walk limit none (nows.map (directory db slug))).map
        (Page.encoded codec) := by
  refine follow_eq_walk (fun now cursor => ?_) nows none
  rw [getChannels, parseListCursor_encode, ← listChannels_eq_page db
    ⟨cursor, limit, slug, now⟩]
  rfl

omit [Collation] in
theorem mem_directory {db : Database} {slug : Option String} {now : Instant}
    {c : ChannelRow} : c ∈ (directory db slug now).rows ↔
      c ∈ db.channels ∧ c.deletedAt = none ∧ ∀ s ∈ slug, c.slug = s := by
  rw [directory, Table.mem_select]
  cases slug with
  | none => simp
  | some slug => simp

/-! ## Moving in time -/

section Time

variable {db : Database} {since since' : Instant}

omit [Collation] in
theorem DeliveryRow.failedSince_mono (h : since ≤ since') {d : DeliveryRow}
    (hd : d.failedSince since' = true) : d.failedSince since = true := by
  simp only [failedSince, Bool.and_eq_true, decide_eq_true_eq] at hd ⊢
  exact ⟨hd.1, h.trans hd.2⟩

omit [Collation] in
theorem recentFailureCount_anti (h : since ≤ since') (c : ChannelRow) :
    recentFailureCount db since' c ≤ recentFailureCount db since c := by
  rw [recentFailureCount, recentFailureCount, Int.ofNat_le, Table.select,
    Table.select]
  refine (List.monotone_filter_right _ fun d hd => ?_).length_le
  simp only [Bool.and_eq_true] at hd ⊢
  exact ⟨hd.1, DeliveryRow.failedSince_mono h hd.2⟩

omit [Collation] in
theorem channelHealthRank_mono (h : since ≤ since') (c : ChannelRow) :
    channelHealthRank db since c ≤ channelHealthRank db since' c := by
  rw [channelHealthRank, channelHealthRank]
  split
  · exact le_refl _
  · split
    · split <;> omega
    next hhealthy =>
      rw [if_neg]
      rintro (hdisabled | ⟨d, hd, hchannel, hfailed⟩)
      · exact hhealthy (Or.inl hdisabled)
      · exact hhealthy (Or.inr ⟨d, hd, hchannel,
          DeliveryRow.failedSince_mono h hfailed⟩)

/-- A Channel never moves forward in the directory as time goes on. -/
theorem cursor_mono (h : since ≤ since') (c : ChannelRow) :
    c.cursor db since ≤ c.cursor db since' := by
  change (c.cursor db since).legs ≤ (c.cursor db since').legs
  rw [ChannelCursor.legs, ChannelCursor.legs, Prod.Lex.toLex_le_toLex]
  have hrank : channelHealthRank db since c ≤ channelHealthRank db since' c :=
    channelHealthRank_mono h c
  have hcount : recentFailureCount db since' c ≤ recentFailureCount db since c :=
    recentFailureCount_anti h c
  rcases hrank.lt_or_eq with hrank | hrank
  · exact Or.inl hrank
  · refine Or.inr ⟨hrank, ?_⟩
    rw [Prod.Lex.toLex_le_toLex]
    rcases hcount.lt_or_eq with hcount | hcount
    · exact Or.inl hcount
    · exact Or.inr ⟨congrArg OrderDual.toDual hcount.symm, le_refl _⟩

end Time

/-! ## Cursors are finitely many -/

/-- All cursors that a Channel can leave behind at any time. -/
def ChannelRow.cursors (db : Database) (c : ChannelRow) :
    Finset ChannelCursor :=
  (Finset.range 3 ×ˢ Finset.range (db.deliveries.rows.length + 1)).image
    fun legs => ⟨legs.1, legs.2, autoDisabledEndpointCount db c, c.slug, c.id⟩

omit [Collation] in
theorem ChannelRow.cursor_mem_cursors (db : Database) (since : Instant)
    (c : ChannelRow) : c.cursor db since ∈ c.cursors db := by
  obtain ⟨rank, hrank, hlt⟩ : ∃ rank : ℕ,
      channelHealthRank db since c = rank ∧ rank < 3 := by
    rw [channelHealthRank]
    split
    · exact ⟨2, rfl, by omega⟩
    · split
      · exact ⟨0, rfl, by omega⟩
      · exact ⟨1, rfl, by omega⟩
  refine Finset.mem_image.mpr ⟨(rank, (db.deliveries.select fun d =>
    d.channelId = c.id && d.failedSince since).length), ?_, ?_⟩
  · rw [Finset.mem_product, Finset.mem_range, Finset.mem_range]
    exact ⟨hlt, Nat.lt_succ_of_le (List.length_filter_le _ _)⟩
  · rw [ChannelRow.cursor, hrank]
    rfl

/-- All cursors that the directory can leave behind at any time. -/
def directoryCursors (db : Database) : Finset ChannelCursor :=
  (db.channels.rows.toFinset).biUnion fun c => c.cursors db

/-! ## Walks through the directory -/

/-- The pages list every live Channel with the slug once, in the order of the
directory; all but the last are full, and the last has no cursor. -/
structure DirectoryPartitioned (db : Database) (limit : ℕ)
    (slug : Option String) (now : Instant)
    (pages : List (Page ChannelRow String)) : Prop where
  ended : Ended pages
  full : ∀ page ∈ pages.dropLast, page.items.length = limit
  increasing : (listed pages).Pairwise fun a b =>
    (a.cursor db (failureWindowStart now)).legs <
      (b.cursor db (failureWindowStart now)).legs
  once : (listed pages).Perm (db.channels.select fun c =>
    c.deletedAt = none && slug.all fun s => c.slug = s)

section Pages

variable {codec : Codec ChannelCursor} {db : Database} {limit : ℕ}
  {slug : Option String}

omit [Collation] in
theorem keyed_of_mem_map_directory (nows : List Instant) :
    ∀ s ∈ nows.map (directory db slug), s.Keyed := by
  intro s hs
  obtain ⟨now, -, rfl⟩ := List.mem_map.mp hs
  exact keyed_directory db slug now

theorem ended_directoryPages (hlimit : 1 ≤ limit) {nows : List Instant}
    (hnows : (directoryCursors db).card < nows.length) :
    Ended (directoryPages codec db limit slug nows) := by
  rw [directoryPages_eq_walk, ended_map_encoded]
  refine ended_walk hlimit (directoryCursors db)
    (keyed_of_mem_map_directory nows) ?_ (by simpa using hnows)
  intro s hs c hc _
  obtain ⟨now, -, rfl⟩ := List.mem_map.mp hs
  exact Finset.mem_biUnion.mpr ⟨c, List.mem_toFinset.mpr
    (mem_directory.mp hc).1, c.cursor_mem_cursors db _⟩

theorem mem_directoryPages (hlimit : 1 ≤ limit) {nows : List Instant}
    (hnows : nows.Pairwise (· ≤ ·))
    (hended : Ended (directoryPages codec db limit slug nows)) {c : ChannelRow}
    (hc : c ∈ db.channels) (hlive : c.deletedAt = none)
    (hslug : ∀ s ∈ slug, c.slug = s) :
    c ∈ listed (directoryPages codec db limit slug nows) := by
  rw [directoryPages_eq_walk, ended_map_encoded] at hended
  rw [directoryPages_eq_walk, listed_map_encoded]
  refine mem_walk hlimit (keyed_of_mem_map_directory nows) ?_ ?_
    (fun _ _ => after_none _) hended
  · intro s hs
    obtain ⟨now, -, rfl⟩ := List.mem_map.mp hs
    exact mem_directory.mpr ⟨hc, hlive, hslug⟩
  · refine List.pairwise_map.mpr (hnows.imp fun {now now'} hle => ?_)
    exact cursor_mono (Int.sub_le_sub_right hle _) c

/-- At one time the pages keep the order of the directory. -/
theorem pairwise_directoryPages (hlimit : 1 ≤ limit) (now : Instant) (n : ℕ) :
    (listed (directoryPages codec db limit slug
      (List.replicate n now))).Pairwise fun a b =>
        (a.cursor db (failureWindowStart now)).legs <
          (b.cursor db (failureWindowStart now)).legs := by
  have hkey : ∀ s ∈ (List.replicate n now).map (directory db slug),
      s.key = (directory db slug now).key := by
    intro s hs
    rw [List.map_replicate] at hs
    rw [List.eq_of_mem_replicate hs]
  rw [directoryPages_eq_walk, listed_map_encoded]
  exact (pairwise_walk hlimit (keyed_of_mem_map_directory _) hkey).1

theorem directoryPartitioned (hlimit : 1 ≤ limit) (now : Instant) {n : ℕ}
    (hn : (directoryCursors db).card < n) :
    DirectoryPartitioned db limit slug now
      (directoryPages codec db limit slug (List.replicate n now)) := by
  have hended : Ended (directoryPages codec db limit slug
      (List.replicate n now)) :=
    ended_directoryPages hlimit (by simpa using hn)
  rw [directoryPages_eq_walk, List.map_replicate] at hended ⊢
  rw [ended_map_encoded] at hended
  have hpages := (partitioned_walk (keyed_directory db slug now) hlimit
    hended).encoded codec
  refine ⟨hpages.ended, hpages.full, hpages.increasing, ?_⟩
  have hrows : (directory db slug now).rows = db.channels.select fun c =>
      c.deletedAt = none && slug.all fun s => c.slug = s := by
    rw [directory]
    cases slug <;> rfl
  rw [← hrows]
  exact hpages.once

end Pages

/-- At one time the pages partition the directory; as time goes on, no Channel
is skipped. -/
theorem partitioned_directoryPages (codec : Codec ChannelCursor)
    (db : Database) {limit : ℕ} (hlimit : 1 ≤ limit) (slug : Option String) :
    (∀ now n, (directoryCursors db).card < n →
      DirectoryPartitioned db limit slug now
        (directoryPages codec db limit slug (List.replicate n now))) ∧
    ∀ nows : List Instant, nows.Pairwise (· ≤ ·) →
      ((directoryCursors db).card < nows.length →
        Ended (directoryPages codec db limit slug nows)) ∧
      (Ended (directoryPages codec db limit slug nows) →
        ∀ c ∈ db.channels, c.deletedAt = none → (∀ s ∈ slug, c.slug = s) →
          c ∈ listed (directoryPages codec db limit slug nows)) :=
  ⟨fun now _ hn => directoryPartitioned hlimit now hn,
    fun _ hnows => ⟨ended_directoryPages hlimit, fun hended _ hc hlive hslug =>
      mem_directoryPages hlimit hnows hended hc hlive hslug⟩⟩

/-! ## Two Channels -/

omit [Collation]

/-- The legs of a cursor as numbers. -/
def ChannelCursor.numbers (cursor : ChannelCursor) : List ℕ :=
  Equiv.intEquivNat cursor.healthRank ::
    Equiv.intEquivNat cursor.recentFailureCount ::
      Equiv.intEquivNat cursor.autoDisabledEndpointCount ::
        cursor.id.toNat :: cursor.slug.toList.map Char.toNat

theorem ChannelCursor.numbers_injective : Function.Injective numbers := by
  rintro ⟨rank, failures, disabled, slug, id⟩
    ⟨rank', failures', disabled', slug', id'⟩ h
  simp only [numbers, List.cons.injEq, EmbeddingLike.apply_eq_iff_eq,
    BitVec.toNat_inj] at h
  obtain ⟨rfl, rfl, rfl, rfl, hchars⟩ := h
  have hslug : slug.toList = slug'.toList :=
    List.map_injective_iff.mpr (fun _ _ => Char.toNat_inj.mp) hchars
  rw [String.toList_inj.mp hslug]

/-- A database with the Channels `a` and `b`. -/
def twoChannels : Database :=
  { Database.empty with
    channels := ⟨[⟨1, "b", none, true, [], false, none, none, 0, 0⟩,
      ⟨2, "a", none, true, [], false, none, none, 0, 0⟩], by decide⟩
    channel_valid := by
      change ∀ c ∈ [_, _], ChannelRow.Valid c
      decide
    channel_slug := by decide
    token_channel := fun _ h => absurd h List.not_mem_nil
    endpoint_channel := fun _ h => absurd h List.not_mem_nil
    broadcast_channel := fun _ h => absurd h List.not_mem_nil
    delivery_channel := fun _ h => absurd h List.not_mem_nil }

/-- The cursor after the Channel `a` is written as the base64url text of its
JSON. -/
noncomputable def cursorAfterA : Codec ChannelCursor :=
  .writing ⟨1, 0, 0, "a", 2⟩
    ("eyJoZWFsdGhSYW5rIjoxLCJyZWNlbnRGYWlsdXJlQ291bnQiOjAsImF1dG9EaXNhYmxl" ++
      "ZEVuZHBvaW50Q291bnQiOjAsInNsdWciOiJhIiwiaWQiOiIwMDAwMDAwMC0wMDAwLTAw" ++
      "MDAtMDAwMC0wMDAwMDAwMDAwMDIifQ")
    ChannelCursor.numbers (by simp) ChannelCursor.numbers_injective

theorem partitioned_directoryPages_twoChannels :
    letI := Collation.c
    DirectoryPartitioned twoChannels 1 none 0
        (directoryPages cursorAfterA twoChannels 1 none
          (List.replicate 7 0)) ∧
      ∀ c ∈ twoChannels.channels, c ∈ listed
        (directoryPages cursorAfterA twoChannels 1 none
          [0, 1, 1, 2, 3, 5, 8]) := by
  let _ := Collation.c
  obtain ⟨hfixed, hmoving⟩ := partitioned_directoryPages cursorAfterA
    twoChannels (le_refl 1) none
  have hcard : (directoryCursors twoChannels).card < 7 := by decide
  refine ⟨hfixed 0 7 hcard, fun c hc => ?_⟩
  obtain ⟨hended, hlisted⟩ := hmoving [0, 1, 1, 2, 3, 5, 8] (by decide)
  have hlive : ∀ c ∈ twoChannels.channels, c.deletedAt = none := by
    change ∀ c ∈ twoChannels.channels.rows, c.deletedAt = none
    decide
  exact hlisted (hended hcard) c hc (hlive c hc) (fun _ h => nomatch h)

end WebhookBroadcast
