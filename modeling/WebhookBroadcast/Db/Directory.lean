import Mathlib.Order.Lattice
import WebhookBroadcast.Db.Failures
import WebhookBroadcast.Relational.Keyset

/-!
# The Channel directory

`listChannels` of `packages/db/src/repositories/channels.ts`: the live Channels,
those that need attention first, in pages.  The cursor of a page carries the
value of every leg of the order, and cursors are ordered as the legs say.
-/

namespace WebhookBroadcast

open Relational

/-- The value of every leg of the directory's order. -/
structure ChannelCursor where
  healthRank : ℤ
  recentFailureCount : ℤ
  autoDisabledEndpointCount : ℤ
  slug : String
  id : Uuid
deriving DecidableEq

/-- `channelHealthRankSql`. -/
def channelHealthRank (db : Database) (since : Instant) (c : ChannelRow) : ℤ :=
  if ¬ c.enabled then 2
  else if (∃ e ∈ db.endpoints.rows,
        e.channelId = c.id ∧ e.autoDisabledAt.isSome) ∨
      ∃ d ∈ db.deliveries.rows, d.channelId = c.id ∧ d.failedSince since then 0
  else 1

/-- `recentFailureCountSubquery`. -/
def recentFailureCount (db : Database) (since : Instant) (c : ChannelRow) : ℤ :=
  (db.deliveries.select fun d =>
    d.channelId = c.id && d.failedSince since).length

/-- `autoDisabledCountSubquery`. -/
def autoDisabledEndpointCount (db : Database) (c : ChannelRow) : ℤ :=
  (db.endpoints.select fun e =>
    e.channelId = c.id && e.autoDisabledAt.isSome).length

/-- The cursor that a Channel would leave behind. -/
def ChannelRow.cursor (db : Database) (since : Instant) (c : ChannelRow) :
    ChannelCursor where
  healthRank := channelHealthRank db since c
  recentFailureCount := recentFailureCount db since c
  autoDisabledEndpointCount := autoDisabledEndpointCount db c
  slug := c.slug
  id := c.id

section Collated

variable [Collation]

/-- The keyset `WHERE`: the row, with these values of the legs, comes after the
cursor. -/
def ChannelCursor.precedes (cursor row : ChannelCursor) : Bool :=
  row.healthRank > cursor.healthRank ||
    (row.healthRank = cursor.healthRank &&
      (row.recentFailureCount < cursor.recentFailureCount ||
        (row.recentFailureCount = cursor.recentFailureCount &&
          (row.autoDisabledEndpointCount < cursor.autoDisabledEndpointCount ||
            (row.autoDisabledEndpointCount = cursor.autoDisabledEndpointCount &&
              ((⟨row.slug⟩ : Collated) > ⟨cursor.slug⟩ ||
                (row.slug = cursor.slug && row.id > cursor.id)))))))

/-- The legs of the `ORDER BY`. -/
def ChannelCursor.legs (cursor : ChannelCursor) :
    ℤ ×ₗ ℤᵒᵈ ×ₗ ℤᵒᵈ ×ₗ Collated ×ₗ Uuid :=
  toLex (cursor.healthRank,
    toLex (OrderDual.toDual cursor.recentFailureCount,
      toLex (OrderDual.toDual cursor.autoDisabledEndpointCount,
        toLex (⟨cursor.slug⟩, cursor.id))))

structure ListChannelsOptions where
  cursor : Option ChannelCursor := none
  limit : ℕ
  slug : Option String := none
  now : Instant

def listChannels (db : Database) (options : ListChannelsOptions) :
    Page ChannelRow ChannelCursor :=
  let since := failureWindowStart options.now
  let rows := ((db.channels.select fun c =>
    c.deletedAt = none &&
      (match options.slug with
        | some slug => c.slug = slug
        | none => true) &&
      (match options.cursor with
        | some cursor => cursor.precedes (c.cursor db since)
        | none => true)).mergeSort fun a b =>
          (a.cursor db since).legs ≤ (b.cursor db since).legs).take
            (options.limit + 1)
  let hasMore : Bool := rows.length > options.limit
  let page := if hasMore then rows.take options.limit else rows
  { items := page
    next := if hasMore then page.getLast?.map (·.cursor db since) else none }

/-! ## The order of the directory -/

omit [Collation] in
theorem ChannelCursor.legs_injective : Function.Injective legs := by
  intro a b h
  simp only [legs, toLex_inj, Prod.mk.injEq, OrderDual.toDual_inj,
    Collated.mk.injEq] at h
  obtain ⟨hrank, hfailures, hdisabled, hslug, hid⟩ := h
  cases a
  cases b
  cases hrank
  cases hfailures
  cases hdisabled
  cases hslug
  cases hid
  rfl

/-- Cursors are ordered as the legs say. -/
instance : LinearOrder ChannelCursor :=
  LinearOrder.lift' ChannelCursor.legs ChannelCursor.legs_injective

/-- The keyset predicate is the order of the directory. -/
theorem ChannelCursor.precedes_iff {cursor row : ChannelCursor} :
    cursor.precedes row = true ↔ cursor < row := by
  change _ ↔ cursor.legs < row.legs
  simp only [precedes, legs, Prod.Lex.toLex_lt_toLex,
    OrderDual.toDual_lt_toDual, EmbeddingLike.apply_eq_iff_eq,
    Collated.mk.injEq, Bool.or_eq_true, Bool.and_eq_true,
    decide_eq_true_eq, gt_iff_lt]
  rw [eq_comm (a := row.healthRank), eq_comm (a := row.recentFailureCount),
    eq_comm (a := row.autoDisabledEndpointCount), eq_comm (a := row.slug)]

omit [Collation] in
/-- What a request for the directory finds, its cursor apart. -/
def directory (db : Database) (slug : Option String) (now : Instant) :
    Source ChannelRow ChannelCursor where
  rows := db.channels.select fun c => c.deletedAt = none &&
    (match slug with
      | some slug => c.slug = slug
      | none => true)
  key c := c.cursor db (failureWindowStart now)

omit [Collation] in
theorem keyed_directory (db : Database) (slug : Option String)
    (now : Instant) : (directory db slug now).Keyed := by
  have hids : ((directory db slug now).rows.map ChannelRow.id).Nodup :=
    db.channels.nodup.sublist (List.filter_sublist.map _)
  refine List.Nodup.of_map ChannelCursor.id ?_
  rw [List.map_map]
  exact hids

/-- A page of the directory is a keyset page. -/
theorem listChannels_eq_page (db : Database) (options : ListChannelsOptions) :
    listChannels db options = (directory db options.slug options.now).page
      options.limit options.cursor := by
  have hcursor (c : ChannelRow) :
      (match options.cursor with
        | some cursor => cursor.precedes
            (c.cursor db (failureWindowStart options.now))
        | none => true) = decide (After options.cursor
          (c.cursor db (failureWindowStart options.now))) := by
    rw [← all_precedes ChannelCursor.precedes_iff]
    cases options.cursor <;> rfl
  have hrest := Source.rest_filter db.channels.rows
    (fun c => c.cursor db (failureWindowStart options.now))
    (fun c => c.deletedAt = none && (match options.slug with
      | some slug => c.slug = slug
      | none => true)) hcursor
  simp only [listChannels, Source.page, directory, Table.select, hrest]
  rfl

end Collated

end WebhookBroadcast
