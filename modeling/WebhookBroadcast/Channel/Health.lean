import WebhookBroadcast.Db.Broadcasts
import WebhookBroadcast.Db.Directory

/-!
# The health of a Channel

What the Channel directory shows about failures: the counts that
`hydrateChannels` of `apps/api/src/admin/channels.ts` adds to each row, and the
lamp that `StatusLamp.tsx` of the web application lights from them.  The lamp
is lit as broken exactly on the Channels that the directory ranks first.
-/

namespace WebhookBroadcast

open Relational

/-! ## The counts -/

/-- `(recentFailures?.failedCount ?? 0) + (recentFailures?.deadLetteredCount ?? 0)`. -/
def recentFailedDeliveryCount
    (recentFailures : Option ChannelRecentFailureCountRow) : ℕ :=
  recentFailures.elim 0 ChannelRecentFailureCountRow.failedCount +
    recentFailures.elim 0 ChannelRecentFailureCountRow.deadLetteredCount

/-- The row of a Channel with the part of its aggregates that tells its
health. -/
structure WireChannel where
  row : ChannelRow
  hasBroadcasts : Bool
  recentFailedDeliveryCount : ℕ
  autoDisabledEndpointCount : ℕ

def toWireChannel (row : ChannelRow) (hasBroadcasts : Bool)
    (recentFailures : Option ChannelRecentFailureCountRow)
    (autoDisabledEndpointCount : ℕ) : WireChannel where
  row := row
  hasBroadcasts := hasBroadcasts
  recentFailedDeliveryCount := recentFailedDeliveryCount recentFailures
  autoDisabledEndpointCount := autoDisabledEndpointCount

def hydrateChannels (db : Database) (rows : List ChannelRow) (now : Instant) :
    List WireChannel :=
  let ids := rows.map ChannelRow.id
  let everBroadcast := getChannelIdsWithAnyBroadcast db ids
  let recentFailures := getRecentFailureCountsByChannelIds db ids now
  let autoDisabledEndpointCounts :=
    getAutoDisabledEndpointCountsByChannelIds db ids
  rows.map fun row => toWireChannel row (row.id ∈ everBroadcast)
    (recentFailures.lookup row.id)
    ((autoDisabledEndpointCounts.lookup row.id).getD 0)

/-! ## The lamp -/

inductive LampTone where
  | live
  | cut
  | neutral
deriving DecidableEq

inductive LampForm where
  | lit
  | hollow
deriving DecidableEq

inductive LampGlyph where
  | ok
  | failed
  | stopped
  | working
  | waiting
  | off
  | none
deriving DecidableEq

structure StatusLamp where
  label : String
  tone : LampTone
  form : LampForm
  glyph : LampGlyph
deriving DecidableEq

def channelHealthLamp (enabled hasBroadcasts : Bool)
    (recentFailedDeliveryCount autoDisabledEndpointCount : ℕ) : StatusLamp :=
  let parts : List String :=
    (if recentFailedDeliveryCount > 0 then
      [toString recentFailedDeliveryCount ++ " failing (24h)"] else []) ++
    (if autoDisabledEndpointCount > 0 then
      [toString autoDisabledEndpointCount ++ " auto-disabled"] else [])
  if parts.length > 0 then
    let label := " · ".intercalate parts
    if enabled then ⟨label, .cut, .lit, .failed⟩
    else ⟨label, .neutral, .hollow, .off⟩
  else if ¬ hasBroadcasts then ⟨"No activity", .neutral, .hollow, .none⟩
  else ⟨"No failures (24h)", .live, .lit, .ok⟩

/-- The lamp of a row of the directory. -/
def WireChannel.lamp (c : WireChannel) : StatusLamp :=
  channelHealthLamp c.row.enabled c.hasBroadcasts c.recentFailedDeliveryCount
    c.autoDisabledEndpointCount

/-- The lamp shows the Channel as broken. -/
def WireChannel.Broken (c : WireChannel) : Prop := c.lamp.tone = .cut

theorem tone_channelHealthLamp {enabled hasBroadcasts : Bool}
    {failures autoDisabled : ℕ} :
    (channelHealthLamp enabled hasBroadcasts failures autoDisabled).tone =
        .cut ↔
      enabled = true ∧ (0 < failures ∨ 0 < autoDisabled) := by
  rw [channelHealthLamp]
  rcases Nat.eq_zero_or_pos failures with rfl | hfailures
  · rcases Nat.eq_zero_or_pos autoDisabled with rfl | hautoDisabled
    · cases hasBroadcasts <;> simp
    · cases enabled <;> simp [hautoDisabled]
  · cases enabled <;> simp [hfailures]

/-! ## Counts and ranks -/

section Counts

variable {db : Database} {now : Instant} {channelIds : List Uuid}

/-- The badge counts the failures in the window. -/
theorem recentFailedDeliveryCount_eq {id : Uuid} (hid : id ∈ channelIds) :
    recentFailedDeliveryCount
        ((getRecentFailureCountsByChannelIds db channelIds now).lookup id) =
      (db.deliveries.select fun d => d.channelId = id &&
        d.failedSince (failureWindowStart now)).length := by
  rw [getRecentFailureCountsByChannelIds, if_neg (List.ne_nil_of_mem hid)]
  dsimp only
  rw [Table.select, lookup_map_groupBy (fun rows =>
    (⟨countStatus .failed rows, countStatus .deadLettered rows⟩ :
      ChannelRecentFailureCountRow)) _ _ hid, ← Table.select]
  split
  next hnone =>
    rw [hnone]
    rfl
  next =>
    have hfailed : ∀ d ∈ db.deliveries.select fun d => d.channelId = id &&
        d.failedSince (failureWindowStart now),
          d.failedSince (failureWindowStart now) = true := by
      intro d hd
      rw [Table.mem_select] at hd
      exact (Bool.and_eq_true_iff.mp hd.2).2
    exact countStatus_add hfailed

theorem getAutoDisabledEndpointCounts_eq {id : Uuid} (hid : id ∈ channelIds) :
    ((getAutoDisabledEndpointCountsByChannelIds db channelIds).lookup
        id).getD 0 =
      (db.endpoints.select fun e =>
        e.channelId = id && e.autoDisabledAt.isSome).length := by
  rw [getAutoDisabledEndpointCountsByChannelIds,
    if_neg (List.ne_nil_of_mem hid), Table.select,
    lookup_map_groupBy List.length _ _ hid, ← Table.select]
  split
  next hnone =>
    rw [hnone]
    rfl
  next => rfl

/-- A Channel ranks first exactly when it is enabled and one of its counts is
positive. -/
theorem channelHealthRank_eq_zero (c : ChannelRow) (since : Instant) :
    channelHealthRank db since c = 0 ↔
      c.enabled = true ∧ (0 < recentFailureCount db since c ∨
        0 < autoDisabledEndpointCount db c) := by
  have hfailures : 0 < recentFailureCount db since c ↔
      ∃ d ∈ db.deliveries.rows, d.channelId = c.id ∧ d.failedSince since := by
    rw [recentFailureCount, Int.natCast_pos, List.length_pos_iff_exists_mem]
    simp [Table.mem_select, Table.mem_def]
  have hautoDisabled : 0 < autoDisabledEndpointCount db c ↔
      ∃ e ∈ db.endpoints.rows,
        e.channelId = c.id ∧ e.autoDisabledAt.isSome := by
    rw [autoDisabledEndpointCount, Int.natCast_pos,
      List.length_pos_iff_exists_mem]
    simp [Table.mem_select, Table.mem_def]
  rw [hfailures, hautoDisabled, channelHealthRank]
  by_cases henabled : c.enabled = true
  · rw [if_neg (not_not.mpr henabled)]
    split
    next h => exact ⟨fun _ => ⟨henabled, h.symm⟩, fun _ => rfl⟩
    next h =>
      constructor
      · intro hrank
        cases hrank
      · exact fun hbroken => absurd hbroken.2.symm h
  · rw [if_pos henabled]
    constructor
    · intro hrank
      cases hrank
    · exact fun hbroken => absurd hbroken.1 henabled

/-- The lamp shows a Channel as broken exactly when it ranks first. -/
theorem broken_toWireChannel {c : ChannelRow} (hc : c.id ∈ channelIds)
    (hasBroadcasts : Bool) :
    (toWireChannel c hasBroadcasts
        ((getRecentFailureCountsByChannelIds db channelIds now).lookup c.id)
        (((getAutoDisabledEndpointCountsByChannelIds db channelIds).lookup
          c.id).getD 0)).Broken ↔
      channelHealthRank db (failureWindowStart now) c = 0 := by
  rw [channelHealthRank_eq_zero, WireChannel.Broken, WireChannel.lamp,
    toWireChannel, tone_channelHealthLamp, recentFailedDeliveryCount_eq hc,
    getAutoDisabledEndpointCounts_eq hc, recentFailureCount,
    autoDisabledEndpointCount, Int.natCast_pos, Int.natCast_pos]

end Counts

end WebhookBroadcast
