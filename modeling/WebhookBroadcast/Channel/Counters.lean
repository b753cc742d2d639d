import WebhookBroadcast.Channel.Directory
import WebhookBroadcast.Channel.Health
import WebhookBroadcast.Endpoint.Enablement
import WebhookBroadcast.Service.Ownership

/-!
# Three failure counters

The badge and the order of the directory count the Deliveries of a Channel, the
failure roll-up those of its Endpoints.  A Delivery has the Channel of its
Endpoint in every state that the service reaches, and so they agree.
-/

namespace WebhookBroadcast

open Relational

/-! ## The rows of the roll-up -/

section Rollup

variable {db : Database} {id : Uuid} {since : Instant}

theorem mem_endpointDeliveries {r : EndpointRow × DeliveryRow} :
    r ∈ endpointDeliveries db ↔
      r.1 ∈ db.endpoints ∧ r.2 ∈ db.deliveries ∧ r.2.endpointId = r.1.id := by
  simp only [endpointDeliveries, List.mem_flatMap, List.mem_map,
    Table.mem_select, decide_eq_true_eq]
  constructor
  · rintro ⟨e, he, d, ⟨hd, hid⟩, rfl⟩
    exact ⟨he, hd, hid⟩
  · rintro ⟨he, hd, hid⟩
    exact ⟨r.1, he, r.2, ⟨hd, hid⟩, rfl⟩

/-- A Delivery is joined to one Endpoint only. -/
theorem nodup_endpointDeliveries :
    ((endpointDeliveries db).map Prod.snd).Nodup := by
  have hrows : (endpointDeliveries db).map Prod.snd =
      db.endpoints.rows.flatMap fun e =>
        db.deliveries.select fun d => d.endpointId = e.id := by
    simp [endpointDeliveries, List.map_flatMap, Function.comp_def]
  rw [hrows, List.nodup_flatMap]
  constructor
  · intro e _
    exact (List.Nodup.of_map _ db.deliveries.nodup).sublist
      List.filter_sublist
  · refine (List.pairwise_map.mp db.endpoints.nodup).imp
      fun {e e'} hne d hd hd' => hne ?_
    rw [Table.mem_select] at hd hd'
    exact (of_decide_eq_true hd.2).symm.trans (of_decide_eq_true hd'.2)

/-- The rows that the roll-up of a Channel groups. -/
def rollupRows (db : Database) (channelId : Uuid) (since : Instant) :
    List (EndpointRow × DeliveryRow) :=
  (endpointDeliveries db).filter fun r =>
    r.1.channelId = channelId && r.2.failedSince since

theorem mem_rollupRows {r : EndpointRow × DeliveryRow} :
    r ∈ rollupRows db id since ↔
      (r.1 ∈ db.endpoints ∧ r.2 ∈ db.deliveries ∧ r.2.endpointId = r.1.id) ∧
        r.1.channelId = id ∧ r.2.failedSince since = true := by
  rw [rollupRows, List.mem_filter, mem_endpointDeliveries]
  simp

/-- The roll-up groups the Deliveries that the badge counts. -/
theorem perm_rollupRows (howned : db.DeliveriesOwned) :
    ((rollupRows db id since).map Prod.snd).Perm
      (db.deliveries.select fun d =>
        d.channelId = id && d.failedSince since) := by
  refine (List.perm_ext_iff_of_nodup ?_ ?_).mpr fun d => ?_
  · exact nodup_endpointDeliveries.sublist (List.filter_sublist.map _)
  · exact (List.Nodup.of_map _ db.deliveries.nodup).sublist
      List.filter_sublist
  · simp only [List.mem_map, mem_rollupRows, Table.mem_select,
      Bool.and_eq_true, decide_eq_true_eq]
    constructor
    · rintro ⟨⟨e, d'⟩, ⟨⟨he, hd, hendpoint⟩, hchannel, hfailed⟩, rfl⟩
      exact ⟨hd, (howned d' hd e he hendpoint.symm).symm.trans hchannel,
        hfailed⟩
    · rintro ⟨hd, hchannel, hfailed⟩
      obtain ⟨e, he, hid⟩ := db.delivery_endpoint d hd
      exact ⟨(e, d), ⟨⟨he, hd, hid.symm⟩,
        (howned d hd e he hid).trans hchannel, hfailed⟩, rfl⟩

end Rollup

/-! ## The roll-up -/

section Collated

variable [Collation] {db : Database} {id : Uuid} {now : Instant}

theorem perm_getFailureRollupForChannel :
    (getFailureRollupForChannel db id now).Perm
      ((groupBy Prod.fst (rollupRows db id (failureWindowStart now))).map
        EndpointFailureRollupRow.ofGroup) :=
  List.mergeSort_perm _ _

omit [Collation] in
/-- What a row counts: the failures of its group. -/
theorem ofGroup_total {g : EndpointRow × List (EndpointRow × DeliveryRow)}
    (hg : g ∈ groupBy Prod.fst
      (rollupRows db id (failureWindowStart now))) :
    (EndpointFailureRollupRow.ofGroup g).failed +
      (EndpointFailureRollupRow.ofGroup g).deadLettered = g.2.length := by
  have hfailed : ∀ d ∈ g.2.map Prod.snd,
      d.failedSince (failureWindowStart now) = true := by
    intro d hd
    rw [(mem_groupBy.mp hg).2] at hd
    obtain ⟨r, hr, rfl⟩ := List.mem_map.mp hd
    exact (mem_rollupRows.mp (List.mem_of_mem_filter hr)).2.2
  rw [← List.length_map Prod.snd, ← countStatus_add hfailed]
  rfl

theorem sum_getFailureRollupForChannel :
    ((getFailureRollupForChannel db id now).map
        fun row => row.failed + row.deadLettered).sum =
      (rollupRows db id (failureWindowStart now)).length := by
  rw [(perm_getFailureRollupForChannel.map _).sum_eq, List.map_map]
  calc
    _ = ((groupBy Prod.fst (rollupRows db id (failureWindowStart now))).map
        fun g => g.2.countP fun _ => true).sum := by
      refine congrArg List.sum (List.map_congr_left fun g hg => ?_)
      rw [List.countP_true]
      exact ofGroup_total hg
    _ = (rollupRows db id (failureWindowStart now)).length := by
      rw [sum_countP_groupBy, List.countP_true]

theorem mem_getFailureRollupForChannel {row : EndpointFailureRollupRow} :
    row ∈ getFailureRollupForChannel db id now ↔
      ∃ g ∈ groupBy Prod.fst (rollupRows db id (failureWindowStart now)),
        EndpointFailureRollupRow.ofGroup g = row := by
  rw [perm_getFailureRollupForChannel.mem_iff, List.mem_map]

/-- No Endpoint has two rows. -/
theorem nodup_getFailureRollupForChannel :
    ((getFailureRollupForChannel db id now).map
      EndpointFailureRollupRow.endpointId).Nodup := by
  rw [(perm_getFailureRollupForChannel.map _).nodup_iff, List.map_map]
  have hids : EndpointFailureRollupRow.endpointId ∘
      EndpointFailureRollupRow.ofGroup = EndpointRow.id ∘ Prod.fst := rfl
  rw [hids, ← List.map_map]
  refine List.Nodup.map_on (fun e he e' he' hid => ?_) nodup_groupBy
  have hendpoint : ∀ e ∈ (groupBy Prod.fst
      (rollupRows db id (failureWindowStart now))).map Prod.fst,
        e ∈ db.endpoints := by
    intro e he
    rw [map_fst_groupBy, List.mem_dedup] at he
    obtain ⟨r, hr, rfl⟩ := List.mem_map.mp he
    exact (mem_rollupRows.mp hr).1.1
  exact db.endpoints.eq_of_key_eq (hendpoint e he) (hendpoint e' he') hid

theorem pos_of_mem_getFailureRollupForChannel
    {row : EndpointFailureRollupRow}
    (hrow : row ∈ getFailureRollupForChannel db id now) :
    0 < row.failed + row.deadLettered := by
  obtain ⟨g, hg, rfl⟩ := mem_getFailureRollupForChannel.mp hrow
  obtain ⟨r, hr, -⟩ := exists_of_mem_groupBy hg
  rw [ofGroup_total hg]
  exact List.length_pos_of_mem hr

/-- An Endpoint has a row when one of its Deliveries is counted. -/
theorem exists_row_iff (howned : db.DeliveriesOwned) (endpointId : Uuid) :
    (∃ row ∈ getFailureRollupForChannel db id now,
        row.endpointId = endpointId) ↔
      ∃ d ∈ db.deliveries, d.endpointId = endpointId ∧ d.channelId = id ∧
        d.failedSince (failureWindowStart now) = true := by
  constructor
  · rintro ⟨row, hrow, rfl⟩
    obtain ⟨g, hg, rfl⟩ := mem_getFailureRollupForChannel.mp hrow
    obtain ⟨r, -, hr, hkey⟩ := exists_of_mem_groupBy hg
    obtain ⟨⟨he, hd, hendpoint⟩, hchannel, hfailed⟩ := mem_rollupRows.mp hr
    refine ⟨r.2, hd, ?_, ?_, hfailed⟩
    · rw [hendpoint, hkey]
      rfl
    · exact (howned r.2 hd r.1 he hendpoint.symm).symm.trans hchannel
  · rintro ⟨d, hd, rfl, hchannel, hfailed⟩
    obtain ⟨e, he, hid⟩ := db.delivery_endpoint d hd
    have hr : (e, d) ∈ rollupRows db id (failureWindowStart now) :=
      mem_rollupRows.mpr ⟨⟨he, hd, hid.symm⟩,
        (howned d hd e he hid).trans hchannel, hfailed⟩
    have hg : (e, (rollupRows db id (failureWindowStart now)).filter
        fun r => r.1 = e) ∈ groupBy Prod.fst
          (rollupRows db id (failureWindowStart now)) :=
      mem_groupBy.mpr ⟨⟨(e, d), hr, rfl⟩, rfl⟩
    exact ⟨_, mem_getFailureRollupForChannel.mpr ⟨_, hg, rfl⟩, hid⟩

end Collated

/-! ## The counters of a Channel -/

/-- Badge, directory and roll-up tell the same failures of a Channel, whichever
Channels the badge is asked for with it. -/
structure FailureCountersAgree [Collation] (db : Database) (now : Instant)
    (c : ChannelRow) : Prop where
  rollup : ∀ channelIds : List Uuid, c.id ∈ channelIds →
    recentFailedDeliveryCount
        ((getRecentFailureCountsByChannelIds db channelIds now).lookup c.id) =
      ((getFailureRollupForChannel db c.id now).map
        fun row => row.failed + row.deadLettered).sum
  leg : ∀ channelIds : List Uuid, c.id ∈ channelIds →
    (recentFailedDeliveryCount
        ((getRecentFailureCountsByChannelIds db channelIds now).lookup
          c.id) : ℤ) =
      (c.cursor db (failureWindowStart now)).recentFailureCount
  rows : ((getFailureRollupForChannel db c.id now).map
    EndpointFailureRollupRow.endpointId).Nodup
  positive : ∀ row ∈ getFailureRollupForChannel db c.id now,
    0 < row.failed + row.deadLettered
  row : ∀ endpointId,
    (∃ row ∈ getFailureRollupForChannel db c.id now,
        row.endpointId = endpointId) ↔
      ∃ d ∈ db.deliveries, d.endpointId = endpointId ∧ d.channelId = c.id ∧
        d.failedSince (failureWindowStart now) = true
  rank : ∀ channelIds : List Uuid, c.id ∈ channelIds →
    ((c.cursor db (failureWindowStart now)).healthRank = 0 ↔
      c.enabled = true ∧
        (0 < recentFailedDeliveryCount
            ((getRecentFailureCountsByChannelIds db channelIds now).lookup
              c.id) ∨
          0 < ((getAutoDisabledEndpointCountsByChannelIds db
            channelIds).lookup c.id).getD 0))

theorem failureCountersAgree [Collation] {db : Database}
    (howned : db.DeliveriesOwned) (now : Instant) (c : ChannelRow) :
    FailureCountersAgree db now c where
  rollup channelIds hc := by
    rw [recentFailedDeliveryCount_eq hc, sum_getFailureRollupForChannel,
      ← (perm_rollupRows howned).length_eq, List.length_map]
  leg channelIds hc := by
    rw [recentFailedDeliveryCount_eq hc]
    rfl
  rows := nodup_getFailureRollupForChannel
  positive _ := pos_of_mem_getFailureRollupForChannel
  row := exists_row_iff howned
  rank channelIds hc := by
    have hrank : (c.cursor db (failureWindowStart now)).healthRank = 0 ↔
        c.enabled = true ∧
          (0 < recentFailureCount db (failureWindowStart now) c ∨
            0 < autoDisabledEndpointCount db c) :=
      channelHealthRank_eq_zero c _
    rw [hrank, recentFailedDeliveryCount_eq hc,
      getAutoDisabledEndpointCounts_eq hc, recentFailureCount,
      autoDisabledEndpointCount, Int.natCast_pos, Int.natCast_pos]

/-! ## The order of the directory -/

section Order

variable [Collation] {db : Database} {now : Instant}

omit [Collation] in
theorem channelHealthRank_nonneg (since : Instant) (c : ChannelRow) :
    0 ≤ channelHealthRank db since c := by
  rw [channelHealthRank]
  split
  · omega
  · split <;> omega

/-- No Channel comes before one that ranks first unless it does so too. -/
theorem rank_eq_zero_of_legs_lt {since : Instant} {a b : ChannelRow}
    (hlt : (a.cursor db since).legs < (b.cursor db since).legs)
    (hb : channelHealthRank db since b = 0) :
    channelHealthRank db since a = 0 := by
  have hnonneg : 0 ≤ channelHealthRank db since a :=
    channelHealthRank_nonneg since a
  rw [ChannelCursor.legs, ChannelCursor.legs, Prod.Lex.toLex_lt_toLex] at hlt
  rcases hlt with hrank | ⟨hrank, -⟩
  · have hless : channelHealthRank db since a <
        channelHealthRank db since b := hrank
    omega
  · exact hrank.trans hb

omit [Collation] in
theorem map_row_hydrateChannels (rows : List ChannelRow) :
    (hydrateChannels db rows now).map WireChannel.row = rows := by
  rw [hydrateChannels, List.map_map]
  exact List.map_id _

omit [Collation] in
/-- What the directory shows as broken ranks first. -/
theorem broken_of_mem_hydrateChannels {rows : List ChannelRow}
    {c : WireChannel} (hc : c ∈ hydrateChannels db rows now) :
    c.Broken ↔ channelHealthRank db (failureWindowStart now) c.row = 0 := by
  rw [hydrateChannels, List.mem_map] at hc
  obtain ⟨row, hrow, rfl⟩ := hc
  exact broken_toWireChannel (List.mem_map_of_mem hrow) _

/-- In the order of the directory all that is broken comes first. -/
theorem pairwise_broken (db : Database) (now : Instant)
    {channels : List WireChannel}
    (hbroken : ∀ c ∈ channels, c.Broken ↔
      channelHealthRank db (failureWindowStart now) c.row = 0)
    (hsorted : (channels.map WireChannel.row).Pairwise fun a b =>
      (a.cursor db (failureWindowStart now)).legs <
        (b.cursor db (failureWindowStart now)).legs) :
    channels.Pairwise fun a b => b.Broken → a.Broken := by
  refine (List.pairwise_map.mp hsorted).imp_of_mem
    fun {a b} ha hb hlt hbrokenB => ?_
  rw [hbroken a ha]
  exact rank_eq_zero_of_legs_lt hlt ((hbroken b hb).mp hbrokenB)

end Order

/-- The directory, on a page and on all pages together, shows what is broken
before everything else. -/
structure BrokenFirst [Collation] (db : Database) (now : Instant) : Prop where
  page : ∀ options : ListChannelsOptions, options.now = now →
    (hydrateChannels db (listChannels db options).items now).Pairwise
      fun a b => b.Broken → a.Broken
  pages : ∀ (codec : Codec ChannelCursor) (limit : ℕ) (slug : Option String)
    (n : ℕ), 1 ≤ limit →
    ((directoryPages codec db limit slug (List.replicate n now)).flatMap
      fun page => hydrateChannels db page.items now).Pairwise
        fun a b => b.Broken → a.Broken

theorem brokenFirst [Collation] (db : Database) (now : Instant) :
    BrokenFirst db now where
  page options hnow := by
    subst hnow
    refine pairwise_broken db options.now (fun c hc => broken_of_mem_hydrateChannels hc) ?_
    rw [map_row_hydrateChannels, listChannels_eq_page]
    exact Source.pairwise_page (keyed_directory db options.slug options.now)
  pages codec limit slug n hlimit := by
    refine pairwise_broken db now (fun c hc => ?_) ?_
    · obtain ⟨page, -, hc⟩ := List.mem_flatMap.mp hc
      exact broken_of_mem_hydrateChannels hc
    · rw [List.map_flatMap]
      simp only [map_row_hydrateChannels]
      exact pairwise_directoryPages hlimit now n

/-- In every state that the service reaches the counters agree about every live
Channel, and the directory begins with what is broken. -/
theorem failureCounters_agree [Collation] (dateParse : String → Option Instant)
    {w : World} (hw : w.db.endpoints.rows = []) {history : ServiceHistory}
    (hfresh : FreshEndpoints history) (now : Instant) :
    (∀ c ∈ (serve dateParse w history).state.db.channels,
      c.deletedAt = none →
        FailureCountersAgree (serve dateParse w history).state.db now c) ∧
      BrokenFirst (serve dateParse w history).state.db now :=
  ⟨fun c _ _ => failureCountersAgree (deliveriesOwned_serve hw hfresh) now c,
    brokenFirst _ now⟩

theorem failureCounters_agree_disabledMidTraffic :
    letI := Collation.c
    let db := (serve (fun _ => none) channelWorld disabledMidTraffic).state.db
    db.channels.rows.map (recentFailureCount db (failureWindowStart 0)) =
        [1] ∧
      (∀ c ∈ db.channels, c.deletedAt = none → FailureCountersAgree db 0 c) ∧
      BrokenFirst db 0 :=
  let _ := Collation.c
  ⟨by decide, failureCounters_agree (fun _ => none) rfl (by decide) 0⟩

end WebhookBroadcast
