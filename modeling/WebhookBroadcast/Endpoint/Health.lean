import WebhookBroadcast.Channel.Counters
import WebhookBroadcast.Db.EndpointHealth

/-!
# The health of an Endpoint

What the list of Endpoints shows of the last day: a success rate, a lamp, the
time of the last success and the 95th percentile of the durations.  The rate is
computed from one query, the failures by Endpoint from another and the badge of
the Channel from a third; an Endpoint is failing for all of them or for none.
-/

namespace WebhookBroadcast

open Relational

/-! ## Rows of the list -/

/-- The row of an Endpoint with its health. -/
structure WireEndpoint where
  row : EndpointRow
  successRate24h : Option ℚ
  p95Ms : Option ℤ
  lastSuccessAt : Option Instant

def toWireEndpoint (row : EndpointRow) (health : Option EndpointHealthRow) :
    WireEndpoint where
  row := row
  successRate24h := health.bind EndpointHealthRow.successRate24h
  p95Ms := health.bind EndpointHealthRow.p95Ms
  lastSuccessAt := health.bind EndpointHealthRow.lastSuccessAt

/-- The rows of one response. -/
def hydrateEndpoints (first second : Reading) (items : List EndpointRow) :
    List WireEndpoint :=
  let healthById :=
    getEndpointHealthByIds first second (items.map EndpointRow.id)
  items.map fun item => toWireEndpoint item (healthById.lookup item.id)

/-! ## The lamp -/

/-- The rate in words: the product of doubles, rounded down. -/
def formatSuccessRate24h (rate : ℚ) : String :=
  toString ⌊Js.toDouble (rate * 100)⌋ ++ "% ok (24h)"

def endpointHealthLamp (enabled : Bool) (autoDisabledAt : Option Instant)
    (successRate24h : Option ℚ) : StatusLamp :=
  if autoDisabledAt.isSome then ⟨"Auto-disabled", .cut, .hollow, .stopped⟩
  else if ¬ enabled then ⟨"Disabled", .neutral, .hollow, .off⟩
  else
    match successRate24h with
    | none => ⟨"No activity (24h)", .neutral, .hollow, .none⟩
    | some rate =>
        if rate < 1 then ⟨formatSuccessRate24h rate, .cut, .lit, .failed⟩
        else ⟨formatSuccessRate24h 1, .live, .lit, .ok⟩

namespace WireEndpoint

def lamp (e : WireEndpoint) : StatusLamp :=
  endpointHealthLamp e.row.enabled e.row.autoDisabledAt e.successRate24h

/-- Neither the operator nor a streak of failures has switched it off. -/
def On (e : WireEndpoint) : Prop :=
  e.row.enabled = true ∧ e.row.autoDisabledAt = none

/-- The rate is short of a whole window of successes. -/
def Failing (e : WireEndpoint) : Prop := ∃ rate ∈ e.successRate24h, rate < 1

end WireEndpoint

/-! ## Percentages -/

/-- A percentage that is not above the share of a part in the whole, and at most
one below. -/
def RoundsDown (percent part whole : ℕ) : Prop :=
  percent * whole ≤ 100 * part ∧ 100 * part ≤ (percent + 1) * whole

section Percent

variable {part whole : ℕ}

/-- The quotient of two counts, as a double. -/
theorem toDouble_div_toDouble (hpart : part ≤ whole)
    (hlimit : whole ≤ tableRowsLimit) :
    Js.toDouble (Js.toDouble part / Js.toDouble whole) =
      Js.toDouble (part / whole) := by
  have hwhole : whole < 2 ^ 53 := hlimit.trans_lt (by decide)
  rw [Js.toDouble_of_isDouble (Js.isDouble_natCast hwhole),
    Js.toDouble_of_isDouble (Js.isDouble_natCast (hpart.trans_lt hwhole))]

theorem toDouble_share_le_one (hpart : part ≤ whole) :
    Js.toDouble (part / whole) ≤ 1 := by
  rw [← Js.toDouble_one]
  exact Js.toDouble_mono (by positivity)
    (div_le_one_of_le₀ (by exact_mod_cast hpart) (by positivity))

/-- A share that is short of the whole is so as a double: there is one between. -/
theorem toDouble_share_lt_one_iff (hpos : 0 < whole) (hpart : part ≤ whole)
    (hlimit : whole ≤ tableRowsLimit) :
    Js.toDouble (part / whole) < 1 ↔ part < whole := by
  have hpos' : (0 : ℚ) < whole := Nat.cast_pos.mpr hpos
  constructor
  · intro hlt
    refine lt_of_le_of_ne hpart fun heq => hlt.ne ?_
    rw [heq, div_self hpos'.ne', Js.toDouble_one]
  · intro hlt
    have hbelow : Js.IsDouble (1 - 1 / 2 ^ 43) :=
      ⟨2 ^ 43 - 1, -43, by norm_num, by norm_num, by norm_num, by norm_num⟩
    have hshare : (part : ℚ) / whole ≤ 1 - 1 / 2 ^ 43 := by
      have hsucc : (part : ℚ) + 1 ≤ whole := by exact_mod_cast hlt
      have hlimit' : (whole : ℚ) ≤ 2 ^ 43 := by exact_mod_cast hlimit
      rw [div_le_iff₀ hpos']
      linarith
    refine (Js.toDouble_mono (by positivity) hshare).trans_lt ?_
    rw [Js.toDouble_of_isDouble hbelow]
    norm_num

/-- A share that is not empty is at least the reciprocal of the limit. -/
theorem le_share (hpart : 0 < part) (hle : part ≤ whole)
    (hlimit : whole ≤ tableRowsLimit) :
    (1 : ℚ) / 2 ^ 43 ≤ part / whole := by
  have hpos : (0 : ℚ) < whole := Nat.cast_pos.mpr (hpart.trans_le hle)
  have hone : (1 : ℚ) ≤ part := by exact_mod_cast hpart
  have hlimit' : (whole : ℚ) ≤ 2 ^ 43 := by exact_mod_cast hlimit
  rw [div_le_div_iff₀ (by positivity) hpos]
  nlinarith

theorem toDouble_share_pos_iff (hpart : part ≤ whole)
    (hlimit : whole ≤ tableRowsLimit) :
    0 < Js.toDouble (part / whole) ↔ 0 < part := by
  constructor
  · intro hpos
    refine Nat.pos_of_ne_zero fun hzero => hpos.ne ?_
    rw [hzero, Nat.cast_zero, zero_div, Js.toDouble_zero]
  · intro hpos
    have hsmall : Js.IsDouble (1 / 2 ^ 43) :=
      ⟨1, -43, by norm_num, by norm_num, by norm_num, by norm_num⟩
    refine lt_of_lt_of_le ?_
      (Js.toDouble_mono (by positivity) (le_share hpos hpart hlimit))
    rw [Js.toDouble_of_isDouble hsmall]
    positivity

/-- The product of the rate and 100 is off by less than one row in the whole. -/
theorem abs_percent_sub_lt (hpos : 0 < whole) (hpart : part ≤ whole)
    (hlimit : whole ≤ tableRowsLimit) :
    |Js.toDouble (Js.toDouble (part / whole) * 100) - 100 * (part / whole)| <
      1 / (whole : ℚ) := by
  have hpos' : (0 : ℚ) < whole := Nat.cast_pos.mpr hpos
  rcases Nat.eq_zero_or_pos part with rfl | hsome
  · rw [Nat.cast_zero, zero_div, Js.toDouble_zero, zero_mul, Js.toDouble_zero,
      mul_zero, sub_zero, abs_zero]
    positivity
  have hlow := le_share hsome hpart hlimit
  have hone : (part : ℚ) / whole ≤ 1 :=
    div_le_one_of_le₀ (by exact_mod_cast hpart) (by positivity)
  have hlimit' : (1 : ℚ) / 2 ^ 43 ≤ 1 / whole :=
    one_div_le_one_div_of_le hpos' (by exact_mod_cast hlimit)
  generalize (part : ℚ) / whole = share at hlow hone ⊢
  have htiny : (2 : ℚ) ^ (-1022 : ℤ) ≤ 1 / 2 ^ 43 := by
    rw [one_div, ← zpow_natCast, ← zpow_neg]
    exact zpow_le_zpow_right₀ (by norm_num) (by norm_num)
  have hquotient := abs_le.mp (Js.abs_toDouble_sub_le (htiny.trans hlow))
  have hhalf : share / 2 ≤ Js.toDouble share := by linarith
  have hproduct := abs_le.mp (Js.abs_toDouble_sub_le
    (q := Js.toDouble share * 100) (by linarith))
  rw [abs_lt]
  constructor <;> linarith

/-- The legend of a rate short of one understates, by at most one percent. -/
theorem formatSuccessRate24h_spec (hlt : part < whole)
    (hlimit : whole ≤ tableRowsLimit) :
    ∃ percent < 100, RoundsDown percent part whole ∧
      formatSuccessRate24h (Js.toDouble (part / whole)) =
        toString percent ++ "% ok (24h)" := by
  have hpos : 0 < whole := Nat.zero_lt_of_lt hlt
  have hpos' : (0 : ℚ) < whole := Nat.cast_pos.mpr hpos
  have herror := abs_lt.mp (abs_percent_sub_lt hpos hlt.le hlimit)
  have hnonneg : 0 ≤ Js.toDouble (Js.toDouble (part / whole) * 100) :=
    Js.toDouble_nonneg
      (mul_nonneg (Js.toDouble_nonneg (by positivity)) (by norm_num))
  obtain ⟨percent, hpercent⟩ :=
    Int.eq_ofNat_of_zero_le (Int.floor_nonneg.mpr hnonneg)
  have hfloor := Int.floor_eq_iff.mp hpercent
  rw [formatSuccessRate24h, hpercent]
  generalize Js.toDouble (Js.toDouble (part / whole) * 100) = product at *
  have hscale : 100 * ((part : ℚ) / whole) * whole = 100 * part := by
    field_simp
  have hunit : 1 / (whole : ℚ) * whole = 1 := by field_simp
  have hlow : percent * whole < 100 * part + 1 := by
    have h : (percent : ℚ) < 100 * (part / whole) + 1 / whole := by
      push_cast at hfloor
      linarith
    have h := mul_lt_mul_of_pos_right h hpos'
    rw [add_mul, hscale, hunit] at h
    exact_mod_cast h
  have hhigh : 100 * part < (percent + 1) * whole + 1 := by
    have h : 100 * ((part : ℚ) / whole) < (percent + 1) + 1 / whole := by
      push_cast at hfloor
      linarith
    have h := mul_lt_mul_of_pos_right h hpos'
    rw [add_mul, hscale, hunit] at h
    exact_mod_cast h
  refine ⟨percent, ?_, ⟨Nat.lt_succ_iff.mp hlow, Nat.lt_succ_iff.mp hhigh⟩, rfl⟩
  nlinarith

end Percent

/-! ## Counting a window -/

section Window

variable {rows : List DeliveryRow}

theorem countTerminal_eq : countTerminal rows = countStatus .succeeded rows +
    (countStatus .failed rows + countStatus .deadLettered rows) := by
  induction rows with
  | nil => rfl
  | cons d rows ih =>
      simp only [countTerminal, countStatus, List.countP_cons] at ih ⊢
      cases hstatus : d.status <;> simp [ih] <;> omega

theorem countSucceeded_le :
    countStatus .succeeded rows ≤ countTerminal rows := by
  rw [countTerminal_eq]
  exact Nat.le_add_right _ _

theorem successRate24h_eq_none_iff :
    successRate24h rows = none ↔ countTerminal rows = 0 := by
  rw [successRate24h]
  split
  next h => exact iff_of_true rfl h
  next h => exact iff_of_false (by simp) h

theorem countTerminal_le {limit : ℕ} (h : rows.length ≤ limit) :
    countTerminal rows ≤ limit :=
  List.countP_le_length.trans h

theorem successRate24h_eq_some (hlimit : rows.length ≤ tableRowsLimit) {rate : ℚ}
    (h : successRate24h rows = some rate) :
    0 < countTerminal rows ∧ rate =
      Js.toDouble (countStatus .succeeded rows / countTerminal rows) := by
  rw [successRate24h] at h
  split at h
  · cases h
  next hne =>
    refine ⟨Nat.pos_of_ne_zero hne, ?_⟩
    rw [← Option.some.inj h, toDouble_div_toDouble countSucceeded_le
      (countTerminal_le hlimit)]

/-- A rate is a share of the whole. -/
theorem successRate24h_mem (hlimit : rows.length ≤ tableRowsLimit) {rate : ℚ}
    (h : successRate24h rows = some rate) : 0 ≤ rate ∧ rate ≤ 1 := by
  obtain ⟨-, rfl⟩ := successRate24h_eq_some hlimit h
  exact ⟨Js.toDouble_nonneg (by positivity),
    toDouble_share_le_one countSucceeded_le⟩

/-- A rate falls short of one by the failures. -/
theorem failing_iff (hlimit : rows.length ≤ tableRowsLimit) :
    (∃ rate ∈ successRate24h rows, rate < 1) ↔
      0 < countStatus .failed rows + countStatus .deadLettered rows := by
  have hsplit : countTerminal rows = countStatus .succeeded rows +
      (countStatus .failed rows + countStatus .deadLettered rows) :=
    countTerminal_eq
  constructor
  · rintro ⟨rate, hrate, hlt⟩
    obtain ⟨hpos, rfl⟩ := successRate24h_eq_some hlimit hrate
    rw [toDouble_share_lt_one_iff hpos countSucceeded_le
      (countTerminal_le hlimit)] at hlt
    omega
  · intro hfailures
    have hpos : 0 < countTerminal rows := by omega
    refine ⟨_, if_neg hpos.ne', ?_⟩
    rw [toDouble_div_toDouble countSucceeded_le (countTerminal_le hlimit),
      toDouble_share_lt_one_iff hpos countSucceeded_le
        (countTerminal_le hlimit)]
    omega

/-- A time of the last success is shown where the rate is positive. -/
theorem lastSuccessAt_isSome_iff (hlimit : rows.length ≤ tableRowsLimit) :
    (lastSuccessAt rows).isSome ↔ ∃ rate ∈ successRate24h rows, 0 < rate := by
  have hsome : (lastSuccessAt rows).isSome ↔ 0 < countStatus .succeeded rows := by
    rw [lastSuccessAt, Option.isSome_iff_ne_none, ne_eq, List.max?_eq_none_iff,
      List.map_eq_nil_iff, countStatus, List.countP_eq_length_filter,
      List.length_pos_iff]
  rw [hsome, ← toDouble_share_pos_iff countSucceeded_le
    (countTerminal_le hlimit)]
  constructor
  · intro hpos
    have hterminal : countTerminal rows ≠ 0 := by
      intro hzero
      rw [hzero, Nat.cast_zero, div_zero, Js.toDouble_zero] at hpos
      exact lt_irrefl _ hpos
    refine ⟨_, if_neg hterminal, ?_⟩
    rwa [toDouble_div_toDouble countSucceeded_le (countTerminal_le hlimit)]
  · rintro ⟨rate, hrate, hpos⟩
    obtain ⟨-, rfl⟩ := successRate24h_eq_some hlimit hrate
    exact hpos

end Window

/-! ## Failures by Endpoint -/

section Rollup

variable [Collation] {db : Database} {e : EndpointRow} {now : Instant}

omit [Collation] in
/-- The roll-up counts the failures of the window of the Endpoint. -/
theorem countStatus_rollupRows (he : e ∈ db.endpoints)
    {status : DeliveryStatus}
    (hstatus : status = .failed ∨ status = .deadLettered) :
    countStatus status (((rollupRows db e.channelId
        (failureWindowStart now)).filter fun r => r.1 = e).map Prod.snd) =
      countStatus status (Reading.deliveries ⟨db, now⟩ e.id) := by
  have hperm : (((rollupRows db e.channelId (failureWindowStart now)).filter
      fun r => r.1 = e).map Prod.snd).Perm (db.deliveries.select fun d =>
        d.endpointId = e.id && d.failedSince (failureWindowStart now)) := by
    refine (List.perm_ext_iff_of_nodup ?_ ?_).mpr fun d => ?_
    · exact nodup_endpointDeliveries.sublist
        ((List.filter_sublist.trans List.filter_sublist).map _)
    · exact (List.Nodup.of_map _ db.deliveries.nodup).sublist
        List.filter_sublist
    · simp only [List.mem_map, List.mem_filter, mem_rollupRows,
        Table.mem_select, Bool.and_eq_true, decide_eq_true_eq]
      constructor
      · rintro ⟨⟨e', d'⟩, ⟨⟨⟨-, hd, hendpoint⟩, -, hfailed⟩, rfl⟩, rfl⟩
        exact ⟨hd, hendpoint, hfailed⟩
      · rintro ⟨hd, hendpoint, hfailed⟩
        exact ⟨(e, d), ⟨⟨⟨he, hd, hendpoint⟩, rfl, hfailed⟩, rfl⟩, rfl⟩
  have hcount : countStatus status (db.deliveries.select fun d =>
      d.endpointId = e.id && d.failedSince (failureWindowStart now)) =
      countStatus status (Reading.deliveries ⟨db, now⟩ e.id) := by
    rw [countStatus, countStatus, Table.select, Reading.deliveries,
      List.countP_filter, List.countP_filter]
    refine List.countP_congr fun d _ => ?_
    simp only [DeliveryRow.failedSince, failureWindowStart, healthWindowStart,
      CHANNEL_RECENT_FAILURE_WINDOW_MS, Bool.and_eq_true, Bool.or_eq_true,
      decide_eq_true_eq]
    constructor
    · rintro ⟨hs, hid, -, hsince⟩
      exact ⟨hs, hid, hsince⟩
    · rintro ⟨hs, hid, hsince⟩
      exact ⟨hs, hid, hs ▸ hstatus, hsince⟩
  rw [← hcount]
  exact hperm.countP_eq _

/-- The row of an Endpoint in the roll-up of its Channel. -/
theorem counts_of_rollupRow (he : e ∈ db.endpoints)
    {row : EndpointFailureRollupRow}
    (hrow : row ∈ getFailureRollupForChannel db e.channelId now)
    (hid : row.endpointId = e.id) :
    row.failed = countStatus .failed (Reading.deliveries ⟨db, now⟩ e.id) ∧
      row.deadLettered =
        countStatus .deadLettered (Reading.deliveries ⟨db, now⟩ e.id) := by
  obtain ⟨g, hg, rfl⟩ := mem_getFailureRollupForChannel.mp hrow
  obtain ⟨r, -, hr, hkey⟩ := exists_of_mem_groupBy hg
  have hge : g.1 ∈ db.endpoints := hkey ▸ (mem_rollupRows.mp hr).1.1
  obtain rfl : g.1 = e := db.endpoints.eq_of_key_eq hge he hid
  rw [← countStatus_rollupRows he (Or.inl rfl),
    ← countStatus_rollupRows he (Or.inr rfl), ← (mem_groupBy.mp hg).2]
  exact ⟨rfl, rfl⟩

/-- An Endpoint has a row when its window has a failure. -/
theorem exists_rollupRow_iff (he : e ∈ db.endpoints) :
    (∃ row ∈ getFailureRollupForChannel db e.channelId now,
        row.endpointId = e.id) ↔
      0 < countStatus .failed (Reading.deliveries ⟨db, now⟩ e.id) +
        countStatus .deadLettered (Reading.deliveries ⟨db, now⟩ e.id) := by
  constructor
  · rintro ⟨row, hrow, hid⟩
    obtain ⟨hfailed, hdead⟩ := counts_of_rollupRow he hrow hid
    rw [← hfailed, ← hdead]
    exact pos_of_mem_getFailureRollupForChannel hrow
  · intro hpos
    obtain ⟨d, hd, hstatus⟩ : ∃ d ∈ Reading.deliveries ⟨db, now⟩ e.id,
        d.status = .failed ∨ d.status = .deadLettered := by
      rcases Nat.add_pos_iff_pos_or_pos.mp hpos with h | h
      · obtain ⟨d, hd, hs⟩ := List.countP_pos_iff.mp h
        exact ⟨d, hd, Or.inl (of_decide_eq_true hs)⟩
      · obtain ⟨d, hd, hs⟩ := List.countP_pos_iff.mp h
        exact ⟨d, hd, Or.inr (of_decide_eq_true hs)⟩
    simp only [Reading.deliveries, List.mem_filter, Bool.and_eq_true,
      decide_eq_true_eq] at hd
    have hr : (e, d) ∈ rollupRows db e.channelId (failureWindowStart now) := by
      refine mem_rollupRows.mpr ⟨⟨he, hd.1, hd.2.1⟩, rfl, ?_⟩
      simp only [DeliveryRow.failedSince, Bool.and_eq_true, Bool.or_eq_true,
        decide_eq_true_eq]
      exact ⟨hstatus, hd.2.2⟩
    have hg : (e, (rollupRows db e.channelId (failureWindowStart now)).filter
        fun r => r.1 = e) ∈ groupBy Prod.fst
          (rollupRows db e.channelId (failureWindowStart now)) :=
      mem_groupBy.mpr ⟨⟨(e, d), hr, rfl⟩, rfl⟩
    exact ⟨_, mem_getFailureRollupForChannel.mpr ⟨_, hg, rfl⟩, rfl⟩

end Rollup

/-! ## The list agrees with the other counters -/

section Wire

variable {first second : Reading} {items : List EndpointRow}
  {w : WireEndpoint}

/-- What a row of the response shows of the windows of its Endpoint. -/
theorem mem_hydrateEndpoints (h : w ∈ hydrateEndpoints first second items) :
    w.row ∈ items ∧
      w.successRate24h = successRate24h (first.deliveries w.row.id) ∧
      w.lastSuccessAt = lastSuccessAt (first.deliveries w.row.id) ∧
      w.p95Ms = if first.deliveries w.row.id = [] then none
        else p95Ms (second.attempts w.row.id) := by
  obtain ⟨item, hitem, rfl⟩ := List.mem_map.mp h
  have hid : item.id ∈ items.map EndpointRow.id := List.mem_map_of_mem hitem
  refine ⟨hitem, ?_⟩
  simp only [toWireEndpoint, lookup_getEndpointHealthByIds hid]
  split
  next hnone =>
    rw [hnone]
    exact ⟨rfl, rfl, rfl⟩
  next => exact ⟨rfl, rfl, rfl⟩

end Wire

/-- The health of an Endpoint in the list, and what the other surfaces say of
its failures at that time. -/
structure EndpointHealthAgrees [Collation] (db : Database) (now : Instant)
    (w : WireEndpoint) : Prop where
  range : ∀ rate ∈ w.successRate24h, 0 ≤ rate ∧ rate ≤ 1
  idle : w.successRate24h = none ↔ ∀ d ∈ db.deliveries,
    d.endpointId = w.row.id → healthWindowStart now ≤ d.updatedAt →
      ¬ d.status.Terminal
  lastSuccess : w.lastSuccessAt.isSome ↔ ∃ rate ∈ w.successRate24h, 0 < rate
  rollup : w.Failing ↔
    ∃ row ∈ getFailureRollupForChannel db w.row.channelId now,
      row.endpointId = w.row.id
  share : ∀ row ∈ getFailureRollupForChannel db w.row.channelId now,
    row.endpointId = w.row.id →
      let succeeded :=
        countStatus .succeeded (Reading.deliveries ⟨db, now⟩ w.row.id)
      let terminal := succeeded + row.failed + row.deadLettered
      w.successRate24h = some (Js.toDouble (succeeded / terminal)) ∧
      (w.On → ∃ percent < 100, RoundsDown percent succeeded terminal ∧
        w.lamp = ⟨toString percent ++ "% ok (24h)", .cut, .lit, .failed⟩)
  failing : w.lamp.tone = .cut ∧ w.lamp.form = .lit ↔ w.On ∧ w.Failing
  live : w.lamp.tone = .live ↔ w.On ∧ w.successRate24h = some 1
  legend : w.lamp.label = "100% ok (24h)" ↔ w.lamp.tone = .live
  quiet : w.lamp.glyph = .none ↔ w.On ∧ w.successRate24h = none

theorem countTerminal_eq_zero_iff {rows : List DeliveryRow} :
    countTerminal rows = 0 ↔ ∀ d ∈ rows, ¬ d.status.Terminal := by
  rw [countTerminal, List.countP_eq_zero]
  refine forall₂_congr fun d _ => not_congr ?_
  rw [Bool.or_eq_true, Bool.or_eq_true, decide_eq_true_eq, decide_eq_true_eq,
    decide_eq_true_eq, or_assoc]
  rfl

/-- No percentage below a hundred reads like the legend of the live lamp. -/
theorem label_ne_of_lt {percent : ℕ} (h : percent < 100) :
    toString percent ++ "% ok (24h)" ≠ "100% ok (24h)" := by
  have hall : ∀ n < 100, toString n ++ "% ok (24h)" ≠ "100% ok (24h)" := by
    decide +kernel
  exact hall percent h

/-- An Endpoint is off, idle, failing or well, and its lamp says which. -/
theorem lamp_cases {rows : List DeliveryRow} {w : WireEndpoint}
    (hlimit : rows.length ≤ tableRowsLimit)
    (hrate : w.successRate24h = successRate24h rows) :
    (¬ w.On ∧ w.lamp.form = .hollow ∧ w.lamp.tone ≠ .live ∧
      w.lamp.glyph ≠ .none ∧ w.lamp.label ≠ "100% ok (24h)") ∨
    (w.On ∧ w.successRate24h = none ∧
      w.lamp = ⟨"No activity (24h)", .neutral, .hollow, .none⟩) ∨
    (w.On ∧ w.Failing ∧ ∃ percent < 100,
      RoundsDown percent (countStatus .succeeded rows) (countTerminal rows) ∧
        w.lamp = ⟨toString percent ++ "% ok (24h)", .cut, .lit, .failed⟩) ∨
    (w.On ∧ w.successRate24h = some 1 ∧
      w.lamp = ⟨"100% ok (24h)", .live, .lit, .ok⟩) := by
  by_cases hon : w.On
  · have hlamp : w.lamp = endpointHealthLamp true none w.successRate24h := by
      rw [WireEndpoint.lamp, hon.1, hon.2]
    refine Or.inr ?_
    cases hsome : w.successRate24h with
    | none => exact Or.inl ⟨hon, rfl, by rw [hlamp, hsome]; rfl⟩
    | some rate =>
        obtain ⟨hpos, hvalue⟩ :=
          successRate24h_eq_some hlimit (hrate.symm.trans hsome)
        have hterminal := countTerminal_le hlimit
        by_cases hlt : rate < 1
        · refine Or.inr (Or.inl ⟨hon, ⟨rate, hsome, hlt⟩, ?_⟩)
          have hcounts := hlt
          rw [hvalue, toDouble_share_lt_one_iff hpos countSucceeded_le
            hterminal] at hcounts
          obtain ⟨percent, hpercent, hrounds, hlabel⟩ :=
            formatSuccessRate24h_spec hcounts hterminal
          refine ⟨percent, hpercent, hrounds, ?_⟩
          rw [hlamp, hsome, ← hlabel, ← hvalue]
          exact if_pos hlt
        · have hone : rate = 1 := le_antisymm
            (successRate24h_mem hlimit (hrate.symm.trans hsome)).2
            (not_lt.mp hlt)
          have hlabel : formatSuccessRate24h 1 = "100% ok (24h)" := by
            decide +kernel
          refine Or.inr (Or.inr ⟨hon, by rw [hone], ?_⟩)
          rw [hlamp, hsome, ← hlabel]
          exact if_neg hlt
  · refine Or.inl ⟨hon, ?_⟩
    unfold WireEndpoint.lamp endpointHealthLamp
    cases hstamp : w.row.autoDisabledAt with
    | some stamp => simp
    | none =>
        cases henabled : w.row.enabled with
        | false => simp
        | true => exact absurd ⟨henabled, hstamp⟩ hon

/-- Tone, legend and glyph of the lamp follow the rate. -/
theorem lamp_spec {rows : List DeliveryRow} {w : WireEndpoint}
    (hlimit : rows.length ≤ tableRowsLimit)
    (hrate : w.successRate24h = successRate24h rows) :
    (w.lamp.tone = .cut ∧ w.lamp.form = .lit ↔ w.On ∧ w.Failing) ∧
    (w.lamp.tone = .live ↔ w.On ∧ w.successRate24h = some 1) ∧
    (w.lamp.label = "100% ok (24h)" ↔ w.lamp.tone = .live) ∧
    (w.lamp.glyph = .none ↔ w.On ∧ w.successRate24h = none) := by
  rcases lamp_cases hlimit hrate with ⟨hoff, hform, htone, hglyph, hlabel⟩ |
    ⟨hon, hnone, hlamp⟩ | ⟨hon, hlow, percent, hpercent, -, hlamp⟩ |
    ⟨hon, hone, hlamp⟩
  · simp [hoff, hform, htone, hglyph, hlabel]
  · simp [hlamp, hon, hnone, WireEndpoint.Failing]
  · obtain ⟨rate, hsome, hlt⟩ := id hlow
    have hsome : w.successRate24h = some rate := hsome
    have hlabel : percent.repr ++ "% ok (24h)" ≠ "100% ok (24h)" :=
      label_ne_of_lt hpercent
    simp [hlamp, hon, hlow, hsome, hlt.ne, hlabel]
  · simp [hlamp, hon, hone, WireEndpoint.Failing]

theorem endpointHealthAgrees [Collation] {db : Database} {now : Instant}
    (hlimit : db.deliveries.rows.length ≤ tableRowsLimit) {second : Reading}
    {items : List EndpointRow} (hitems : ∀ e ∈ items, e ∈ db.endpoints)
    {w : WireEndpoint} (hw : w ∈ hydrateEndpoints ⟨db, now⟩ second items) :
    EndpointHealthAgrees db now w := by
  obtain ⟨hitem, hrate, hlast, -⟩ := mem_hydrateEndpoints hw
  have he : w.row ∈ db.endpoints := hitems _ hitem
  have hlimit : (Reading.deliveries ⟨db, now⟩ w.row.id).length ≤
      tableRowsLimit := (List.length_filter_le _ _).trans hlimit
  have hrange : ∀ rate ∈ w.successRate24h, 0 ≤ rate ∧ rate ≤ 1 :=
    fun rate h => successRate24h_mem hlimit (hrate.symm.trans h)
  have hfailing : w.Failing ↔
      ∃ row ∈ getFailureRollupForChannel db w.row.channelId now,
        row.endpointId = w.row.id := by
    rw [WireEndpoint.Failing, hrate, failing_iff hlimit, exists_rollupRow_iff he]
  obtain ⟨hlit, hlive, hlegend, hquiet⟩ := lamp_spec hlimit hrate
  refine ⟨hrange, ?_, ?_, hfailing, ?_, hlit, hlive, hlegend, hquiet⟩
  · rw [hrate, successRate24h_eq_none_iff, countTerminal_eq_zero_iff]
    simp only [Reading.deliveries, List.mem_filter, Bool.and_eq_true,
      decide_eq_true_eq]
    constructor
    · exact fun h d hd hid hsince => h d ⟨hd, hid, hsince⟩
    · rintro h d ⟨hd, hid, hsince⟩
      exact h d hd hid hsince
  · rw [hlast, hrate]
    exact lastSuccessAt_isSome_iff hlimit
  · intro row hrow hid succeeded terminal
    obtain ⟨hfailed, hdead⟩ := counts_of_rollupRow he hrow hid
    obtain ⟨rate, hsome, hlt⟩ := hfailing.mpr ⟨row, hrow, hid⟩
    have hterminal : terminal =
        countTerminal (Reading.deliveries ⟨db, now⟩ w.row.id) := by
      rw [countTerminal_eq, ← hfailed, ← hdead, ← add_assoc]
    rw [hterminal]
    refine ⟨?_, fun hon => ?_⟩
    · rw [← (successRate24h_eq_some hlimit (hrate.symm.trans hsome)).2]
      exact hsome
    · rcases lamp_cases hlimit hrate with
        h | ⟨-, hnone, -⟩ | ⟨-, -, hlamp⟩ | ⟨-, hone, -⟩
      · exact absurd hon h.1
      · exact absurd (hnone.symm.trans hsome) nofun
      · exact hlamp
      · exact absurd (Option.some.inj (hone.symm.trans hsome)) hlt.ne'

/-- The badge of a Channel is lit when one of its Endpoints is failing. -/
theorem badge_pos_iff [Collation] {db : Database} (howned : db.DeliveriesOwned)
    (hlimit : db.deliveries.rows.length ≤ tableRowsLimit) {now : Instant}
    {channelIds : List Uuid} {channelId : Uuid}
    (hid : channelId ∈ channelIds) {second : Reading} :
    0 < recentFailedDeliveryCount
        ((getRecentFailureCountsByChannelIds db channelIds now).lookup
          channelId) ↔
      ∃ w ∈ hydrateEndpoints ⟨db, now⟩ second db.endpoints.rows,
        w.row.channelId = channelId ∧ w.Failing := by
  rw [recentFailedDeliveryCount_eq hid, List.length_pos_iff_exists_mem]
  constructor
  · rintro ⟨d, hd⟩
    rw [Table.mem_select, Bool.and_eq_true, decide_eq_true_eq] at hd
    obtain ⟨hd, hchannel, hfailed⟩ := hd
    obtain ⟨e, he, hendpoint⟩ := db.delivery_endpoint d hd
    obtain ⟨w, hw, rfl⟩ : ∃ w ∈ hydrateEndpoints ⟨db, now⟩ second
        db.endpoints.rows, w.row = e := ⟨_, List.mem_map_of_mem he, rfl⟩
    have hwc : w.row.channelId = channelId :=
      (howned d hd w.row he hendpoint).trans hchannel
    refine ⟨w, hw, hwc, ?_⟩
    refine (endpointHealthAgrees hlimit (fun _ h => h) hw).rollup.mpr ?_
    exact (exists_row_iff howned w.row.id).mpr
      ⟨d, hd, hendpoint.symm, hchannel.trans hwc.symm, hfailed⟩
  · rintro ⟨w, hw, hchannel, hfailing⟩
    obtain ⟨d, hd, -, hdc, hfailed⟩ := (exists_row_iff howned w.row.id).mp
      ((endpointHealthAgrees hlimit (fun _ h => h) hw).rollup.mp hfailing)
    refine ⟨d, Table.mem_select.mpr ⟨hd, ?_⟩⟩
    rw [hdc, hchannel, hfailed]
    simp

/-- In every state that the service reaches the list of Endpoints, the failures
by Endpoint and the badge of the Channel tell the same failures.  The doubles of
the rates are fine enough for as many Deliveries as the table can hold. -/
theorem endpointHealth_agrees [Collation] (dateParse : String → Option Instant)
    {w : World} (hw : w.db.endpoints.rows = []) {history : ServiceHistory}
    (hfresh : FreshEndpoints history)
    (hlimit : (serve dateParse w history).state.db.deliveries.rows.length ≤
      tableRowsLimit) (now : Instant) (second : Reading) :
    let db := (serve dateParse w history).state.db
    (∀ items : List EndpointRow, (∀ e ∈ items, e ∈ db.endpoints) →
      ∀ shown ∈ hydrateEndpoints ⟨db, now⟩ second items,
        EndpointHealthAgrees db now shown) ∧
    ∀ channelIds : List Uuid, ∀ channelId ∈ channelIds,
      (0 < recentFailedDeliveryCount
          ((getRecentFailureCountsByChannelIds db channelIds now).lookup
            channelId) ↔
        ∃ shown ∈ hydrateEndpoints ⟨db, now⟩ second db.endpoints.rows,
          shown.row.channelId = channelId ∧ shown.Failing) :=
  ⟨fun _ hitems _ => endpointHealthAgrees hlimit hitems,
    fun _ _ hid => badge_pos_iff (deliveriesOwned_serve hw hfresh) hlimit hid⟩

/-- Steps of one run at which no call fails and the remote answers `status`. -/
def repliedSteps (i n uuid status : ℕ) : ServiceHistory :=
  List.replicate n (.step i { uuid := uuid, reply := .response status none })

/-- Of three Deliveries to a new Endpoint two succeed and one fails. -/
def deliveredTwice : ServiceHistory :=
  let deps : ProcessDeliveryDeps := ⟨1000, none, none, none, some 60000⟩
  [.background (.createEndpoint { url := "https://a.example" } 1 0 0),
    .start (.fanOut 3 ⟨⟨7, 0, 0, "text/plain", [], .empty⟩, some 5⟩),
    .start (.fanOut 3 ⟨⟨8, 0, 0, "text/plain", [], .empty⟩, some 5⟩),
    .start (.fanOut 3 ⟨⟨9, 0, 0, "text/plain", [], .empty⟩, some 5⟩)] ++
  repliedSteps 0 5 17 0 ++ repliedSteps 1 5 18 0 ++ repliedSteps 2 5 19 0 ++
  [.start (.process ⟨deps, 17⟩), .start (.process ⟨deps, 18⟩),
    .start (.process ⟨deps, 19⟩)] ++
  repliedSteps 3 13 0 200 ++ repliedSteps 4 13 0 200 ++
  repliedSteps 5 13 0 400

theorem endpointHealth_agrees_deliveredTwice :
    letI := Collation.c
    let db := (serve (fun _ => none) channelWorld deliveredTwice).state.db
    (hydrateEndpoints ⟨db, 0⟩ ⟨db, 0⟩ db.endpoints.rows).map
        (fun shown => (shown.successRate24h, shown.lastSuccessAt, shown.lamp)) =
      [(some (Js.toDouble (2 / 3)), some 0,
        ⟨"66% ok (24h)", .cut, .lit, .failed⟩)] ∧
      ∀ shown ∈ hydrateEndpoints ⟨db, 0⟩ ⟨db, 0⟩ db.endpoints.rows,
        EndpointHealthAgrees db 0 shown :=
  let _ := Collation.c
  ⟨by decide +kernel, (endpointHealth_agrees (fun _ => none)
    (w := channelWorld) rfl (by decide : FreshEndpoints deliveredTwice)
    (by decide +kernel) 0 _).1 _ fun _ h => h⟩

/-! ## The 95th percentile -/

/-- Rounding a percentile of whole numbers passes over none of them. -/
theorem countP_round (values : List ℤ) (x : ℚ) :
    values.countP (Js.round x < ·) ≤
        (values.map ((↑) : ℤ → ℚ)).countP (x < ·) ∧
      values.countP (· < Js.round x) ≤
        (values.map ((↑) : ℤ → ℚ)).countP (· < x) := by
  have hlow : x - 1 / 2 < Js.round x := by
    have hlt := Int.lt_floor_add_one (x + 1 / 2)
    rw [Js.round]
    linarith
  have hhigh : (Js.round x : ℚ) ≤ x + 1 / 2 := Int.floor_le _
  rw [List.countP_map, List.countP_map]
  constructor
  · refine List.countP_mono_left fun v _ hv => ?_
    have hv : Js.round x + 1 ≤ v := Int.add_one_le_of_lt (of_decide_eq_true hv)
    have hv' : (Js.round x : ℚ) + 1 ≤ v := by exact_mod_cast hv
    exact decide_eq_true (show x < (v : ℚ) by linarith)
  · refine List.countP_mono_left fun v _ hv => ?_
    have hv : v + 1 ≤ Js.round x := Int.add_one_le_of_lt (of_decide_eq_true hv)
    have hv' : (v : ℚ) + 1 ≤ Js.round x := by exact_mod_cast hv
    exact decide_eq_true (show (v : ℚ) < x by linarith)

/-- The places between which the 95th percentile stands. -/
theorem percentilePlace_95 {count : ℕ} (hcount : 0 < count) :
    count - 1 - ⌊percentilePlace (95 / 100) count⌋₊ ≤ (count + 18) / 20 ∧
      ⌈percentilePlace (95 / 100) count⌉₊ ≤ 19 * count / 20 := by
  obtain ⟨k, rfl⟩ := Nat.exists_eq_add_one_of_ne_zero hcount.ne'
  have hplace : percentilePlace (95 / 100) (k + 1) = 19 * (k : ℚ) / 20 := by
    rw [percentilePlace, Nat.add_sub_cancel]
    ring
  have hfloor : 19 * k / 20 ≤ ⌊percentilePlace (95 / 100) (k + 1)⌋₊ := by
    rw [hplace]
    refine Nat.le_floor ?_
    have hle : 20 * (19 * k / 20) ≤ 19 * k := Nat.mul_div_le _ _
    have hle' : 20 * ((19 * k / 20 : ℕ) : ℚ) ≤ 19 * (k : ℚ) := by
      exact_mod_cast hle
    linarith
  have hceil : ⌈percentilePlace (95 / 100) (k + 1)⌉₊ ≤ 19 * (k + 1) / 20 := by
    rw [hplace, Nat.ceil_le]
    have hle : 19 * k ≤ 20 * (19 * (k + 1) / 20) := by omega
    have hle' : 19 * (k : ℚ) ≤ 20 * ((19 * (k + 1) / 20 : ℕ) : ℚ) := by
      exact_mod_cast hle
    linarith
  exact ⟨by omega, hceil⟩

/-- What the 95th percentile of some durations says of them. -/
structure IsP95 (durations : List ℤ) (p95 : ℤ) : Prop where
  slower : durations.countP (p95 < ·) ≤ (durations.length + 18) / 20
  faster : durations.countP (· < p95) ≤ 19 * durations.length / 20
  least : ∃ ms ∈ durations, ms ≤ p95
  greatest : ∃ ms ∈ durations, p95 ≤ ms

theorem isP95_p95Ms {rows : List (AttemptRow × DeliveryRow)} {p95 : ℤ}
    (h : p95Ms rows = some p95) :
    IsP95 (rows.map fun r => r.1.durationMs) p95 := by
  obtain ⟨x, hx, rfl⟩ := Option.map_eq_some_iff.mp h
  have hvalues : (rows.map fun r => (r.1.durationMs : ℚ)) =
      (rows.map fun r => r.1.durationMs).map ((↑) : ℤ → ℚ) := by
    rw [List.map_map]
    rfl
  rw [hvalues] at hx
  generalize (rows.map fun r => r.1.durationMs) = durations at hx ⊢
  have hpercentile := isPercentile_percentileCont (by norm_num) (by norm_num) hx
  have hcount : 0 < durations.length := by
    obtain ⟨y, hy, -⟩ := hpercentile.least
    obtain ⟨ms, hms, -⟩ := List.mem_map.mp hy
    exact List.length_pos_of_mem hms
  have habove := hpercentile.above
  have hbelow := hpercentile.below
  rw [List.length_map] at habove hbelow
  obtain ⟨hslow, hfast⟩ := percentilePlace_95 hcount
  obtain ⟨hgt, hlt⟩ := countP_round durations x
  refine ⟨hgt.trans (habove.trans hslow), hlt.trans (hbelow.trans hfast), ?_, ?_⟩
  · obtain ⟨y, hy, hle⟩ := hpercentile.least
    obtain ⟨ms, hms, rfl⟩ := List.mem_map.mp hy
    exact ⟨ms, hms, Int.le_floor.mpr (by linarith)⟩
  · obtain ⟨y, hy, hle⟩ := hpercentile.greatest
    obtain ⟨ms, hms, rfl⟩ := List.mem_map.mp hy
    exact ⟨ms, hms, Js.round_le hle⟩

/-- The list shows a 95th percentile of an Endpoint that had a Delivery and an
Attempt within the last day.  At most every twentieth of these Attempts took
longer, up to a rounding, whatever happens between the two queries. -/
theorem endpoint_p95 (first second : Reading) (items : List EndpointRow) :
    ∀ shown ∈ hydrateEndpoints first second items,
      let durations :=
        (second.attempts shown.row.id).map fun r => r.1.durationMs
      (shown.p95Ms.isSome ↔
        first.deliveries shown.row.id ≠ [] ∧ durations ≠ []) ∧
      ∀ p95 ∈ shown.p95Ms, IsP95 durations p95 := by
  intro shown hshown durations
  obtain ⟨-, -, -, hp95⟩ := mem_hydrateEndpoints hshown
  constructor
  · rw [hp95]
    by_cases hnone : first.deliveries shown.row.id = []
    · simp [hnone]
    · rw [if_neg hnone, p95Ms, Option.isSome_map,
        percentileCont_isSome_iff (by norm_num) (by norm_num)]
      simp [hnone, durations]
  · intro p95 h
    rw [hp95] at h
    split at h
    · cases h
    · exact isP95_p95Ms h

/-- Three Attempts at one Delivery, the last of which runs into its timeout. -/
def slowEndpoint : Database :=
  .ofTimeline 0 ⟨.deadLettered, [⟨some 500, 12, none, 0⟩, ⟨some 503, 40, none, 0⟩,
    ⟨none, 30000, some "timed out after 30000ms", 0⟩]⟩

theorem endpoint_p95_slowEndpoint :
    ∃ shown ∈ hydrateEndpoints ⟨slowEndpoint, 0⟩ ⟨slowEndpoint, 0⟩
        slowEndpoint.endpoints.rows,
      shown.p95Ms = some 27004 ∧ IsP95
        ((Reading.attempts ⟨slowEndpoint, 0⟩ shown.row.id).map fun r =>
          r.1.durationMs) 27004 := by
  have hmem : some 27004 ∈ (hydrateEndpoints ⟨slowEndpoint, 0⟩
      ⟨slowEndpoint, 0⟩ slowEndpoint.endpoints.rows).map
        WireEndpoint.p95Ms := by
    decide +kernel
  obtain ⟨shown, hshown, hp95⟩ := List.mem_map.mp hmem
  exact ⟨shown, hshown, hp95, (endpoint_p95 ⟨slowEndpoint, 0⟩
    ⟨slowEndpoint, 0⟩ _ shown hshown).2 27004 hp95⟩

end WebhookBroadcast
