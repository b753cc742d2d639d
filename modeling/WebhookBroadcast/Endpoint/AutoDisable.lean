import WebhookBroadcast.Endpoint.Decision

/-!
# Auto-disable over whole histories

The streak that `maybeAutoDisableEndpoint` reads off the Delivery rows, against
the chronicle of everything that was ever recorded.  A sweep may take a success
off the board and leave an earlier failure (soundness), an operator retry takes
the failure that started the streak off it (completeness), and a re-enabled
Endpoint still has the failures for which it was disabled.
-/

namespace WebhookBroadcast

open Interaction Relational

/-- The time of an outcome or a PATCH. -/
def Note.time? : Note → Option Instant
  | outcome _ m => some m.at_
  | patched _ _ now => some now
  | disabled _ _ _ => none

/-- A history from a database without Deliveries: fan-outs draw new ids, calls
of `maybeAutoDisableEndpoint` are single steps, and the recorded times never
decrease. -/
structure Regular (dateParse : String → Option Instant) (w : World)
    (history : TrafficHistory) : Prop where
  blank : w.db.deliveries.rows = []
  fresh : (createdIn history).Nodup
  uninterrupted : (trafficSystem dateParse).Throughout Uninterrupted
    (Pool.idle w) history
  clock : ((chronicle dateParse (Pool.idle w) history).filterMap
    Note.time?).Pairwise (· ≤ ·)

/-- The outcomes of an Endpoint that a history has recorded. -/
def recorded (dateParse : String → Option Instant) (w : World)
    (history : TrafficHistory) (endpointId : Uuid) :
    List (Streak.Mark Instant) :=
  outcomesOf endpointId (chronicle dateParse (Pool.idle w) history)

theorem recorded_concat (dateParse : String → Option Instant) (w : World)
    (history : TrafficHistory) (e : TrafficEvent) (endpointId : Uuid) :
    recorded dateParse w (history ++ [e]) endpointId =
      recorded dateParse w history endpointId ++
        outcomesOf endpointId (notes (onward dateParse w history) e) := by
  rw [recorded, chronicle_concat, outcomesOf, List.filterMap_append]
  rfl

/-- Only the stamp writes down an auto-disable. -/
theorem eq_of_disabled_mem_callNotes {ms ms' : ℕ} {x : Choice} {w : World}
    {c : Call} {endpointId : Uuid} {t : Instant}
    (h : .disabled endpointId ms' t ∈ callNotes ms x w c) :
    c = .query (.stampAutoDisabled endpointId t) ∧ ms' = ms := by
  cases c with
  | query q =>
      cases q with
      | stampAutoDisabled id now =>
          simp only [callNotes] at h
          split at h
          · rw [List.mem_singleton] at h
            cases h
            exact ⟨rfl, rfl⟩
          · cases h
      | completeDelivery input =>
          simp only [callNotes, outcomeNotes] at h
          split at h
          · split at h
            · split at h
              · cases h
              · obtain ⟨m, -, hm⟩ := List.mem_map.mp h
                cases hm
            · cases h
          · cases h
      | _ => cases h
  | _ => cases h

/-- A run that is about to disable its Endpoint has found a streak. -/
theorem Aimed.streakStart_of_stamp {dateParse : String → Option Instant}
    {w : World} {run : Run Effects Thrown Unit Task}
    (h : Aimed dateParse w run) {endpointId : Uuid} {t : Instant}
    {k : Except DbError Bool → Action Unit}
    (hp : run.program = .call (.query (.stampAutoDisabled endpointId t)) k) :
    ∃ start, (w.db.board endpointId).StreakStart start ∧
      run.task.deps.endpointAutoDisableAfterMs ≤ t - start := by
  rcases h with hunread | ⟨id, -, hprelude | ⟨now, hdeciding⟩⟩
  · rw [hp] at hunread
    cases hunread
  · rw [hp] at hprelude
    exact absurd trivial hprelude.1
  · generalize hq : run.program = p at hdeciding
    rw [hp] at hq
    cases hdeciding with
    | begins =>
        rw [disableOnFailure_eq] at hq
        cases hq
    | enabled => cases hq
    | succeeded => cases hq
    | spans hstart hspan =>
        cases hq
        exact ⟨_, selectStreakStart_eq_some_iff.mp hstart, hspan⟩
    | ended hended =>
        rw [← hq] at hended
        cases hended

section Regular

variable {dateParse : String → Option Instant} {w : World}
  {history : TrafficHistory} {e : TrafficEvent}

theorem Regular.init (h : Regular dateParse w (history ++ [e])) :
    Regular dateParse w history where
  blank := h.blank
  fresh := by
    have hfresh := h.fresh
    rw [createdIn_concat] at hfresh
    exact (List.nodup_append.mp hfresh).1
  uninterrupted := (System.throughout_concat _).mp h.uninterrupted |>.1
  clock := by
    have hclock := h.clock
    rw [chronicle_concat, List.filterMap_append] at hclock
    exact (List.pairwise_append.mp hclock).1

theorem Regular.of_append {before after : TrafficHistory}
    (h : Regular dateParse w (before ++ after)) :
    Regular dateParse w before := by
  induction after using List.reverseRecOn with
  | nil => rwa [List.append_nil] at h
  | append_singleton after e ih =>
      rw [← List.append_assoc] at h
      exact ih h.init

theorem Regular.uninterrupted_last
    (h : Regular dateParse w (history ++ [e])) :
    Uninterrupted (onward dateParse w history) e :=
  ((System.throughout_concat _).mp h.uninterrupted).2

theorem Regular.fresh_last (h : Regular dateParse w (history ++ [e])) :
    ∀ d ∈ createdBy e, d ∉ createdIn history := by
  have hfresh := h.fresh
  rw [createdIn_concat] at hfresh
  exact fun d hd hmem => (List.nodup_append.mp hfresh).2.2 d hmem d hd rfl

/-- What an event writes down is no earlier than anything before. -/
theorem Regular.clock_last (h : Regular dateParse w (history ++ [e]))
    {old new : Note} (hold : old ∈ chronicle dateParse (Pool.idle w) history)
    (hnew : new ∈ notes (onward dateParse w history) e) {s t : Instant}
    (hs : old.time? = some s) (ht : new.time? = some t) : s ≤ t := by
  have hclock := h.clock
  rw [chronicle_concat, List.filterMap_append] at hclock
  exact (List.pairwise_append.mp hclock).2.2 s
    (List.mem_filterMap.mpr ⟨old, hold, hs⟩) t
    (List.mem_filterMap.mpr ⟨new, hnew, ht⟩)

theorem Regular.outcomes_last (h : Regular dateParse w (history ++ [e]))
    (endpointId : Uuid) :
    ∀ m ∈ outcomesOf endpointId (notes (onward dateParse w history) e),
      ∀ m' ∈ recorded dateParse w history endpointId, m'.at_ ≤ m.at_ :=
  fun _ hm _ hm' => h.clock_last (mem_outcomesOf.mp hm')
    (mem_outcomesOf.mp hm) rfl rfl

theorem Regular.orderly (h : Regular dateParse w history) :
    Orderly dateParse (createdIn history) (onward dateParse w history) :=
  orderly_onward h.blank history h.fresh

theorem Regular.aimed (h : Regular dateParse w history) :
    ∀ run ∈ (onward dateParse w history).runs,
      Aimed dateParse (onward dateParse w history).state run := by
  induction history using List.reverseRecOn with
  | nil => simp [onward, Pool.idle]
  | append_singleton history e ih =>
      rw [onward_concat]
      exact aimed_apply h.init.orderly (ih h.init) h.fresh_last
        h.uninterrupted_last

/-- Boards and chronicle keep a relation that every turn keeps. -/
theorem Regular.board_induction
    {R : Streak.Board Uuid Instant → List (Streak.Mark Instant) → Prop}
    {φ : TrafficPool → TrafficEvent → Prop} {endpointId : Uuid}
    (hblank : R (fun _ => none) [])
    (hturn : ∀ {P : TrafficPool} {e : TrafficEvent}
      {log new : List (Streak.Mark Instant)}
      {B' : Streak.Board Uuid Instant},
      φ P e → R (P.state.db.board endpointId) log →
      Streak.Turn (fun d => erases P.state.db e d)
        (P.state.db.board endpointId) B' new →
      (∀ m ∈ new, ∀ m' ∈ log, m'.at_ ≤ m.at_) → R B' (log ++ new))
    (h : Regular dateParse w history)
    (hφ : (trafficSystem dateParse).Throughout φ (Pool.idle w) history) :
    R ((onward dateParse w history).state.db.board endpointId)
      (recorded dateParse w history endpointId) := by
  induction history using List.reverseRecOn with
  | nil =>
      have hnone : (onward dateParse w []).state.db.board endpointId =
          fun _ => none := by
        funext d
        apply Database.board_of_none
        rw [Database.delivery?, Table.find?_eq_none_iff]
        intro row hrow
        have hempty : row ∈ w.db.deliveries.rows := hrow
        rw [h.blank] at hempty
        cases hempty
      rw [hnone]
      exact hblank
  | append_singleton history e ih =>
      obtain ⟨hbefore, hlast⟩ := (System.throughout_concat _).mp hφ
      rw [recorded_concat, onward_concat]
      exact hturn hlast (ih h.init hbefore)
        (h.init.orderly.turn e endpointId) (h.outcomes_last endpointId)

/-- An auto-disable is based on a streak that is on the board. -/
theorem Regular.streakStart_of_disabled (h : Regular dateParse w history)
    {endpointId : Uuid} {ms : ℕ} {t : Instant}
    (hnote : .disabled endpointId ms t ∈ notes (onward dateParse w history) e) :
    ∃ start, ((onward dateParse w history).state.db.board
      endpointId).StreakStart start ∧ ms ≤ t - start := by
  cases e with
  | start task => cases hnote
  | background b =>
      cases b with
      | patch channelId id body now =>
          simp only [notes] at hnote
          split at hnote
          · rw [List.mem_singleton] at hnote
            cases hnote
          · cases hnote
      | _ => cases hnote
  | step i x =>
      cases hi : (onward dateParse w history).runs[i]? with
      | none =>
          rw [notes, hi] at hnote
          cases hnote
      | some run =>
          have haimed := h.aimed run (List.mem_of_getElem? hi)
          cases hp : run.program with
          | done a =>
              simp [notes, hi, hp, Program.next?] at hnote
          | fail e =>
              simp [notes, hi, hp, Program.next?] at hnote
          | call c k =>
              have hcall : .disabled endpointId ms t ∈ callNotes
                  run.task.deps.endpointAutoDisableAfterMs x
                  (onward dateParse w history).state c := by
                simpa [notes, hi, hp, Program.next?] using hnote
              obtain ⟨rfl, rfl⟩ := eq_of_disabled_mem_callNotes hcall
              exact haimed.streakStart_of_stamp hp

end Regular

/-! ## Soundness -/

/-- A sweep with this cutoff deletes the Delivery. -/
def Database.Swept (db : Database) (cutoff : Instant) (row : DeliveryRow) :
    Prop :=
  ∃ b ∈ db.broadcasts.rows, b.id = row.broadcastId ∧ b.receivedAt < cutoff

instance (db : Database) (cutoff : Instant) (row : DeliveryRow) :
    Decidable (db.Swept cutoff row) :=
  inferInstanceAs (Decidable (∃ b ∈ _, _ ∧ _))

/-- Whenever the sweep deletes a succeeded Delivery and keeps one to the same
Endpoint that had failed before, it keeps a success that is no earlier. -/
def Database.SparesSuccess (db : Database) (cutoff : Instant) : Prop :=
  ∀ x ∈ db.deliveries.rows, x.status = .succeeded → db.Swept cutoff x →
    ∀ f ∈ db.deliveries.rows, f.endpointId = x.endpointId →
      f.status.Fails → ¬ db.Swept cutoff f → f.updatedAt < x.updatedAt →
        ∃ y ∈ db.deliveries.rows, y.endpointId = x.endpointId ∧
          y.status = .succeeded ∧ ¬ db.Swept cutoff y ∧
            x.updatedAt ≤ y.updatedAt

instance (db : Database) (cutoff : Instant) :
    Decidable (db.SparesSuccess cutoff) :=
  inferInstanceAs (Decidable (∀ x ∈ _, _ → _ → ∀ f ∈ _, _ → _ → _ → _ →
    ∃ y ∈ _, _ ∧ _ ∧ _ ∧ _))

/-- Every sweep spares the successes that later failures have to be read
against. -/
def SweepsSafely (P : TrafficPool) : TrafficEvent → Prop
  | .background (.sweep cutoff) => P.state.db.SparesSuccess cutoff
  | _ => True

instance (P : TrafficPool) (e : TrafficEvent) : Decidable (SweepsSafely P e) :=
  match e with
  | .background (.sweep cutoff) =>
      inferInstanceAs (Decidable (P.state.db.SparesSuccess cutoff))
  | .background (.fanOut _ _) => isTrue trivial
  | .background (.retry _ _) => isTrue trivial
  | .background (.patch _ _ _ _) => isTrue trivial
  | .start _ => isTrue trivial
  | .step _ _ => isTrue trivial

/-- The log has a failure at least `ms` before `t` and no success between. -/
def StreakRecorded (log : List (Streak.Mark Instant)) (ms : ℕ)
    (t : Instant) : Prop :=
  ∃ s, ⟨false, s⟩ ∈ log ∧ ms ≤ t - s ∧
    ∀ u, ⟨true, u⟩ ∈ log → ¬ (s < u ∧ u ≤ t)

/-- Every auto-disable of the history is for a streak of the chronicle. -/
def DisablesSoundly (dateParse : String → Option Instant) (w : World)
    (history : TrafficHistory) : Prop :=
  ∀ before e after, history = before ++ e :: after →
    ∀ endpointId ms t,
      .disabled endpointId ms t ∈ notes (onward dateParse w before) e →
        StreakRecorded (recorded dateParse w before endpointId) ms t

section Soundness

variable {dateParse : String → Option Instant} {w : World}

theorem mem_board {db : Database} {endpointId d : Uuid}
    {m : Streak.Mark Instant} (h : db.board endpointId d = some m) :
    ∃ row ∈ db.deliveries, row.id = d ∧ db.delivery? d = some row ∧
      row.mark? endpointId = some m := by
  obtain ⟨row, hrow, hmark⟩ := Option.bind_eq_some_iff.mp h
  exact ⟨row, Database.mem_of_delivery? hrow, Database.id_of_delivery? hrow,
    hrow, hmark⟩

theorem erases_sweep_iff {db : Database} {cutoff : Instant} {d : Uuid}
    {row : DeliveryRow} (hrow : db.delivery? d = some row) :
    erases db (.background (.sweep cutoff)) d = true ↔
      db.Swept cutoff row := by
  simp [erases, hrow, Database.Swept]

/-- Only sweeps take successes off a board. -/
theorem keepsSuccess_of_sweepsSafely {P : TrafficPool} {e : TrafficEvent}
    (h : SweepsSafely P e) (endpointId : Uuid) :
    (P.state.db.board endpointId).KeepsSuccess
      fun d => erases P.state.db e d := by
  intro i u hi hiu j s hj hjs hsu
  obtain ⟨x, hx, -, hxfind, hxmark⟩ := mem_board hiu
  obtain ⟨hxid, hxstatus, rfl⟩ := DeliveryRow.mark?_eq_success_iff.mp hxmark
  obtain ⟨f, hf, -, hffind, hfmark⟩ := mem_board hjs
  obtain ⟨hfid, hffails, rfl⟩ := DeliveryRow.mark?_eq_failure_iff.mp hfmark
  cases e with
  | background b =>
      cases b with
      | sweep cutoff =>
          obtain ⟨y, hy, hyid, hystatus, hykept, hle⟩ := h x hx hxstatus
            ((erases_sweep_iff hxfind).mp hi) f hf (hfid.trans hxid.symm)
            hffails (mt (erases_sweep_iff hffind).mpr hj) hsu
          have hyfind : P.state.db.delivery? y.id = some y :=
            P.state.db.deliveries.find?_eq_some_iff.mpr ⟨hy, rfl⟩
          refine ⟨y.id, y.updatedAt, mt (erases_sweep_iff hyfind).mp hykept,
            ?_, hle⟩
          · rw [Database.board_of_some hyfind,
              DeliveryRow.mark?_eq_success_iff]
            exact ⟨hyid.trans hxid, hystatus, rfl⟩
      | retry deliveryId updatedAt =>
          simp [erases, hxfind, hxstatus] at hi
      | _ => cases hi
  | _ => cases hi

/-- As long as sweeps spare the successes that matter, an Endpoint is
auto-disabled only for a streak that was really recorded. -/
theorem disablesSoundly_of_sweepsSafely {history : TrafficHistory}
    (h : Regular dateParse w history)
    (hsweeps : (trafficSystem dateParse).Throughout SweepsSafely
      (Pool.idle w) history) :
    DisablesSoundly dateParse w history := by
  rintro before e after rfl endpointId ms t hnote
  have hbefore := h.of_append
  have hsound : Streak.Sound
      ((onward dateParse w before).state.db.board endpointId)
      (recorded dateParse w before endpointId) :=
    hbefore.board_induction .blank
      (fun hφ hR hturn hclock => hR.turn hturn hclock
        (keepsSuccess_of_sweepsSafely hφ endpointId))
      ((System.throughout_append _).mp hsweeps).1
  obtain ⟨start, hstart, hspan⟩ := hbefore.streakStart_of_disabled hnote
  obtain ⟨hfailure, hlast⟩ := hsound.unbroken hstart.1
  exact ⟨start, hfailure, hspan, fun u hu hlate =>
    absurd (hlast u hu) (not_le.mpr hlate.1)⟩

end Soundness

/-! A sweep that deletes a success and keeps the failure before it -/

/-- The Endpoint rejects a Broadcast and accepts an older one, which is then
swept; the next rejection comes a second after the first. -/
def sweptSuccess : TrafficHistory :=
  [received 10 0, received 11 100] ++ attempted 0 11 404 200 ++
    attempted 1 10 200 300 ++ [.background (.sweep 50), received 12 1200] ++
    attempted 2 12 404 1300

set_option maxRecDepth 4000 in
theorem regular_sweptSuccess :
    Regular (fun _ => none) trafficWorld sweptSuccess where
  blank := rfl
  fresh := by decide
  uninterrupted := by decide
  clock := by decide

/-- The Endpoint is disabled for a streak of a second that it does not have. -/
theorem not_disablesSoundly_sweptSuccess :
    Regular (fun _ => none) trafficWorld sweptSuccess ∧
      ¬ DisablesSoundly (fun _ => none) trafficWorld sweptSuccess := by
  refine ⟨regular_sweptSuccess, fun h => ?_⟩
  have hsplit : sweptSuccess = sweptSuccess.dropLast ++
      .step 2 { time := 1300, reply := .response 404 none } :: [] := rfl
  have hrecorded : recorded (fun _ => none) trafficWorld
      sweptSuccess.dropLast 1 =
        [⟨false, 200⟩, ⟨true, 300⟩, ⟨false, 1300⟩] := by decide
  obtain ⟨s, hs, hspan, hbroken⟩ :=
    h _ _ _ hsplit 1 1000 1300 (by decide)
  rw [hrecorded] at hs hbroken
  -- the first failure is followed by a success, the other one is too recent
  simp only [List.mem_cons, Streak.Mark.mk.injEq, List.not_mem_nil] at hs
  rcases hs with ⟨-, rfl⟩ | ⟨hsuccess, -⟩ | ⟨-, rfl⟩ | hs
  · exact hbroken 300 (by decide) (by decide)
  · cases hsuccess
  · exact absurd hspan (by decide)
  · exact hs.elim

/-- A sweep of a success that no failure precedes. -/
def sweptHarmlessly : TrafficHistory :=
  received 10 0 :: attempted 0 10 200 300 ++
    received 11 400 :: attempted 1 11 404 500 ++
    [.background (.sweep 50), received 12 1400] ++ attempted 2 12 404 1500

set_option maxRecDepth 4000 in
theorem disablesSoundly_sweptHarmlessly :
    .disabled 1 1000 1500 ∈ chronicle (fun _ => none) (Pool.idle trafficWorld)
      sweptHarmlessly ∧
    DisablesSoundly (fun _ => none) trafficWorld sweptHarmlessly :=
  ⟨by decide, disablesSoundly_of_sweepsSafely
    { blank := rfl
      fresh := by decide
      uninterrupted := by decide
      clock := by decide } (by decide)⟩

end WebhookBroadcast
