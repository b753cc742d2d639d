import Mathlib.Data.List.Sort
import WebhookBroadcast.Lifecycle.Foreign
import WebhookBroadcast.Lifecycle.Times

/-!
# Reading a Delivery while it changes

`GET /deliveries/:deliveryId` and `GET /deliveries/:deliveryId/attempts` of
`apps/api/src/admin/deliveries.ts`.  The dashboard polls both, the second of
them reads the database twice, and workers, operators and retention go on in
between.  The Attempts that are listed always continue what was shown before.
-/

namespace WebhookBroadcast

open Interaction Timeline

/-! ## The routes -/

/-- The Attempts of a Delivery, oldest first. -/
def listAttemptsForDelivery (db : Database) (deliveryId : Uuid) :
    List AttemptRow :=
  (db.attemptLog deliveryId).mergeSort fun a b => a.n ≤ b.n

/-- `GET /deliveries/:deliveryId`. -/
def getDelivery (db : Database) (deliveryId : Uuid) : Response :=
  match getDeliveryDetailById db deliveryId with
  | none => deliveryNotFound
  | some row => ⟨200, .delivery row⟩

/-- The responses of the Attempts route. -/
inductive AttemptsResponse where
  | notFound
  | items (rows : List AttemptRow)
deriving DecidableEq

/-- `GET /deliveries/:deliveryId/attempts`: the Delivery is found in one
database and its Attempts are listed from a later one. -/
def getAttempts (found listed : Database) (deliveryId : Uuid) :
    AttemptsResponse :=
  match getDeliveryDetailById found deliveryId with
  | none => .notFound
  | some _ => .items (listAttemptsForDelivery listed deliveryId)

/-! ## Listings -/

/-- The list continues what the detail of the Delivery has shown, and what the
list of its Attempts was then. -/
structure Continues (detail : DeliveryDetailRow)
    (shown items : List AttemptRow) : Prop where
  numbers : items.map AttemptRow.n = List.range' 1 items.length
  extended : shown <+: items
  counted : detail.attemptCount ≤ items.length
  last : 0 < detail.attemptCount → ∃ a,
    items[detail.attemptCount - 1]? = some a ∧ a.n = detail.attemptCount ∧
      detail.lastStatusCode = a.statusCode ∧
      detail.lastDurationMs = some a.durationMs ∧ detail.lastError = a.error
  unattempted : detail.attemptCount = 0 → detail.lastStatusCode = none ∧
    detail.lastDurationMs = none ∧ detail.lastError = none
  final : detail.status = .succeeded ∨ detail.status = .failed →
    items = shown

section Listing

variable {db db' : Database} {d : Uuid}

/-- The log is in order as it stands. -/
theorem listAttemptsForDelivery_eq {row : DeliveryRow}
    (h : row.Summarises (db.attemptLog d)) :
    listAttemptsForDelivery db d = db.attemptLog d := by
  have hsorted : ((db.attemptLog d).map AttemptRow.n).Pairwise (· ≤ ·) := by
    rw [h.numbers]
    exact List.pairwise_le_range'
  unfold listAttemptsForDelivery
  refine List.mergeSort_of_pairwise ?_
  simpa using List.pairwise_map.mp hsorted

theorem listAttemptsForDelivery_of_none (h : db.delivery? d = none) :
    listAttemptsForDelivery db d = [] := by
  rw [listAttemptsForDelivery, Database.attemptLog_eq_nil h, List.mergeSort_nil]

/-- Logs that are numbered from one are told apart by their outcomes. -/
theorem attemptLog_prefix {row row' : DeliveryRow}
    (h : row.Summarises (db.attemptLog d))
    (h' : row'.Summarises (db'.attemptLog d))
    (hpre : (db.attemptLog d).map AttemptRow.outcome <+:
      (db'.attemptLog d).map AttemptRow.outcome) :
    db.attemptLog d <+: db'.attemptLog d := by
  have hle : (db.attemptLog d).length ≤ (db'.attemptLog d).length := by
    simpa using hpre.length_le
  rw [List.prefix_iff_getElem]
  refine ⟨hle, fun i hi => ?_⟩
  have hi' : i < (db'.attemptLog d).length := hi.trans_le hle
  have hn : ((db.attemptLog d)[i]).n = ((db'.attemptLog d)[i]).n := by
    have hfirst : ((db.attemptLog d).map AttemptRow.n)[i]? = some (1 + i) := by
      rw [h.numbers, ← h.length_eq]
      simp [hi]
    have hsecond :
        ((db'.attemptLog d).map AttemptRow.n)[i]? = some (1 + i) := by
      rw [h'.numbers, ← h'.length_eq]
      simp [hi']
    rw [List.getElem?_map, List.getElem?_eq_getElem hi] at hfirst
    rw [List.getElem?_map, List.getElem?_eq_getElem hi'] at hsecond
    exact (Option.some.inj hfirst).trans (Option.some.inj hsecond).symm
  have hid : ((db.attemptLog d)[i]).deliveryId =
      ((db'.attemptLog d)[i]).deliveryId :=
    (Database.mem_attemptLog.mp (List.getElem_mem hi)).2.trans
      (Database.mem_attemptLog.mp (List.getElem_mem hi')).2.symm
  have houtcome : ((db.attemptLog d)[i]).outcome =
      ((db'.attemptLog d)[i]).outcome := by
    have hget := hpre.getElem (i := i) (by simpa using hi)
    simpa using hget
  generalize (db.attemptLog d)[i] = a at hn hid houtcome
  generalize (db'.attemptLog d)[i] = b at hn hid houtcome
  cases a
  cases b
  simp only [AttemptRow.outcome, Outcome.mk.injEq] at houtcome hn hid
  simp [hn, hid, houtcome]

/-- What the detail shows of a Delivery. -/
theorem exists_of_getDelivery {detail : DeliveryDetailRow}
    (h : getDelivery db d = ⟨200, .delivery detail⟩) :
    ∃ row, db.delivery? d = some row ∧ detail.status = row.status ∧
      detail.attemptCount = row.attemptCount ∧
      detail.lastStatusCode = row.lastStatusCode ∧
      detail.lastDurationMs = row.lastDurationMs ∧
      detail.lastError = row.lastError := by
  unfold getDelivery at h
  split at h
  · cases h
  next found hfound =>
    cases h
    obtain ⟨row, hrow, hmap⟩ := Option.bind_eq_some_iff.mp hfound
    obtain ⟨endpoint, -, rfl⟩ := Option.map_eq_some_iff.mp hmap
    exact ⟨row, hrow, rfl, rfl, rfl, rfl, rfl⟩

/-- A list that extends the log of a shown Delivery continues what was
shown. -/
theorem continues_of_prefix {row row' : DeliveryRow}
    {detail : DeliveryDetailRow} (hrow : db.delivery? d = some row)
    (h : row.Summarises (db.attemptLog d))
    (h' : row'.Summarises (db'.attemptLog d))
    (hdetail : getDelivery db d = ⟨200, .delivery detail⟩)
    (hpre : db.attemptLog d <+: db'.attemptLog d)
    (hfinal : row.status = .succeeded ∨ row.status = .failed →
      db'.attemptLog d = db.attemptLog d) :
    Continues detail (listAttemptsForDelivery db d)
      (listAttemptsForDelivery db' d) := by
  rw [listAttemptsForDelivery_eq h, listAttemptsForDelivery_eq h']
  obtain ⟨row₀, hrow₀, hstatus, hcount, hcode, hduration, herror⟩ :=
    exists_of_getDelivery hdetail
  obtain rfl : row = row₀ := Option.some.inj (hrow.symm.trans hrow₀)
  have hlength := h.length_eq
  refine
    { numbers := ?_
      extended := hpre
      counted := ?_
      last := fun hpos => ?_
      unattempted := fun hzero => ?_
      final := fun hstatus' => hfinal (hstatus ▸ hstatus') }
  · rw [h'.numbers, h'.length_eq]
  · rw [hcount, ← hlength]
    exact hpre.length_le
  · rw [hcount] at hpos ⊢
    obtain ⟨a, ha, hn, hcode', hduration', herror'⟩ := h.exists_last hpos
    obtain ⟨i, hi, hget⟩ := List.mem_iff_getElem.mp ha
    -- the Attempt numbered by the count is the last one of the log
    have hnumber : ((db.attemptLog d).map AttemptRow.n)[i]? = some (1 + i) := by
      rw [h.numbers, ← hlength]
      simp [hi]
    have hindex : i = row.attemptCount - 1 := by
      rw [List.getElem?_map, List.getElem?_eq_getElem hi, hget] at hnumber
      have := Option.some.inj hnumber
      omega
    refine ⟨a, ?_, hn, hcode.trans hcode', hduration.trans hduration',
      herror.trans herror'⟩
    rw [← hindex, List.getElem?_eq_getElem (hi.trans_le hpre.length_le),
      ← hpre.getElem hi, hget]
  · obtain ⟨hcode', hduration', herror'⟩ := h.last_eq_none (hcount ▸ hzero)
    exact ⟨hcode.trans hcode', hduration.trans hduration',
      herror.trans herror'⟩

end Listing

/-! ## Reads under interference -/

/-- A Delivery that succeeded or failed is not worked on again. -/
theorem Timeline.Evolves.eq_of_final {B : Set ℕ} {reopens : Prop}
    {t u : Timeline} (ht : t.status = .succeeded ∨ t.status = .failed)
    (h : Evolves B reopens (some t) (some u)) : u = t := by
  have hnotLive : ¬ t.status.Live := by
    rcases ht with ht | ht <;> rw [ht] <;> rintro (h | h) <;> cases h
  cases h with
  | change h => exact Option.some.inj (h.eq_of_not_live hnotLive)
  | reopen hreopens h =>
      cases h with
      | reopen h =>
          rw [h] at ht
          rcases ht with ht | ht <;> cases ht

/-- What interference leaves of a timeline. -/
theorem timeline_interferes {d : Uuid} {D E : Deployment}
    (h : (apiDiscipline d).Interferes D E) {u : Timeline}
    (hu : E.world.db.timeline? d = some u) :
    ∃ t, D.world.db.timeline? d = some t ∧ t.outcomes <+: u.outcomes ∧
      (t.status = .succeeded ∨ t.status = .failed → u = t) := by
  induction h generalizing u with
  | refl => exact ⟨u, hu, List.prefix_refl _, fun _ => rfl⟩
  | @tail E E' _ hstep ih =>
      have hevolves : Evolves Set.univ True (E.world.db.timeline? d)
          (E'.world.db.timeline? d) := hstep
      rw [hu] at hevolves
      obtain ⟨v, hv, hvu⟩ := hevolves.outcomes_prefix
      obtain ⟨t, ht, htv, hfinal⟩ := ih hv
      refine ⟨t, ht, htv.trans hvu, fun hstatus => ?_⟩
      have hsame := hfinal hstatus
      subst hsame
      rw [hv] at hevolves
      exact hevolves.eq_of_final hstatus

/-- A later list of the same Delivery continues an earlier view of it. -/
theorem continues_of_interferes {d : Uuid} {D E : Deployment}
    (hD : D.world.db.Consistent d) (hE : E.world.db.Consistent d)
    (h : (apiDiscipline d).Interferes D E) {detail : DeliveryDetailRow}
    (hdetail : getDelivery D.world.db d = ⟨200, .delivery detail⟩)
    {row' : DeliveryRow} (hrow' : E.world.db.delivery? d = some row') :
    Continues detail (listAttemptsForDelivery D.world.db d)
      (listAttemptsForDelivery E.world.db d) := by
  obtain ⟨t, ht, hpre, hfinal⟩ :=
    timeline_interferes h (Database.timeline?_eq_some hrow')
  obtain ⟨row, hrow, rfl⟩ := Database.exists_of_timeline? ht
  have hlogs := attemptLog_prefix (hD row hrow) (hE row' hrow') hpre
  refine continues_of_prefix hrow (hD row hrow) (hE row' hrow') hdetail hlogs ?_
  intro hstatus
  have houtcomes := congrArg Timeline.outcomes (hfinal hstatus)
  have hlength := congrArg List.length houtcomes
  simp only [DeliveryRow.timeline_outcomes, List.length_map] at hlength
  exact (hlogs.eq_of_length hlength.symm).symm

section System

variable {hashToken : String → String} {config : OperatorAuthConfig}
  {dateParse : String → Option Instant} {d : Uuid}

/-- Along any events a later list continues an earlier view. -/
theorem continues_exec {P : ApiPool}
    (hP : System.Sound (apiDiscipline d) (fun _ _ _ => True) P)
    {shown later : ApiHistory}
    (hsole : SoleCommit hashToken config dateParse d P (shown ++ later))
    {detail : DeliveryDetailRow}
    (hdetail : getDelivery ((api hashToken config dateParse).exec P
      shown).state.world.db d = ⟨200, .delivery detail⟩)
    {row' : DeliveryRow}
    (hrow' : ((api hashToken config dateParse).exec P
      (shown ++ later)).state.world.db.delivery? d = some row') :
    Continues detail
      (listAttemptsForDelivery ((api hashToken config dateParse).exec P
        shown).state.world.db d)
      (listAttemptsForDelivery ((api hashToken config dateParse).exec P
        (shown ++ later)).state.world.db d) := by
  have hupholds := api_upholds hashToken config dateParse d
  obtain ⟨hfirst, hsecond⟩ := hsole.append
  have hshown := hupholds.exec hP hfirst.admissible
  have hlater := hupholds.exec hP hsole.admissible
  have hinterferes := evolvesTo_exec hshown hsecond
  rw [← System.exec_append] at hinterferes
  exact continues_of_interferes hshown.invariant hlater.invariant hinterferes
    hdetail hrow'

end System

/-- The Attempts that the dashboard lists continue the detail that it showed,
whatever happens between the reads; or the Delivery has gone, before the list
was asked for or, so that an empty list is answered, within the request. -/
theorem timeline_covers_detail (hashToken : String → String)
    (config : OperatorAuthConfig) (dateParse : String → Option Instant)
    {D : Deployment} {before shown found listed : ApiHistory} {d : Uuid}
    (hunprocessed : Unprocessed d before)
    (hfresh : ((api hashToken config dateParse).exec (Pool.idle D)
      before).state.world.db.Fresh d)
    (hsole : SoleCommit hashToken config dateParse d
      ((api hashToken config dateParse).exec (Pool.idle D) before)
      (shown ++ (found ++ listed))) :
    let dbAfter (events : ApiHistory) : Database :=
      ((api hashToken config dateParse).exec
        ((api hashToken config dateParse).exec (Pool.idle D) before)
          events).state.world.db
    ∀ detail, getDelivery (dbAfter shown) d = ⟨200, .delivery detail⟩ →
      let reply := getAttempts (dbAfter (shown ++ found))
        (dbAfter (shown ++ (found ++ listed))) d
      reply = .notFound ∧ (dbAfter (shown ++ found)).delivery? d = none ∨
        reply = .items [] ∧
          (dbAfter (shown ++ (found ++ listed))).delivery? d = none ∨
        ∃ items, reply = .items items ∧ Continues detail
          (listAttemptsForDelivery (dbAfter shown) d) items := by
  intro dbAfter detail hdetail reply
  have hsound := sound_of_fresh hashToken config dateParse hunprocessed hfresh
  have hreply : reply = getAttempts (dbAfter (shown ++ found))
    (dbAfter (shown ++ (found ++ listed))) d := rfl
  unfold getAttempts at hreply
  split at hreply
  next hnone =>
    refine Or.inl ⟨hreply, ?_⟩
    by_contra hrow
    obtain ⟨row, hrow⟩ := Option.ne_none_iff_exists'.mp hrow
    obtain ⟨detail', hdetail', -⟩ := getDeliveryDetailById_of_row hrow
    rw [hnone] at hdetail'
    cases hdetail'
  next =>
    cases hrow : (dbAfter (shown ++ (found ++ listed))).delivery? d with
    | none =>
        rw [listAttemptsForDelivery_of_none hrow] at hreply
        exact Or.inr (Or.inl ⟨hreply, rfl⟩)
    | some row =>
        exact Or.inr (Or.inr ⟨_, hreply,
          continues_exec hsound hsole hdetail hrow⟩)

/-! ## A Delivery that is retried by the queue -/

/-- Worker runs commit no Delivery. -/
theorem soleCommit_of_workers {hashToken : String → String}
    {config : OperatorAuthConfig} {dateParse : String → Option Instant}
    {D : Deployment} {events : ApiHistory}
    (hworkers : ∀ t, .start t ∈ events → ∃ task, t = .process task)
    (d : Uuid) :
    SoleCommit hashToken config dateParse d (Pool.idle D) events := by
  rintro before e after heq tx ⟨i, x, t, rfl, run, hi, -, hc⟩
  have hstart := (api hashToken config dateParse).start_mem_of_run rfl hi
  obtain ⟨task, htask⟩ := hworkers run.task
    (heq ▸ List.mem_append_left _ hstart)
  refine absurd hc (not_commit_of_worker hi ?_ ?_ tx)
  · intro credentials path action hadmin
    cases htask.symm.trans hadmin
  · intro routeConfig slug request hingest
    cases htask.symm.trans hingest

/-- The deployment with a Delivery that has just been committed. -/
def pendingDeployment : Deployment :=
  { Deployment.empty with world := World.ofTimeline 0 ⟨.pending, []⟩ }

/-- A run of the Delivery whose Endpoint answers with this status. -/
def onceAttempted (i status : ℕ) : ApiHistory :=
  .start (.process ⟨{ defaultTimeoutMs := 1000 }, 0⟩) ::
    List.replicate 12 (.step i { reply := .response status none })

theorem timeline_covers_detail_attempted : ∃ detail items,
    detail.attemptCount = 1 ∧ detail.status = .pending ∧
      getAttempts
        ((api id keyConfig fun _ => none).exec (Pool.idle pendingDeployment)
          (onceAttempted 0 500 ++ onceAttempted 1 200)).state.world.db
        ((api id keyConfig fun _ => none).exec (Pool.idle pendingDeployment)
          (onceAttempted 0 500 ++ onceAttempted 1 200)).state.world.db 0 =
          .items items ∧
      Continues detail
        (listAttemptsForDelivery ((api id keyConfig fun _ => none).exec
          (Pool.idle pendingDeployment) (onceAttempted 0 500)).state.world.db 0)
        items := by
  have hshown : (getDeliveryDetailById ((api id keyConfig fun _ => none).exec
      (Pool.idle pendingDeployment) (onceAttempted 0 500)).state.world.db 0).map
        (fun detail => (detail.attemptCount, detail.status)) =
          some (1, .pending) := by decide +kernel
  obtain ⟨detail, hfound, hprogress⟩ := Option.map_eq_some_iff.mp hshown
  obtain ⟨hcount, hstatus⟩ := Prod.mk.inj hprogress
  have hdetail : getDelivery ((api id keyConfig fun _ => none).exec
      (Pool.idle pendingDeployment) (onceAttempted 0 500)).state.world.db 0 =
        ⟨200, .delivery detail⟩ := by
    rw [getDelivery, hfound]
  have hkept : ((api id keyConfig fun _ => none).exec
      (Pool.idle pendingDeployment)
        (onceAttempted 0 500 ++ onceAttempted 1 200)).state.world.db.delivery? 0 ≠
          none := by decide +kernel
  have hunprocessed : Unprocessed 0 [] :=
    fun _ hstart => absurd hstart List.not_mem_nil
  have hsole : SoleCommit id keyConfig (fun _ => none) 0
      (Pool.idle pendingDeployment)
      (onceAttempted 0 500 ++ (onceAttempted 1 200 ++ [])) :=
    soleCommit_of_workers (by simp [onceAttempted]) 0
  have hcovers := timeline_covers_detail id keyConfig (fun _ => none)
    (D := pendingDeployment) hunprocessed (fresh_ofTimeline 0) hsole detail
    hdetail
  simp only [List.append_nil] at hcovers
  rcases hcovers with ⟨-, hnone⟩ | ⟨-, hnone⟩ | ⟨items, hitems, hcontinues⟩
  · exact absurd hnone hkept
  · exact absurd hnone hkept
  · exact ⟨detail, items, hcount, hstatus, hitems, hcontinues⟩

end WebhookBroadcast
