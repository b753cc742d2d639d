import Mathlib.Data.List.Infix
import WebhookBroadcast.Lifecycle.History

/-!
# When a run resolves

A run that resolves makes its job complete, so it had better have finished the
Delivery.  Over histories without operator retries this module proves exactly
when every run does: when no claim is missed.  A claim is missed when its
second statement finds the row pending, because another run has released or
recorded it since the first statement found it in progress.
-/

namespace WebhookBroadcast

open Interaction Timeline

/-- The operator does not retry the Delivery. -/
def Unretried (d : Uuid) (history : History) : Prop :=
  ∀ updatedAt, .background (.retry d updatedAt) ∉ history

/-- The event answers the second statement of a claim with a pending row. -/
def MissesClaim (d : Uuid) (P : Pool Effects Thrown Unit Task World) :
    Event Task Choice Background → Prop
  | .step i x => ∃ run c k, P.runs[i]? = some run ∧
      run.program = .call c k ∧ MissedClaim d P.state c x
  | _ => False

/-- No claim of the Delivery is missed. -/
def ClaimsCleanly (dateParse : String → Option Instant) (d : Uuid) (w : World)
    (history : History) : Prop :=
  ∀ before e rest, history = before ++ e :: rest →
    ¬ MissesClaim d (after dateParse w before) e

/-- At some moment after the start of run `i` the Delivery was settled. -/
def FinishedSince (dateParse : String → Option Instant) (d : Uuid) (w : World)
    (history : History) (i : ℕ) : Prop :=
  ∃ before rest, history = before ++ rest ∧
    i < (after dateParse w before).runs.length ∧
    Settled ((reached dateParse w before).timeline? d)

/-- Whenever a run of the Delivery has resolved, the Delivery was settled at
some moment between its start and its end. -/
def ResolvesFinished (dateParse : String → Option Instant) (d : Uuid)
    (w : World) (history : History) : Prop :=
  ∀ before rest i run, history = before ++ rest →
    (after dateParse w before).runs[i]? = some run →
    run.task.deliveryId = d → run.program.result? = some (.ok ()) →
    FinishedSince dateParse d w before i

namespace Regime

/-- The regime without operator retries, with or without missed claims. -/
def unretried (misses : Prop) : Regime := ⟨Set.univ, False, misses⟩

theorem admissible_unretried {dateParse : String → Option Instant} {d : Uuid}
    {misses : Prop} {P : Pool Effects Thrown Unit Task World}
    {history : History} (hretries : Unretried d history)
    (hclaims : misses ∨ ∀ before e rest, history = before ++ e :: rest →
      ¬ MissesClaim d ((workers dateParse).exec P before) e) :
    (workers dateParse).AdmissibleRun ((unretried misses).discipline d)
      ((unretried misses).Startable d) ((unretried misses).Occurs d) P
      history := by
  intro before e rest heq
  cases e with
  | start task => exact fun _ => Set.mem_univ _
  | step i x =>
      intro run c k hi hprogram
      rcases hclaims with hmisses | hclean
      · exact Or.inl hmisses
      · exact Or.inr fun hmissed =>
          hclean before _ rest heq ⟨run, c, k, hi, hprogram, hmissed⟩
  | background b =>
      right
      rintro updatedAt rfl
      exact hretries updatedAt (by simp [heq])

end Regime

/-- Without operator retries a settled Delivery stays settled. -/
theorem settled_of_settled_before {dateParse : String → Option Instant}
    {d : Uuid} {w : World} (hw : w.db.Fresh d) {before rest : History}
    (hretries : Unretried d (before ++ rest))
    (h : Settled ((reached dateParse w before).timeline? d)) :
    Settled ((reached dateParse w (before ++ rest)).timeline? d) := by
  have hfirst : Unretried d before :=
    fun updatedAt hmem => hretries updatedAt (List.mem_append_left _ hmem)
  have hsecond : Unretried d rest :=
    fun updatedAt hmem => hretries updatedAt (List.mem_append_right _ hmem)
  let R := Regime.unretried True
  have hsound := R.sound_after d dateParse hw
    (Regime.admissible_unretried hfirst (Or.inl trivial))
  have hkeeps := (R.workers_uphold d dateParse).exec_preserves hsound
    (motive := fun w => Settled (w.db.timeline? d))
    (fun _ _ hrely hs => hs.evolves id hrely) h
    (Regime.admissible_unretried hsecond (Or.inl trivial))
  rw [reached, after_append]
  exact hkeeps

/-- A run that misses its claim resolves, and the Delivery has not been settled
since any moment before. -/
theorem unfinished_of_missesClaim {dateParse : String → Option Instant}
    {d : Uuid} {w : World} (hw : w.db.Fresh d) {before rest : History}
    {e : Event Task Choice Background}
    (hretries : Unretried d (before ++ e :: rest))
    (h : MissesClaim d (after dateParse w before) e) :
    ¬ ResolvesFinished dateParse d w (before ++ e :: rest) := by
  intro hfinished
  match e, h with
  | .step i x, ⟨run, _, k, hi, hprogram, rfl, hfault, hpending⟩ =>
    let P := after dateParse w before
    have hshape := shape_after dateParse w before run
      (List.mem_of_getElem? hi)
    rw [hprogram] at hshape
    obtain ⟨⟨hid, hresolves⟩, _⟩ := hshape
    have hanswer : perform x (.query (.selectDeliveryStatus d)) P.state =
        (.ok (some .pending), P.state) := by
      simp [perform, hfault, Query.run, P, hpending]
    have hafter : after dateParse w (before ++ [.step i x]) =
        ⟨P.state, P.runs.set i ⟨run.task, .done ()⟩⟩ := by
      rw [after_concat, System.apply_step_some _ x hi, hprogram]
      simp only [Program.advance]
      rw [show (workers dateParse).handler = perform from rfl, hanswer,
        hresolves]
    have hlt : i < P.runs.length := (List.getElem?_eq_some_iff.mp hi).1
    obtain ⟨first, second, heq, _, hsettled⟩ :=
      hfinished (before ++ [.step i x]) rest i ⟨run.task, .done ()⟩ (by simp)
        (by rw [hafter]; exact List.getElem?_set_self hlt) hid.symm rfl
    have hnow : Settled ((reached dateParse w
        (before ++ [.step i x])).timeline? d) := by
      rw [heq]
      refine settled_of_settled_before hw ?_ hsettled
      intro updatedAt hmem
      rw [← heq] at hmem
      apply hretries updatedAt
      have hbefore : .background (.retry d updatedAt) ∈ before := by
        simpa using hmem
      exact List.mem_append_left _ hbefore
    obtain ⟨row, hrow, hstatus⟩ := Option.map_eq_some_iff.mp hpending
    rw [reached, hafter, Database.timeline?_eq_some hrow, settled_some,
      DeliveryRow.timeline_status, hstatus] at hnow
    exact hnow DeliveryStatus.live_pending

theorem resolvesFinished_iff_claimsCleanly
    (dateParse : String → Option Instant) (d : Uuid) (w : World)
    (hw : w.db.Fresh d) (history : History) (hretries : Unretried d history) :
    ResolvesFinished dateParse d w history ↔
      ClaimsCleanly dateParse d w history := by
  constructor
  · rintro hfinished before e rest rfl hmissed
    exact unfinished_of_missesClaim hw hretries hmissed hfinished
  · rintro hclean before rest i run rfl hi hid hresult
    have hbefore : Unretried d before :=
      fun updatedAt hmem => hretries updatedAt (List.mem_append_left _ hmem)
    let R := Regime.unretried False
    have hsound := R.sound_after d dateParse hw
      (Regime.admissible_unretried hbefore (Or.inr fun first e second heq =>
        hclean first e (second ++ rest) (by simp [heq])))
    have hended := hsound.ended (List.mem_of_getElem? hi) hresult hid
    exact ⟨before, [], by simp, (List.getElem?_eq_some_iff.mp hi).1,
      hended id id⟩

/-- A first run claims the Delivery and is answered `500`; a second one is
admitted on the row in progress and reads it again after the first has put it
back to pending. -/
def missedClaimRuns : History :=
  let task : Task := ⟨{ defaultTimeoutMs := 1000 }, 0⟩
  .start task :: List.replicate 3 (.step 0 {}) ++
    .start task :: List.replicate 3 (.step 1 {}) ++
    List.replicate 6 (.step 0 { reply := .response 500 none }) ++
    [.step 1 {}]

/-- The second run resolves, but the row was live at every moment. -/
theorem missedClaimRuns_outcome :
    ((after (fun _ => none) (World.ofTimeline 0 ⟨.pending, []⟩)
        missedClaimRuns).runs[1]?.map fun run =>
          (run.task.deliveryId, run.program.result?.map Except.isOk)) =
      some (0, some true) ∧
    ∀ before ∈ missedClaimRuns.inits,
      selectDeliveryStatus (reached (fun _ => none)
        (World.ofTimeline 0 ⟨.pending, []⟩) before) 0 ∈
          [some .pending, some .inProgress] := by
  decide

theorem resolvesFinished_iff_claimsCleanly_missed :
    ResolvesFinished (fun _ => none) 0 (World.ofTimeline 0 ⟨.pending, []⟩)
        missedClaimRuns ↔
      ClaimsCleanly (fun _ => none) 0 (World.ofTimeline 0 ⟨.pending, []⟩)
        missedClaimRuns :=
  resolvesFinished_iff_claimsCleanly _ 0 _ (fresh_ofTimeline 0)
    missedClaimRuns (by simp [Unretried, missedClaimRuns])

theorem not_resolvesFinished_missed :
    ¬ ∀ (dateParse : String → Option Instant) (d : Uuid) (w : World),
      w.db.Fresh d → ∀ history, Unretried d history →
        ResolvesFinished dateParse d w history := by
  intro hall
  have hfinished := hall (fun _ => none) 0 (World.ofTimeline 0 ⟨.pending, []⟩)
    (fresh_ofTimeline 0) missedClaimRuns
    (by simp [Unretried, missedClaimRuns])
  obtain ⟨hresolved, hlive⟩ := missedClaimRuns_outcome
  obtain ⟨run, hi, hrun⟩ := Option.map_eq_some_iff.mp hresolved
  obtain ⟨hid, hok⟩ := Prod.mk.inj hrun
  have hresult : run.program.result? = some (.ok ()) := by
    cases hr : run.program.result? with
    | none => simp [hr] at hok
    | some r =>
        cases r with
        | ok _ => rfl
        | error e => simp [hr, Except.isOk, Except.toBool] at hok
  obtain ⟨before, rest, heq, _, hsettled⟩ :=
    hfinished missedClaimRuns [] 1 run (by simp) hi hid hresult
  have hstatus := hlive before
    (List.mem_inits _ _ |>.mpr ⟨rest, heq.symm⟩)
  simp only [List.mem_cons, List.not_mem_nil, or_false] at hstatus
  rcases hstatus with h | h
  · obtain ⟨row, hrow, hrowstatus⟩ := Option.map_eq_some_iff.mp h
    exact hsettled _ (Database.timeline?_eq_some hrow) (Or.inl hrowstatus)
  · obtain ⟨row, hrow, hrowstatus⟩ := Option.map_eq_some_iff.mp h
    exact hsettled _ (Database.timeline?_eq_some hrow) (Or.inr hrowstatus)

end WebhookBroadcast
