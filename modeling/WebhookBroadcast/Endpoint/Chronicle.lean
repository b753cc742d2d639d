import WebhookBroadcast.Endpoint.Traffic

/-!
# The chronicle of a history

What a history writes down for good: every terminal outcome with its Endpoint
and time, every PATCH and every auto-disable.  The board of an Endpoint follows
the chronicle: an outcome is recorded on both, and all that traffic does to the
board otherwise is to erase from it, by an operator retry or by a sweep.
-/

namespace WebhookBroadcast

open Interaction Timeline Relational

/-! ## Notes -/

inductive Note where
  | outcome (endpointId : Uuid) (mark : Streak.Mark Instant)
  | patched (endpointId : Uuid) (body : EndpointUpdate) (now : Instant)
  | disabled (endpointId : Uuid) (autoDisableAfterMs : ℕ) (now : Instant)
deriving DecidableEq

/-- The outcome that a carried out `completeDelivery` records. -/
def outcomeNotes (db : Database) (input : CompleteDeliveryInput) : List Note :=
  if Recordable db input then
    match db.delivery? input.deliveryId with
    | none => []
    | some row =>
        ((input.complete row).mark? row.endpointId).toList.map
          (.outcome row.endpointId)
  else []

/-- What a call of a run writes down. -/
def callNotes (autoDisableAfterMs : ℕ) (x : Choice) (w : World) :
    Call → List Note
  | .query (.completeDelivery input) =>
      if x.carriesOut then outcomeNotes w.db input else []
  | .query (.stampAutoDisabled endpointId now) =>
      if x.carriesOut && (stampAutoDisabled w.db endpointId now).1 then
        [.disabled endpointId autoDisableAfterMs now]
      else []
  | _ => []

/-- What an event writes down. -/
def notes (P : TrafficPool) : TrafficEvent → List Note
  | .start _ => []
  | .step i x =>
      match P.runs[i]? with
      | none => []
      | some run =>
          (run.program.next?.map (callNotes
            run.task.deps.endpointAutoDisableAfterMs x P.state)).getD []
  | .background (.patch channelId endpointId body now) =>
      match (updateEndpoint P.state.db channelId endpointId
        (body.toPatch now)).1 with
      | .ok (some _) => [.patched endpointId body now]
      | _ => []
  | .background _ => []

/-- The chronicle of a history that starts in a pool. -/
def chronicle (dateParse : String → Option Instant) (P : TrafficPool) :
    TrafficHistory → List Note
  | [] => []
  | e :: rest =>
      notes P e ++ chronicle dateParse ((trafficSystem dateParse).apply P e) rest

/-- The outcomes of one Endpoint. -/
def outcomesOf (endpointId : Uuid) (notes : List Note) :
    List (Streak.Mark Instant) :=
  notes.filterMap fun
    | .outcome id m => if id = endpointId then some m else none
    | _ => none

theorem chronicle_append (dateParse : String → Option Instant)
    (P : TrafficPool) (first second : TrafficHistory) :
    chronicle dateParse P (first ++ second) =
      chronicle dateParse P first ++
        chronicle dateParse ((trafficSystem dateParse).exec P first)
          second := by
  induction first generalizing P with
  | nil => rfl
  | cons e rest ih =>
      rw [List.cons_append, chronicle, chronicle, ih, System.exec_cons,
        List.append_assoc]

theorem chronicle_concat (dateParse : String → Option Instant) (w : World)
    (history : TrafficHistory) (e : TrafficEvent) :
    chronicle dateParse (Pool.idle w) (history ++ [e]) =
      chronicle dateParse (Pool.idle w) history ++
        notes (onward dateParse w history) e := by
  rw [chronicle_append, chronicle, chronicle, List.append_nil]
  rfl

theorem mem_outcomesOf {endpointId : Uuid} {notes : List Note}
    {m : Streak.Mark Instant} :
    m ∈ outcomesOf endpointId notes ↔ .outcome endpointId m ∈ notes := by
  rw [outcomesOf, List.mem_filterMap]
  constructor
  · rintro ⟨note, hnote, hm⟩
    cases note with
    | outcome id m' =>
        obtain ⟨hid, hmark⟩ := Option.ite_none_right_eq_some.mp hm
        rw [← hid, ← Option.some.inj hmark]
        exact hnote
    | patched id body now => cases hm
    | disabled id ms now => cases hm
  · exact fun h => ⟨_, h, by simp⟩

/-! ## The board follows -/

section Board

variable {db : Database} {endpointId : Uuid}

theorem board_congr {db' : Database}
    (h : ∀ d, db'.delivery? d = db.delivery? d) :
    db'.board endpointId = db.board endpointId := by
  funext d
  rw [Database.board, Database.board, h]

/-- A move to a live status erases the Delivery it moves. -/
theorem board_moveStatus {old new : DeliveryStatus} (hnew : new.Live)
    (d : Uuid) (updatedAt : Instant) :
    (moveStatus old new db d updatedAt).2.board endpointId =
      (db.board endpointId).erase fun d' =>
        d' = d ∧ (db.delivery? d').any (fun row => row.status = old) := by
  funext d'
  by_cases hd : d' = d
  · subst hd
    rw [Database.board, delivery?_moveStatus_self, Streak.Board.erase,
      Database.board]
    cases hrow : db.delivery? d' with
    | none => simp
    | some row =>
        by_cases hold : row.status = old
        · have hmoved : (row.moved new updatedAt).mark? endpointId = none :=
            DeliveryRow.mark?_of_live hnew
          simpa [hold] using hmoved
        · simp [hold]
  · rw [Database.board, delivery?_moveStatus_of_ne hd]
    simp [Streak.Board.erase, hd, Database.board]

/-- A move between live statuses leaves the board alone. -/
theorem board_moveStatus_of_live {old new : DeliveryStatus} (hold : old.Live)
    (hnew : new.Live) (d : Uuid) (updatedAt : Instant) :
    (moveStatus old new db d updatedAt).2.board endpointId =
      db.board endpointId := by
  rw [board_moveStatus hnew]
  funext d'
  by_cases hd : d' = d ∧
      (db.delivery? d').any (fun row => row.status = old)
  · rw [Streak.Board.erase, if_pos hd]
    obtain ⟨row, hrow, hstatus⟩ := (Option.any_eq_true _ _).mp hd.2
    rw [Database.board_of_some hrow, DeliveryRow.mark?_of_live]
    rw [of_decide_eq_true hstatus]
    exact hold
  · rw [Streak.Board.erase, if_neg hd]

theorem board_completeDelivery {input : CompleteDeliveryInput}
    (hrec : Recordable db input) {row : DeliveryRow}
    (hrow : db.delivery? input.deliveryId = some row) :
    (completeDelivery db input).2.board endpointId =
      Function.update (db.board endpointId) input.deliveryId
        ((input.complete row).mark? endpointId) := by
  funext d
  by_cases hd : d = input.deliveryId
  · subst hd
    rw [Function.update_self, Database.board,
      delivery?_completeDelivery_self hrec, hrow]
    rfl
  · rw [Function.update_of_ne hd, Database.board, Database.board,
      (completeDelivery_of_ne hd).1]

/-- The Deliveries that an event takes off every board. -/
def erases (db : Database) : TrafficEvent → Uuid → Bool
  | .background (.retry deliveryId _), d =>
      d = deliveryId &&
        (db.delivery? d).any fun row => row.status = .deadLettered
  | .background (.sweep cutoff), d =>
      (db.delivery? d).any fun row =>
        db.broadcasts.rows.any fun b =>
          b.id = row.broadcastId && b.receivedAt < cutoff
  | _, _ => false

theorem bind_filter_not {α β : Type} (o : Option α) (q : α → Bool)
    (f : α → Option β) :
    (o.filter fun a => !q a).bind f =
      if o.any q = true then none else o.bind f := by
  cases o with
  | none => rfl
  | some a =>
      rw [Option.filter_some, Option.any_some]
      cases q a <;> rfl

theorem board_sweep (cutoff : Instant) :
    (deleteBroadcastsReceivedBefore db cutoff).board endpointId =
      (db.board endpointId).erase
        fun d => erases db (.background (.sweep cutoff)) d := by
  funext d
  have hfind : (deleteBroadcastsReceivedBefore db cutoff).delivery? d =
      (db.delivery? d).filter fun row => !decide (row.broadcastId ∈
        (db.broadcasts.select fun b => b.receivedAt < cutoff).map
          BroadcastRow.id) :=
    Table.find?_delete _ _ _
  have hswept (row : DeliveryRow) : decide (row.broadcastId ∈
      (db.broadcasts.select fun b => b.receivedAt < cutoff).map
        BroadcastRow.id) =
      db.broadcasts.rows.any fun b =>
        b.id = row.broadcastId && b.receivedAt < cutoff := by
    rw [Bool.eq_iff_iff]
    simp only [List.mem_map, Table.mem_select, List.any_eq_true,
      Bool.and_eq_true, decide_eq_true_eq, Table.mem_def]
    exact exists_congr fun b => by tauto
  rw [Database.board, hfind]
  simp only [hswept]
  exact bind_filter_not _ _ _

/-- New Deliveries are not on the board. -/
theorem board_fanOut (broadcast : BroadcastRow)
    (targets : List (Uuid × Uuid)) :
    ((fanOutTransaction broadcast targets).commit db).board endpointId =
      db.board endpointId := by
  by_cases hcheck : (fanOutTransaction broadcast targets).check db = .ok ()
  · have hgrows := Transaction.grows_commit hcheck
    funext d
    rcases hgrows.delivery?_cases d with hd | ⟨hnone, row, hrow, -, hd⟩
    · rw [Database.board, hd, Database.board]
    · obtain ⟨target, -, rfl⟩ := List.mem_map.mp hrow
      rw [Database.board_of_none hnone, Database.board_of_some hd]
      exact DeliveryRow.mark?_of_live DeliveryStatus.live_pending
  · rw [Transaction.commit_of_check_ne hcheck]

end Board

/-- A recorded outcome is that of a live Delivery. -/
theorem InOrder.live_of_recordable {dateParse : String → Option Instant}
    {created : List Uuid} {w : World} {run : Run Effects Thrown Unit Task}
    (h : InOrder dateParse created w run)
    (hcons : ∀ d, w.db.Consistent d) {input : CompleteDeliveryInput}
    {k : Except DbError Unit → Action Unit}
    (hp : run.program = .call (.query (.completeDelivery input)) k)
    (hrec : Recordable w.db input) :
    ∃ row, w.db.delivery? input.deliveryId = some row ∧ row.status.Live := by
  obtain ⟨row, hrow⟩ := Option.isSome_iff_exists.mp hrec.1
  refine ⟨row, hrow, ?_⟩
  by_contra hlive
  -- the outcome would be one more of a timeline that cannot change
  have hchange := (h.step hcons {} input.deliveryId).2
  rw [hp, Program.advance, perform_query_of_none rfl,
    Database.timeline?_eq_some hrow] at hchange
  have hsame := Change.eq_of_not_live hlive hchange
  have hafter := timeline?_completeDelivery_self hrec hrow
  have heq := Option.some.inj (hafter.symm.trans hsame)
  have hlength := congrArg (fun t => t.outcomes.length) heq
  simp [DeliveryRow.timeline] at hlength

section Turns

variable {dateParse : String → Option Instant} {created : List Uuid}

theorem turn_same {B B' : Streak.Board Uuid Instant}
    {new : List (Streak.Mark Instant)} {p : Uuid → Prop} [DecidablePred p]
    (hB : B' = B) (hnew : new = []) (hp : ∀ d, ¬ p d) :
    Streak.Turn p B B' new := by
  rw [hB, hnew]
  exact .stay hp B

/-- Completing a live Delivery records its outcome, if it is one. -/
theorem turn_complete {db : Database} {endpointId : Uuid}
    (input : CompleteDeliveryInput) {row : DeliveryRow}
    (hrow : db.delivery? input.deliveryId = some row)
    (hlive : row.status.Live) :
    Streak.Turn (fun _ => False) (db.board endpointId)
      (Function.update (db.board endpointId) input.deliveryId
        ((input.complete row).mark? endpointId))
      (outcomesOf endpointId (((input.complete row).mark?
        row.endpointId).toList.map (.outcome row.endpointId))) := by
  have hblank : db.board endpointId input.deliveryId = none :=
    (Database.board_of_some hrow).trans (DeliveryRow.mark?_of_live hlive)
  have hunmarked : Function.update (db.board endpointId) input.deliveryId
      none = db.board endpointId := by
    rw [← hblank, Function.update_eq_self]
  by_cases hid : row.endpointId = endpointId
  · rw [hid]
    cases hmark : (input.complete row).mark? endpointId with
    | none => exact turn_same hunmarked rfl fun _ => id
    | some m =>
        have hnew : outcomesOf endpointId
            ((some m).toList.map (.outcome endpointId)) = [m] := by
          simp [outcomesOf]
        rw [hnew]
        exact .record input.deliveryId m hblank
  · have hmark : (input.complete row).mark? endpointId = none := if_neg hid
    rw [hmark]
    refine turn_same hunmarked ?_ fun _ => id
    rw [List.eq_nil_iff_forall_not_mem]
    intro m hm
    rw [mem_outcomesOf, List.mem_map] at hm
    obtain ⟨m', -, heq⟩ := hm
    exact hid (Note.outcome.inj heq).1

/-- A call of a run records what it writes down and erases nothing. -/
theorem InOrder.turn {w : World} {run : Run Effects Thrown Unit Task}
    (h : InOrder dateParse created w run)
    (hcons : ∀ d, w.db.Consistent d) {c : Call} {k : c.Answer → Action Unit}
    (hp : run.program = .call c k) (ms : ℕ) (x : Choice)
    (endpointId : Uuid) :
    Streak.Turn (fun _ => False) (w.db.board endpointId)
      ((perform x c w).2.db.board endpointId)
      (outcomesOf endpointId (callNotes ms x w c)) := by
  have hsame {c : Call} (hboard : (perform x c w).2.db.board endpointId =
      w.db.board endpointId)
      (hnotes : outcomesOf endpointId (callNotes ms x w c) = []) :
      Streak.Turn (fun _ => False) (w.db.board endpointId)
        ((perform x c w).2.db.board endpointId)
        (outcomesOf endpointId (callNotes ms x w c)) :=
    turn_same hboard hnotes fun _ => id
  have hshape := h.shape
  rw [hp] at hshape
  cases c with
  | query q =>
      cases hx : x.carriesOut with
      | false =>
          refine hsame (board_congr fun d => ?_) ?_
          · rw [perform_query_state, hx]
            rfl
          · cases q <;> simp [callNotes, hx, outcomesOf]
      | true =>
          have hstate : (perform x (.query q) w).2.db = (q.run w.db).2 := by
            rw [perform_query_state, hx, if_pos rfl]
          cases q with
          | completeDelivery input =>
              simp only [callNotes, hx, if_true, outcomeNotes]
              by_cases hrec : Recordable w.db input
              · obtain ⟨row, hrow, hlive⟩ :=
                  h.live_of_recordable hcons hp hrec
                rw [if_pos hrec, hrow, hstate]
                exact (board_completeDelivery hrec hrow).symm ▸
                  turn_complete input hrow hlive
              · rw [if_neg hrec]
                refine turn_same ?_ rfl fun _ => id
                rw [hstate]
                exact congrArg (Database.board · endpointId)
                  (completeDelivery_of_not_recordable hrec).2
          | claimPendingDelivery d updatedAt =>
              refine hsame ?_ rfl
              rw [hstate]
              exact board_moveStatus_of_live (by simp) (by simp) d updatedAt
          | resetInProgressDeliveryToPending d updatedAt =>
              refine hsame ?_ rfl
              rw [hstate]
              exact board_moveStatus_of_live (by simp) (by simp) d updatedAt
          | retryDeadLetteredDelivery d updatedAt =>
              rcases hshape.1 with hc | hc <;> cases hc
          | stampAutoDisabled id now =>
              refine hsame (board_congr fun d => ?_) ?_
              · rw [hstate]
                rfl
              · simp only [callNotes]
                split <;> rfl
          | _ =>
              refine hsame (board_congr fun d => ?_) rfl
              rw [hstate]
              rfl
  | queue q => exact absurd rfl (not_queue_of_shape hshape.1 q)
  | _ => exact hsame rfl rfl

/-- Every event of an orderly pool is a turn of every board. -/
theorem Orderly.turn {P : TrafficPool} (h : Orderly dateParse created P)
    (e : TrafficEvent) (endpointId : Uuid) :
    Streak.Turn (fun d => erases P.state.db e d)
      (P.state.db.board endpointId)
      (((trafficSystem dateParse).apply P e).state.db.board endpointId)
      (outcomesOf endpointId (notes P e)) := by
  cases e with
  | start task => exact turn_same rfl rfl fun _ => Bool.false_ne_true
  | step i x =>
      cases hi : P.runs[i]? with
      | none =>
          rw [System.apply_step_none _ x hi]
          refine turn_same rfl ?_ fun _ => Bool.false_ne_true
          simp [notes, hi, outcomesOf]
      | some run =>
          rw [System.apply_step_some _ x hi]
          cases hp : run.program with
          | done a =>
              refine turn_same rfl ?_ fun _ => Bool.false_ne_true
              simp [notes, hi, hp, Program.next?, outcomesOf]
          | fail e =>
              refine turn_same rfl ?_ fun _ => Bool.false_ne_true
              simp [notes, hi, hp, Program.next?, outcomesOf]
          | call c k =>
              have hturn := (h.runs run (List.mem_of_getElem? hi)).turn
                h.consistent hp run.task.deps.endpointAutoDisableAfterMs x
                endpointId
              have hnotes : notes P (.step i x) = callNotes
                  run.task.deps.endpointAutoDisableAfterMs x P.state c := by
                simp [notes, hi, hp, Program.next?]
              rw [hnotes]
              exact hturn.congr fun _ => iff_of_false id Bool.false_ne_true
  | background b =>
      cases b with
      | fanOut broadcast targets =>
          exact turn_same (board_fanOut broadcast targets) rfl
            fun _ => Bool.false_ne_true
      | retry deliveryId updatedAt =>
          change Streak.Turn _ _ ((moveStatus _ _ _ _ _).2.board _) []
          rw [board_moveStatus DeliveryStatus.live_pending]
          exact Streak.Turn.erase.congr fun d => by simp [erases]
      | sweep cutoff =>
          change Streak.Turn _ _ ((deleteBroadcastsReceivedBefore _ _).board _)
            []
          rw [board_sweep]
          exact .erase
      | patch channelId id body now =>
          refine turn_same (board_congr fun d => ?_) ?_
            fun _ => Bool.false_ne_true
          · exact congrArg (Table.find? · d) (tables_updateEndpoint
              P.state.db channelId id (body.toPatch now)).2.1
          · simp only [notes]
            split <;> rfl

end Turns

end WebhookBroadcast
