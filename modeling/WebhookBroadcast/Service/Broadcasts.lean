import WebhookBroadcast.Service.Changes

/-!
# Stored Broadcasts

A Broadcast is stored by the commit of a run and never changed.  All Deliveries
of it are committed together with it, so that an Endpoint gets one of them at
most for as long as the Broadcast is there.
-/

namespace WebhookBroadcast

open Interaction Relational

/-! ## One event -/

/-- How an event can change the Broadcast with this id. -/
inductive BroadcastChange (P : ServicePool) (event : ServiceEvent) (id : Uuid) :
    Option BroadcastRow → Option BroadcastRow → Prop
  | kept (row : Option BroadcastRow) : BroadcastChange P event id row row
  | deleted (row : BroadcastRow) : BroadcastChange P event id (some row) none
  | committed {i : ℕ} {x : Choice} {task : ServiceTask} {tx : Transaction}
      (hevent : event = .step i x)
      (hmakes : P.Makes i task (.inr (.query (.commit tx))))
      (hid : tx.broadcast.id = id) :
      BroadcastChange P event id none (some tx.broadcast)

theorem broadcastChange (dateParse : String → Option Instant) (P : ServicePool)
    (event : ServiceEvent) (id : Uuid) :
    BroadcastChange P event id (P.state.db.broadcasts.find? id)
      (((service dateParse).apply P event).state.db.broadcasts.find? id) := by
  rcases additions dateParse P event with
    hnothing | ⟨i, x, run, tx, hevent, hi, hc, hgrows⟩
  · cases hafter : ((service dateParse).apply P
        event).state.db.broadcasts.find? id with
    | none =>
        cases P.state.db.broadcasts.find? id with
        | none => exact .kept none
        | some row => exact .deleted row
    | some row =>
        have hrow := hnothing.broadcasts row (Table.mem_of_find? hafter)
        have hbefore : P.state.db.broadcasts.find? id = some row :=
          (Table.find?_eq_some_iff _).mpr ⟨hrow, Table.key_of_find? hafter⟩
        rw [hbefore]
        exact .kept _
  · by_cases hid : tx.broadcast.id = id
    · obtain ⟨hnone, hsome⟩ := hgrows.broadcast?_new
      rw [hid] at hnone hsome
      rw [hnone, hsome]
      exact .committed hevent ⟨run, hi, rfl, hc⟩ hid
    · rw [hgrows.broadcast?_of_ne hid]
      exact .kept _

/-! ## Histories -/

/-- The Broadcast that is stored under this id after the history. -/
def stored? (dateParse : String → Option Instant) (w : World)
    (history : ServiceHistory) (id : Uuid) : Option BroadcastRow :=
  (serve dateParse w history).state.db.broadcasts.find? id

/-- Whatever happens later, there is always a Broadcast under this id. -/
def StaysStored (dateParse : String → Option Instant) (w : World)
    (history later : ServiceHistory) (id : Uuid) : Prop :=
  ∀ first rest, later = first ++ rest →
    stored? dateParse w (history ++ first) id ≠ none

section Serve

variable {dateParse : String → Option Instant} {w : World}
  {history later : ServiceHistory} {event : ServiceEvent} {id : Uuid}

theorem StaysStored.of_concat
    (h : StaysStored dateParse w history (later ++ [event]) id) :
    StaysStored dateParse w history later id :=
  fun first rest heq => h first (rest ++ [event]) (by simp [heq])

theorem stored?_concat :
    BroadcastChange (serve dateParse w history) event id
      (stored? dateParse w history id)
      (stored? dateParse w (history ++ [event]) id) := by
  rw [stored?, stored?, serve_concat]
  exact broadcastChange dateParse _ event id

/-- A Broadcast that is there before and after an event is the same. -/
theorem stored?_of_kept {b : BroadcastRow}
    (hb : stored? dateParse w history id = some b)
    (hafter : stored? dateParse w (history ++ [event]) id ≠ none) :
    stored? dateParse w (history ++ [event]) id = some b := by
  have hchange : BroadcastChange (serve dateParse w history) event id
      (stored? dateParse w history id)
      (stored? dateParse w (history ++ [event]) id) := stored?_concat
  rw [hb] at hchange
  generalize stored? dateParse w (history ++ [event]) id = after at *
  cases hchange with
  | kept _ => rfl
  | deleted _ => exact absurd rfl hafter

/-- As long as a Broadcast is stored it is never changed. -/
theorem stored?_unchanged {b : BroadcastRow}
    (hb : stored? dateParse w history id = some b)
    (hstays : StaysStored dateParse w history later id) :
    stored? dateParse w (history ++ later) id = some b := by
  induction later using List.reverseRecOn with
  | nil => rwa [List.append_nil]
  | append_singleton later event ih =>
      have hlast := hstays (later ++ [event]) [] (List.append_nil _).symm
      rw [← List.append_assoc] at hlast ⊢
      exact stored?_of_kept (ih hstays.of_concat) hlast

/-! ## Deliveries -/

theorem amid_program (task : ServiceTask) :
    (task.program dateParse).Amid performAccept (CommitsOnly Transaction.Own)
      fun _ => True := by
  cases task with
  | ingest hashToken config slug request =>
      exact ((amid_ingest hashToken config slug request).consequence
        (fun _ hc => CommitsOnly.imp hc fun _ htx => htx.2) fun _ => id).seq
        fun _ => trivial
  | replay maxAttempts channelId broadcastId =>
      exact (amid_replayBroadcast _ _ _).seq fun _ => trivial
  | fanOut maxAttempts input =>
      exact ((amid_fanOutBroadcast maxAttempts input).consequence
        (fun _ hc => (hc.imp fun _ htx => htx.2).commitsOnly) fun _ => id).seq
        fun _ => trivial
  | retry maxAttempts deliveryId =>
      exact (amid_action (fun _ => trivial) _).seq fun _ => trivial
  | process task => exact amid_action (fun _ => trivial) _
  | autoDisable endpointId autoDisableAfterMs now =>
      exact (amid_action (fun _ => trivial) _).seq fun _ => trivial

/-- What a run of the service commits are Deliveries of one Broadcast. -/
theorem own_of_makes {i : ℕ} {task : ServiceTask} {tx : Transaction}
    (h : (serve dateParse w history).Makes i task
      (.inr (.query (.commit tx)))) : tx.Own := by
  have hidle : (Pool.idle w : ServicePool).runs[i]? = none := rfl
  have htrace := (service dateParse).observes_makes hidle h {}
  have hcalls := (amid_program task).observes htrace
  exact hcalls _ (List.mem_append_right _ List.mem_cons_self)

/-- While a Broadcast is stored, no Endpoint gets another Delivery of it. -/
theorem delivery_once {d d' : DeliveryRow}
    (hd : d ∈ (serve dateParse w history).state.db.deliveries)
    (hd' : d' ∈ (serve dateParse w (history ++ later)).state.db.deliveries)
    (hbroadcast : d'.broadcastId = d.broadcastId)
    (hendpoint : d'.endpointId = d.endpointId)
    (hstays : StaysStored dateParse w history later d.broadcastId) :
    d'.id = d.id := by
  induction later using List.reverseRecOn generalizing d' with
  | nil =>
      rw [List.append_nil] at hd'
      have hpair := List.inj_on_of_nodup_map
        (serve dateParse w history).state.db.delivery_pair hd' hd
      rw [hpair (Prod.ext hbroadcast hendpoint)]
  | append_singleton later event ih =>
      rw [← List.append_assoc, serve_concat] at hd'
      have hearlier {old : DeliveryRow}
          (hold : old ∈ (serve dateParse w
            (history ++ later)).state.db.deliveries)
          (hidentity : d'.identity = old.identity) : d'.id = d.id := by
        simp only [DeliveryRow.identity, Prod.mk.injEq] at hidentity
        obtain ⟨hid, hsame, hto, -⟩ := hidentity
        exact hid.trans (ih hold (hsame.symm.trans hbroadcast)
          (hto.symm.trans hendpoint) hstays.of_concat)
      rcases additions dateParse (serve dateParse w (history ++ later)) event
        with hnothing | ⟨i, x, run, tx, -, hi, hc, hgrows⟩
      · obtain ⟨old, hold, hidentity⟩ := hnothing.deliveries d' hd'
        exact hearlier hold hidentity
      · rw [Table.mem_def, hgrows.deliveries, List.mem_append] at hd'
        rcases hd' with hold | hnew
        · exact hearlier hold rfl
        · -- a new Delivery has a new Broadcast
          have hown := own_of_makes ⟨run, hi, rfl, hc⟩ d' hnew
          have hnone := hgrows.broadcast?_new.1
          rw [← hown, hbroadcast] at hnone
          exact absurd hnone (hstays later [event] rfl)

end Serve

end WebhookBroadcast
