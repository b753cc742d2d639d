import WebhookBroadcast.Db.Broadcasts
import WebhookBroadcast.Db.Deliveries
import WebhookBroadcast.Db.Endpoints
import WebhookBroadcast.Interaction.Program
import WebhookBroadcast.Queue.JobStore

/-!
# Effects

Every call that the modelled code makes to something outside itself, the answer
it gets, and the handler that gives the answers.  Database and queue calls act
on the `World`.  A fault makes such a call reject, either before it was carried
out or, when only its acknowledgement was lost, after it.  Clock readings,
random draws, fresh ids and remote replies are whatever the environment
chooses.
-/

namespace WebhookBroadcast

open Interaction

/-! ## Calls -/

/-- The single statements and transactions sent to the database. -/
inductive Query where
  | getDeliveryForProcessing (deliveryId : Uuid)
  | claimPendingDelivery (deliveryId : Uuid) (updatedAt : Instant)
  | selectDeliveryStatus (deliveryId : Uuid)
  | resetInProgressDeliveryToPending (deliveryId : Uuid) (updatedAt : Instant)
  | completeDelivery (input : CompleteDeliveryInput)
  | retryDeadLetteredDelivery (deliveryId : Uuid) (updatedAt : Instant)
  | getDeliveryDetailById (deliveryId : Uuid)
  | selectEndpointEnablement (endpointId : Uuid)
  | selectLastSuccess (endpointId : Uuid)
  | selectStreakStart (endpointId : Uuid) (lastSuccess : Option Instant)
  | stampAutoDisabled (endpointId : Uuid) (now : Instant)
deriving DecidableEq

/-- The result of a statement that is not rejected. -/
@[reducible] def Query.Result : Query → Type
  | getDeliveryForProcessing _ => Option DeliveryForProcessing
  | claimPendingDelivery _ _ => Bool
  | selectDeliveryStatus _ => Option DeliveryStatus
  | resetInProgressDeliveryToPending _ _ => Bool
  | completeDelivery _ => Unit
  | retryDeadLetteredDelivery _ _ => Bool
  | getDeliveryDetailById _ => Option DeliveryDetailRow
  | selectEndpointEnablement _ => Option EndpointEnablement
  | selectLastSuccess _ => Option Instant
  | selectStreakStart _ _ => Option Instant
  | stampAutoDisabled _ _ => Bool

/-- The calls on the delivery queue. -/
inductive QueueCall where
  | getJob (jobId : Uuid)
  | getState (jobId : Uuid)
  | remove (jobId : Uuid)
  | add (jobId : Uuid) (attempts : ℕ) (data : DeliveryWorkItem)
deriving DecidableEq

/-- The result of a queue call that is not rejected. -/
@[reducible] def QueueCall.Result : QueueCall → Type
  | getJob _ => Bool
  | getState _ => Option JobState
  | remove _ => Unit
  | add _ _ _ => Unit

/-- The request that one HTTP Attempt sends. -/
structure OutboundRequest where
  url : String
  method : String
  headers : Js.Record String
  body : List UInt8
  redirect : String
  timeoutMs : ℕ
deriving DecidableEq

/-- How `fetch` settles: a response with its `retry-after` header, or a
rejection, by the abort signal or with an error message. -/
inductive FetchReply where
  | response (status : ℕ) (retryAfter : Option String)
  | failure (aborted : Bool) (message : String)
deriving DecidableEq

/-- A value of `Math.random`. -/
abbrev Draw := {q : ℚ // 0 ≤ q ∧ q ≤ 1}

def Draw.zero : Draw := ⟨0, le_refl 0, zero_le_one⟩

/-- The calls of the modelled code. -/
inductive Call where
  | query (q : Query)
  | queue (q : QueueCall)
  | fetch (request : OutboundRequest)
  | drainBody
  | now
  | hrtime
  | random
  | randomUUID
deriving DecidableEq

/-- The answer to a call; a rejected promise answers with its error. -/
@[reducible] def Call.Answer : Call → Type
  | query q => Except DbError q.Result
  | queue q => Except String q.Result
  | fetch _ => FetchReply
  | drainBody => Unit
  | now => Instant
  | hrtime => ℤ
  | random => Draw
  | randomUUID => Uuid

/-- The signature of the modelled code. -/
@[reducible] def Effects : Signature := ⟨Call, Call.Answer⟩

/-! ## The world -/

/-- The two stores of the system. -/
structure World where
  db : Database
  jobs : JobStore

/-- How a database or queue call fails. -/
inductive Fault where
  | rejected (message : String)
  | unacknowledged (message : String)
deriving DecidableEq

def Fault.message : Fault → String
  | rejected message => message
  | unacknowledged message => message

/-- Whether the call was carried out all the same. -/
def Fault.applied : Fault → Bool
  | rejected _ => false
  | unacknowledged _ => true

/-- What the environment decides at one call. -/
structure Choice where
  fault : Option Fault := none
  time : Instant := 0
  hrtime : ℤ := 0
  draw : Draw := Draw.zero
  uuid : Uuid := 0
  reply : FetchReply := .response 200 none

/-- Whether a database or queue call is carried out. -/
def Choice.carriesOut (x : Choice) : Bool :=
  match x.fault with
  | none => true
  | some fault => fault.applied

/-- Carry out one statement. -/
def Query.run : (q : Query) → Database → Except DbError q.Result × Database
  | .getDeliveryForProcessing id, db =>
      (.ok (WebhookBroadcast.getDeliveryForProcessing db id), db)
  | .claimPendingDelivery id updatedAt, db =>
      let r := WebhookBroadcast.claimPendingDelivery db id updatedAt
      (.ok r.1, r.2)
  | .selectDeliveryStatus id, db =>
      (.ok (WebhookBroadcast.selectDeliveryStatus db id), db)
  | .resetInProgressDeliveryToPending id updatedAt, db =>
      let r := WebhookBroadcast.resetInProgressDeliveryToPending db id updatedAt
      (.ok r.1, r.2)
  | .completeDelivery input, db => WebhookBroadcast.completeDelivery db input
  | .retryDeadLetteredDelivery id updatedAt, db =>
      let r := WebhookBroadcast.retryDeadLetteredDelivery db id updatedAt
      (.ok r.1, r.2)
  | .getDeliveryDetailById id, db =>
      (.ok (WebhookBroadcast.getDeliveryDetailById db id), db)
  | .selectEndpointEnablement id, db =>
      (.ok (WebhookBroadcast.selectEndpointEnablement db id), db)
  | .selectLastSuccess id, db =>
      (.ok (WebhookBroadcast.selectLastSuccess db id), db)
  | .selectStreakStart id lastSuccess, db =>
      (.ok (WebhookBroadcast.selectStreakStart db id lastSuccess), db)
  | .stampAutoDisabled id now, db =>
      let r := WebhookBroadcast.stampAutoDisabled db id now
      (.ok r.1, r.2)

/-- Carry out one queue call. -/
def QueueCall.run : (q : QueueCall) → JobStore → q.Result × JobStore
  | .getJob id, jobs => ((jobs id).isSome, jobs)
  | .getState id, jobs => ((jobs id).map Job.state, jobs)
  | .remove id, jobs => ((), jobs.remove id)
  | .add id attempts data, jobs => ((), jobs.add id attempts data)

/-- The handler of the modelled code. -/
def perform : Handler Effects Choice World
  | x, .query q, w =>
      match x.fault with
      | none => ((q.run w.db).1, { w with db := (q.run w.db).2 })
      | some fault =>
          (.error (.unavailable fault.message),
            if fault.applied then { w with db := (q.run w.db).2 } else w)
  | x, .queue q, w =>
      match x.fault with
      | none => (.ok (q.run w.jobs).1, { w with jobs := (q.run w.jobs).2 })
      | some fault =>
          (.error fault.message,
            if fault.applied then { w with jobs := (q.run w.jobs).2 } else w)
  | x, .fetch _, w => (x.reply, w)
  | _, .drainBody, w => ((), w)
  | x, .now, w => (x.time, w)
  | x, .hrtime, w => (x.hrtime, w)
  | x, .random, w => (x.draw, w)
  | x, .randomUUID, w => (x.uuid, w)

/-! ## What a call can do to the world -/

theorem perform_query_of_none {x : Choice} (hx : x.fault = none) (q : Query)
    (w : World) : perform x (.query q) w =
      ((q.run w.db).1, { w with db := (q.run w.db).2 }) := by
  simp [perform, hx]

theorem perform_query_of_some {x : Choice} {fault : Fault}
    (hx : x.fault = some fault) (q : Query) (w : World) :
    perform x (.query q) w =
      (.error (.unavailable fault.message),
        if fault.applied then { w with db := (q.run w.db).2 } else w) := by
  simp [perform, hx]

theorem perform_queue_of_none {x : Choice} (hx : x.fault = none) (q : QueueCall)
    (w : World) : perform x (.queue q) w =
      (.ok (q.run w.jobs).1, { w with jobs := (q.run w.jobs).2 }) := by
  simp [perform, hx]

theorem perform_queue_of_some {x : Choice} {fault : Fault}
    (hx : x.fault = some fault) (q : QueueCall) (w : World) :
    perform x (.queue q) w =
      (.error fault.message,
        if fault.applied then { w with jobs := (q.run w.jobs).2 } else w) := by
  simp [perform, hx]

/-- A statement is answered with its result, and carried out; or rejected, and
either carried out or not. -/
theorem perform_query_cases (x : Choice) (q : Query) (w : World) :
    (perform x (.query q) w =
        ((q.run w.db).1, { w with db := (q.run w.db).2 }) ∧
      x.fault = none) ∨
    ∃ message, (perform x (.query q) w).1 = .error (.unavailable message) ∧
      ((perform x (.query q) w).2 = w ∨
        (perform x (.query q) w).2 = { w with db := (q.run w.db).2 }) := by
  cases hfault : x.fault with
  | none => exact Or.inl ⟨perform_query_of_none hfault q w, rfl⟩
  | some fault =>
      right
      rw [perform_query_of_some hfault]
      refine ⟨fault.message, rfl, ?_⟩
      by_cases happlied : fault.applied
      · exact Or.inr (by simp [happlied])
      · exact Or.inl (by simp [happlied])

theorem perform_query_state (x : Choice) (q : Query) (w : World) :
    (perform x (.query q) w).2.db =
      if x.carriesOut then (q.run w.db).2 else w.db := by
  cases hfault : x.fault with
  | none =>
      rw [perform_query_of_none hfault]
      simp [Choice.carriesOut, hfault]
  | some fault =>
      rw [perform_query_of_some hfault]
      simp only [Choice.carriesOut, hfault]
      split <;> rfl

/-- A statement that only reads is answered with its result or rejected. -/
theorem perform_read {x : Choice} {q : Query} {w : World}
    (hread : (q.run w.db).2 = w.db) :
    (perform x (.query q) w = ((q.run w.db).1, w) ∧ x.fault = none) ∨
      ∃ e, perform x (.query q) w = (.error e, w) ∧ x.fault ≠ none := by
  cases hfault : x.fault with
  | none => exact Or.inl ⟨by rw [perform_query_of_none hfault, hread], rfl⟩
  | some fault =>
      refine Or.inr ⟨.unavailable fault.message, ?_, Option.some_ne_none _⟩
      rw [perform_query_of_some hfault, hread]
      split <;> rfl

/-- The database after a statement is the one before, or the statement's. -/
theorem perform_query_db (x : Choice) (q : Query) (w : World) :
    (perform x (.query q) w).2.db = w.db ∨
      (perform x (.query q) w).2.db = (q.run w.db).2 := by
  rcases perform_query_cases x q w with ⟨h, _⟩ | ⟨_, _, h | h⟩
  · exact Or.inr (by rw [h])
  · exact Or.inl (by rw [h])
  · exact Or.inr (by rw [h])

/-- Only statements change the database. -/
theorem perform_db_of_not_query {c : Call} (hc : ∀ q, c ≠ .query q)
    (x : Choice) (w : World) : (perform x c w).2.db = w.db := by
  cases c with
  | query q => exact absurd rfl (hc q)
  | queue q =>
      simp only [perform]
      split
      · rfl
      · dsimp only
        split <;> rfl
  | fetch request => rfl
  | drainBody => rfl
  | now => rfl
  | hrtime => rfl
  | random => rfl
  | randomUUID => rfl

/-- A call creates no Delivery and changes the identity of none. -/
theorem perform_identity {x : Choice} {c : Call} {w : World} {d : Uuid}
    {row' : DeliveryRow} (h : (perform x c w).2.db.delivery? d = some row') :
    ∃ row, w.db.delivery? d = some row ∧ row'.identity = row.identity := by
  by_cases hc : ∃ q, c = .query q
  · obtain ⟨q, rfl⟩ := hc
    rcases perform_query_db x q w with hdb | hdb
    · rw [hdb] at h
      exact ⟨row', h, rfl⟩
    · rw [hdb] at h
      cases q with
      | claimPendingDelivery id updatedAt => exact identity_moveStatus h
      | resetInProgressDeliveryToPending id updatedAt =>
          exact identity_moveStatus h
      | retryDeadLetteredDelivery id updatedAt => exact identity_moveStatus h
      | completeDelivery input => exact identity_completeDelivery h
      | _ => exact ⟨row', h, rfl⟩
  · rw [perform_db_of_not_query fun q hq => hc ⟨q, hq⟩] at h
    exact ⟨row', h, rfl⟩

theorem perform_broadcasts (x : Choice) (c : Call) (w : World) :
    (perform x c w).2.db.broadcasts = w.db.broadcasts := by
  by_cases hc : ∃ q, c = .query q
  · obtain ⟨q, rfl⟩ := hc
    rcases perform_query_db x q w with h | h
    · rw [h]
    · rw [h]
      cases q with
      | completeDelivery input => exact (tables_completeDelivery _ _).2
      | _ => rfl
  · rw [perform_db_of_not_query fun q hq => hc ⟨q, hq⟩]

/-- Only queue calls change the jobs. -/
theorem perform_jobs_of_not_queue {c : Call} (hc : ∀ q, c ≠ .queue q)
    (x : Choice) (w : World) : (perform x c w).2.jobs = w.jobs := by
  cases c with
  | queue q => exact absurd rfl (hc q)
  | query q =>
      rcases perform_query_cases x q w with ⟨h, _⟩ | ⟨_, _, h | h⟩
      · rw [h]
      · rw [h]
      · rw [h]
  | _ => rfl

/-- A call that is not on the queue looks only at the database. -/
theorem perform_congr_db {c : Call} (hc : ∀ q, c ≠ .queue q) (x : Choice)
    {w w' : World} (h : w.db = w'.db) :
    (perform x c w).1 = (perform x c w').1 ∧
      (perform x c w).2.db = (perform x c w').2.db := by
  cases c with
  | queue q => exact absurd rfl (hc q)
  | query q =>
      cases hfault : x.fault with
      | none =>
          rw [perform_query_of_none hfault, perform_query_of_none hfault, h]
          exact ⟨rfl, rfl⟩
      | some fault =>
          rw [perform_query_of_some hfault, perform_query_of_some hfault, h]
          refine ⟨rfl, ?_⟩
          split
          · rfl
          · exact h
  | _ => exact ⟨rfl, h⟩

end WebhookBroadcast
