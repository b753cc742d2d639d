import WebhookBroadcast.Service.System

/-!
# What one event changes

An event of the service leaves an Endpoint alone or does one of four things to
it, and the Broadcasts and Deliveries that are there afterwards were there
before or have just been committed.  Everything that is said about all histories
of the service rests on these inversions.
-/

namespace WebhookBroadcast

open Interaction Relational

/-! ## Endpoints -/

/-- How an event can change the Endpoint with this id. -/
inductive EndpointChange (event : ServiceEvent) (id : Uuid) :
    Option EndpointRow → Option EndpointRow → Prop
  | kept (row : Option EndpointRow) : EndpointChange event id row row
  | created {body : EndpointCreate} {channelId : Uuid} {now : Instant}
      (h : event = .background (.createEndpoint body id channelId now)) :
      EndpointChange event id none (some (body.toRow id channelId now))
  | patched {channelId : Uuid} {body : EndpointUpdate} {now : Instant}
      (h : event = .background (.patchEndpoint channelId id body now))
      (row : EndpointRow) :
      EndpointChange event id (some row) (some ((body.toPatch now).set row))
  | stamped {row : EndpointRow} (h : row.autoDisabledAt = none)
      (now : Instant) :
      EndpointChange event id (some row) (some (row.autoDisabled now))
  | deleted (row : EndpointRow) : EndpointChange event id (some row) none

theorem insertEndpoint_cases (db : Database) (input : EndpointRow) :
    (insertEndpoint db input).2 = db ∨
      db.endpoints.find? input.id = none ∧
      (insertEndpoint db input).2.endpoints.find? input.id = some input ∧
      ∀ other, other ≠ input.id →
        (insertEndpoint db input).2.endpoints.find? other =
          db.endpoints.find? other := by
  unfold insertEndpoint
  split
  next db' h =>
    unfold Database.insertEndpoint? at h
    split at h
    next =>
      split at h
      · cases h
      next endpoints hins =>
        cases h
        refine Or.inr ⟨?_, ?_, fun other hother => ?_⟩
        · rw [Table.find?_eq_none_iff]
          intro row hrow heq
          have htaken := Table.insert?_eq_none_iff.mpr ⟨row, hrow, heq⟩
          rw [hins] at htaken
          cases htaken
        · exact (Table.find?_eq_some_iff _).mpr
            ⟨(Table.mem_of_insert? hins).mpr (Or.inr rfl), rfl⟩
        · simp [Table.find?, Table.rows_of_insert? hins, List.find?_append,
            hother.symm]
    next => cases h
  next => split <;> exact Or.inl rfl

theorem perform_endpoints (x : Choice) (c : Call) (w : World) :
    (perform x c w).2.db.endpoints = w.db.endpoints ∨
      ∃ id now, c = .query (.stampAutoDisabled id now) ∧
        (perform x c w).2.db = (stampAutoDisabled w.db id now).2 := by
  by_cases hc : ∃ q, c = .query q
  · obtain ⟨q, rfl⟩ := hc
    rcases perform_query_db x q w with h | h
    · exact Or.inl (by rw [h])
    · cases q with
      | stampAutoDisabled id now => exact Or.inr ⟨id, now, rfl, h⟩
      | completeDelivery input =>
          exact Or.inl (by rw [h]; exact (tables_completeDelivery _ _).1)
      | _ => exact Or.inl (by rw [h]; rfl)
  · exact Or.inl (by rw [perform_db_of_not_query fun q hq => hc ⟨q, hq⟩])

theorem Transaction.endpoints_commit (tx : Transaction) (db : Database) :
    (tx.commit db).endpoints = db.endpoints := by
  by_cases h : tx.check db = .ok ()
  · exact (Transaction.grows_commit h).endpoints
  · rw [Transaction.commit_of_check_ne h]

theorem performIngest_endpoints (x : Choice) (c : IngestCall) (w : World) :
    (performIngest x c w).2.db.endpoints = w.db.endpoints := by
  rcases performIngest_db x c w with h | ⟨q, rfl, h⟩
  · rw [h]
  · rw [h]
    cases q with
    | commit tx => exact tx.endpoints_commit w.db
    | _ => rfl

theorem endpointChange_stampAutoDisabled (event : ServiceEvent)
    (db : Database) (endpointId : Uuid) (now : Instant) (id : Uuid) :
    EndpointChange event id (db.endpoints.find? id)
      ((stampAutoDisabled db endpointId now).2.endpoints.find? id) := by
  by_cases hid : id = endpointId
  · subst hid
    rw [find?_stampAutoDisabled_self]
    cases db.endpoints.find? id with
    | none => exact .kept none
    | some row =>
        rw [Option.map_some]
        split
        next hnone => exact .stamped hnone now
        next => exact .kept _
  · rw [find?_stampAutoDisabled_of_ne hid]
    exact .kept _

theorem endpointChange_statement (statement : Statement) (w : World)
    (id : Uuid) :
    EndpointChange (.background statement) id (w.db.endpoints.find? id)
      ((statement.run w).db.endpoints.find? id) := by
  have hsame {db' : Database} (h : db'.endpoints = w.db.endpoints) :
      EndpointChange (.background statement) id (w.db.endpoints.find? id)
        (db'.endpoints.find? id) := by
    rw [h]
    exact .kept _
  cases statement with
  | createChannel body channelId now =>
      exact hsame (sameBelowChannels_insertChannel _ _).endpoints
  | patchChannel channelId body now =>
      exact hsame (sameBelowChannels_updateChannel _ _ _ _).endpoints
  | deleteChannel channelId now =>
      exact hsame (sameBelowChannels_softDeleteChannel _ _ _).endpoints
  | createEndpoint body newId channelId now =>
      simp only [Statement.run, Statement.runDb]
      rcases insertEndpoint_cases w.db (body.toRow newId channelId now) with
        h | ⟨hnone, hsome, hother⟩
      · exact hsame (congrArg Database.endpoints h)
      · by_cases hid : id = newId
        · subst hid
          have hnone' : w.db.endpoints.find? id = none := hnone
          have hsome' : (insertEndpoint w.db (body.toRow id channelId
              now)).2.endpoints.find? id = _ := hsome
          rw [hnone', hsome']
          exact .created rfl
        · rw [hother id hid]
          exact .kept _
  | patchEndpoint channelId patchedId body now =>
      simp only [Statement.run, Statement.runDb]
      rcases updateEndpoint_cases w.db channelId patchedId
          (body.toPatch now) with
        ⟨row, -, hrow, -, hfind⟩ | ⟨-, hfind⟩
      · rw [hfind]
        by_cases hid : id = patchedId
        · subst hid
          rw [if_pos rfl, hrow]
          exact .patched rfl row
        · rw [if_neg hid]
          exact .kept _
      · rw [hfind]
        exact .kept _
  | deleteEndpoint channelId deletedId =>
      have hfind := Table.find?_delete w.db.endpoints
        (fun e => e.channelId = channelId && e.id = deletedId) id
      change EndpointChange _ _ _ ((w.db.endpoints.delete _).find? id)
      rw [hfind]
      cases w.db.endpoints.find? id with
      | none => exact .kept none
      | some row =>
          rw [Option.filter_some]
          split
          · exact .kept _
          · exact .deleted row
  | prune cutoff => exact hsame rfl

/-- An event changes an Endpoint in one of these ways. -/
theorem endpointChange (dateParse : String → Option Instant) (P : ServicePool)
    (event : ServiceEvent) (id : Uuid) :
    EndpointChange event id (P.state.db.endpoints.find? id)
      (((service dateParse).apply P event).state.db.endpoints.find? id) := by
  cases event with
  | start task => exact .kept _
  | background statement => exact endpointChange_statement statement P.state id
  | step i x =>
      rcases service_step_cases dateParse P i x with h | ⟨run, c, -, -, h⟩
      · rw [h]
        exact .kept _
      · rw [h]
        rcases c with c | c
        · change EndpointChange _ _ _
            ((perform x c P.state).2.db.endpoints.find? id)
          rcases perform_endpoints x c P.state with h | ⟨endpointId, now, -, h⟩
          · rw [h]
            exact .kept _
          · rw [h]
            exact endpointChange_stampAutoDisabled _ _ endpointId now id
        · change EndpointChange _ _ _
            ((performIngest x c P.state).2.db.endpoints.find? id)
          rw [performIngest_endpoints]
          exact .kept _

/-! ## Broadcasts and Deliveries -/

/-- The Deliveries of the second database are Deliveries of the first, with the
same ids, Broadcast, Endpoint and Channel. -/
def Database.KeepsIdentities (db db' : Database) : Prop :=
  ∀ d ∈ db'.deliveries, ∃ old ∈ db.deliveries, d.identity = old.identity

theorem Database.KeepsIdentities.of_subset {db db' : Database}
    (h : ∀ d ∈ db'.deliveries, d ∈ db.deliveries) : db.KeepsIdentities db' :=
  fun d hd => ⟨d, h d hd, rfl⟩

theorem Database.KeepsIdentities.of_eq {db db' : Database}
    (h : db'.deliveries = db.deliveries) : db.KeepsIdentities db' :=
  .of_subset fun d hd => by rwa [← h]

/-- The second database has no Broadcasts and Deliveries besides those of the
first, and the Broadcasts are as they were. -/
structure Database.AddsNothing (db db' : Database) : Prop where
  broadcasts : ∀ b ∈ db'.broadcasts, b ∈ db.broadcasts
  deliveries : db.KeepsIdentities db'

theorem Database.AddsNothing.of_eq {db db' : Database}
    (hbroadcasts : db'.broadcasts = db.broadcasts)
    (hdeliveries : db'.deliveries = db.deliveries) : db.AddsNothing db' :=
  ⟨fun b hb => by rwa [← hbroadcasts], .of_eq hdeliveries⟩

theorem Database.AddsNothing.refl (db : Database) : db.AddsNothing db :=
  .of_eq rfl rfl

theorem Database.addsNothing_deleteBroadcasts (db : Database)
    (p : BroadcastRow → Bool) : db.AddsNothing (db.deleteBroadcasts p) :=
  ⟨fun _ hb => (Table.mem_delete.mp hb).1,
    .of_subset fun _ hd => (Table.mem_delete.mp hd).1⟩

theorem addsNothing_perform (x : Choice) (c : Call) (w : World) :
    w.db.AddsNothing (perform x c w).2.db := by
  refine ⟨fun b hb => by rwa [← perform_broadcasts x c w], fun d hd => ?_⟩
  have hfind : (perform x c w).2.db.delivery? d.id = some d :=
    (Table.find?_eq_some_iff _).mpr ⟨hd, rfl⟩
  obtain ⟨old, hold, hidentity⟩ := perform_identity hfind
  exact ⟨old, Database.mem_of_delivery? hold, hidentity⟩

theorem addsNothing_statement (statement : Statement) (w : World) :
    w.db.AddsNothing (statement.run w).db := by
  cases statement with
  | createChannel body channelId now =>
      have hsame := sameBelowChannels_insertChannel w.db
        (body.toRow channelId now)
      exact .of_eq hsame.broadcasts hsame.deliveries
  | patchChannel channelId body now =>
      have hsame := sameBelowChannels_updateChannel w.db channelId body now
      exact .of_eq hsame.broadcasts hsame.deliveries
  | deleteChannel channelId now =>
      have hsame := sameBelowChannels_softDeleteChannel w.db channelId now
      exact .of_eq hsame.broadcasts hsame.deliveries
  | createEndpoint body id channelId now =>
      obtain ⟨hbroadcasts, hdeliveries⟩ :=
        tables_insertEndpoint w.db (body.toRow id channelId now)
      exact .of_eq hbroadcasts hdeliveries
  | patchEndpoint channelId id body now =>
      obtain ⟨hbroadcasts, hdeliveries, -⟩ :=
        tables_updateEndpoint w.db channelId id (body.toPatch now)
      exact .of_eq hbroadcasts hdeliveries
  | deleteEndpoint channelId id =>
      exact ⟨fun b hb => hb, .of_subset fun d hd => (Table.mem_delete.mp hd).1⟩
  | prune cutoff => exact w.db.addsNothing_deleteBroadcasts _

/-- An event adds no rows, or is a commit that adds those of its
transaction. -/
theorem additions (dateParse : String → Option Instant) (P : ServicePool)
    (event : ServiceEvent) :
    P.state.db.AddsNothing ((service dateParse).apply P event).state.db ∨
      ∃ i x run tx, event = .step i x ∧ P.runs[i]? = some run ∧
        run.program.next? = some (.inr (.query (.commit tx))) ∧
        P.state.db.Grows ((service dateParse).apply P event).state.db
          [tx.broadcast] tx.deliveries := by
  cases event with
  | start task => exact Or.inl (.refl _)
  | background statement =>
      exact Or.inl (addsNothing_statement statement P.state)
  | step i x =>
      rcases service_step_cases dateParse P i x with h | ⟨run, c, hi, hc, h⟩
      · rw [h]
        exact Or.inl (.refl _)
      · rw [h]
        rcases c with c | c
        · exact Or.inl (addsNothing_perform x c P.state)
        · change P.state.db.AddsNothing (performIngest x c P.state).2.db ∨ _
          rcases performIngest_db x c P.state with hdb | ⟨q, rfl, hdb⟩
          · rw [hdb]
            exact Or.inl (.refl _)
          · rw [hdb]
            cases q with
            | commit tx =>
                by_cases hcheck : tx.check P.state.db = .ok ()
                · have hgrows := Transaction.grows_commit hcheck
                  have hafter : (performAccept x (.inr (.query (.commit tx)))
                      P.state).2.db = tx.commit P.state.db := hdb
                  rw [← hafter] at hgrows
                  exact Or.inr ⟨i, x, run, tx, rfl, hi, hc, hgrows⟩
                · have hsame : (tx.commit P.state.db) = P.state.db :=
                    Transaction.commit_of_check_ne hcheck
                  rw [IngestQuery.run, hsame]
                  exact Or.inl (.refl _)
            | deleteBroadcastById id =>
                exact Or.inl (P.state.db.addsNothing_deleteBroadcasts _)
            | _ => exact Or.inl (.refl _)

/-- The event is a step of run `i` that commits the Delivery. -/
def CommitsDelivery (P : ServicePool) (event : ServiceEvent) (i : ℕ)
    (d : DeliveryRow) : Prop :=
  ∃ x run tx, event = .step i x ∧ P.runs[i]? = some run ∧
    run.program.next? = some (.inr (.query (.commit tx))) ∧ d ∈ tx.deliveries

/-- Only commits create Deliveries. -/
theorem deliveryChange (dateParse : String → Option Instant) (P : ServicePool)
    (event : ServiceEvent) {d : DeliveryRow}
    (hd : d ∈ ((service dateParse).apply P event).state.db.deliveries) :
    (∃ old ∈ P.state.db.deliveries, d.identity = old.identity) ∨
      (P.state.db.delivery? d.id = none ∧ ∃ i, CommitsDelivery P event i d) := by
  rcases additions dateParse P event with
    hnothing | ⟨i, x, run, tx, rfl, hi, hc, hgrows⟩
  · exact Or.inl (hnothing.deliveries d hd)
  · have hfind := (Table.find?_eq_some_iff _).mpr ⟨hd, rfl⟩
    rcases hgrows.delivery?_cases d.id with
      hsame | ⟨hnone, row, hrow, -, hsome⟩
    · exact Or.inl
        ⟨d, Database.mem_of_delivery? (hsame.symm.trans hfind), rfl⟩
    · obtain rfl : d = row := Option.some.inj (hfind.symm.trans hsome)
      exact Or.inr ⟨hnone, i, x, run, tx, rfl, hi, hc, hrow⟩

/-! ## Where Deliveries come from -/

theorem surveys_program (dateParse : String → Option Instant)
    (task : ServiceTask) : Surveys (task.program dateParse) := by
  cases task with
  | ingest hashToken config slug request =>
      exact .bind_aside (.ingest _ _ _ _) fun _ => trivial
  | replay maxAttempts channelId broadcastId =>
      exact .bind_aside (.replayBroadcast _ _ _) fun _ => trivial
  | fanOut maxAttempts input =>
      exact .bind_aside (.fanOutBroadcast _ _) fun _ => trivial
  | retry maxAttempts deliveryId =>
      exact .bind_aside (.of_aside (amid_action (fun _ => trivial) _))
        fun _ => trivial
  | process task => exact .of_aside (amid_action (fun _ => trivial) _)
  | autoDisable endpointId autoDisableAfterMs now =>
      exact .bind_aside (.of_aside (amid_action (fun _ => trivial) _))
        fun _ => trivial

/-- In every history every run commits what its snapshot says. -/
theorem commitsSnapshot_madeBy (dateParse : String → Option Instant)
    (w : World) (history : ServiceHistory) (i : ℕ) :
    CommitsSnapshot ((service dateParse).madeBy i (Pool.idle w) history) := by
  have hidle : (Pool.idle w : ServicePool).runs[i]? = none := rfl
  rcases (service dateParse).observes_madeBy_of_none hidle with
    h | ⟨task, -, h⟩
  · rw [h]
    exact .of_aside (by simp)
  · exact surveys_program dateParse task _ h

/-- The run that commits a Delivery has taken a snapshot before, and each that
it has taken finds the Endpoint of the Delivery on. -/
theorem CommitsDelivery.surveyed {dateParse : String → Option Instant}
    {w : World} {history : ServiceHistory} {event : ServiceEvent} {i : ℕ}
    {d : DeliveryRow}
    (h : CommitsDelivery (serve dateParse w history) event i d) :
    (∃ s ∈ (service dateParse).madeBy i (Pool.idle w) history,
        TakesSnapshot s) ∧
      ∀ s ∈ (service dateParse).madeBy i (Pool.idle w) history,
        TakesSnapshot s → s.found.db.Targets d := by
  obtain ⟨x, run, tx, rfl, hi, hc, hd⟩ := h
  have hmade := (service dateParse).madeBy_append i history [.step i x]
    (Pool.idle w)
  have hcommit : (service dateParse).madeBy i
      ((service dateParse).exec (Pool.idle w) history) [.step i x] = _ :=
    (service dateParse).madeBy_step x hi hc
  rw [hcommit] at hmade
  have hall := commitsSnapshot_madeBy dateParse w (history ++ [.step i x]) i
  rw [hmade] at hall
  obtain ⟨⟨s, hs, htakes⟩, htargets⟩ :=
    hall _ (List.mem_append_right _ List.mem_cons_self) tx rfl d hd
  refine ⟨⟨s, ?_, htakes⟩, fun s' hs' htakes' =>
    htargets s' (List.mem_append_left _ hs') htakes'⟩
  rcases List.mem_append.mp hs with hs | hs
  · exact hs
  · obtain ⟨channelId, hcall⟩ := htakes
    rw [List.mem_singleton.mp hs] at hcall
    cases hcall

end WebhookBroadcast
