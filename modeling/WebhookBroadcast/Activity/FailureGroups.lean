import WebhookBroadcast.Channel.Counters
import WebhookBroadcast.Db.UuidText
import WebhookBroadcast.Js.Joined
import WebhookBroadcast.Js.SearchParams
import WebhookBroadcast.Lifecycle.Refinement

/-!
# Failures by Endpoint

The reactive path of Channel Activity: `ChannelFailuresByEndpoint.tsx` with the
part of `apps/web/src/lib/activityFilter.ts` that it reads.  It shows one group
for each Endpoint that the failure roll-up lists, and which groups are expanded
stands in the address, so that a link or a reload expands the same.
-/

namespace WebhookBroadcast

open Js

/-- One entry of the roll-up, with its times as instants. -/
structure EndpointFailure where
  endpointId : String
  endpointName : Option String
  endpointUrl : String
  failed : ℕ
  deadLettered : ℕ
  autoDisabledAt : Option Instant
  lastFailureAt : Instant
deriving DecidableEq

/-- `GET /channels/{channelId}/failures`. -/
def listChannelFailures [Collation] (db : Database) (channelId : Uuid)
    (now : Instant) : List EndpointFailure :=
  (getFailureRollupForChannel db channelId now).map fun row =>
    { endpointId := Uuid.text row.endpointId
      endpointName := row.endpointName
      endpointUrl := row.endpointUrl
      failed := row.failed
      deadLettered := row.deadLettered
      autoDisabledAt := row.autoDisabledAt
      lastFailureAt := row.lastFailureAt }

/-! ## The address -/

def ACTIVITY_ENDPOINT_PARAM : String := "endpoint"

def expandedEndpointIdsFromParams (searchParams : SearchParams) :
    Option (List String) :=
  if ¬ searchParams.has ACTIVITY_ENDPOINT_PARAM then none
  else
    let raw := (searchParams.get ACTIVITY_ENDPOINT_PARAM).getD ""
    some (distinct (parts raw ','))

def expandedEndpointIdsToSearchValue (ids : List String) : String :=
  ",".intercalate ids

/-! ## The view -/

/-- The address, the last answer to the roll-up, and the two refs. -/
structure FailuresView where
  searchParams : SearchParams
  data : Option (List EndpointFailure)
  lastKnown : String → Option EndpointFailure
  defaultOpenId : Option String

inductive FailuresEvent where
  /-- The poll is answered. -/
  | loaded (items : List EndpointFailure)
  | toggleGroup (endpointId : String)
  /-- The address is changed from outside of the view. -/
  | navigate (searchParams : SearchParams)

namespace FailuresView

def hasExplicitEndpointParam (v : FailuresView) : Bool :=
  v.searchParams.has ACTIVITY_ENDPOINT_PARAM

/-- The default is taken once, when a render first sees the roll-up. -/
def latch (v : FailuresView) : FailuresView :=
  match v.data with
  | some items =>
      if ¬ v.hasExplicitEndpointParam ∧ v.defaultOpenId = none then
        { v with defaultOpenId := items.head?.map EndpointFailure.endpointId }
      else v
  | none => v

/-- `lastKnownRef.current.set(item.endpointId, item)` for each item. -/
def recordAll (items : List EndpointFailure)
    (lastKnown : String → Option EndpointFailure) :
    String → Option EndpointFailure :=
  items.foldl (fun known item =>
    Function.update known item.endpointId (some item)) lastKnown

/-- The effect on new data. -/
def remember (v : FailuresView) : FailuresView :=
  { v with lastKnown := recordAll (v.data.getD []) v.lastKnown }

/-- A render and its effect. -/
def commit (v : FailuresView) : FailuresView := v.latch.remember

def mount (searchParams : SearchParams) : FailuresView :=
  commit ⟨searchParams, none, fun _ => none, none⟩

def expandedIds (v : FailuresView) : List String :=
  if v.hasExplicitEndpointParam then
    (expandedEndpointIdsFromParams v.searchParams).getD []
  else (v.defaultOpenId.filter (· ≠ "")).toList

def clearedItems (v : FailuresView) (liveItems : List EndpointFailure) :
    List EndpointFailure :=
  (v.expandedIds.filter fun id =>
    id ∉ liveItems.map EndpointFailure.endpointId).filterMap v.lastKnown

/-- The groups on screen: those of the roll-up in its order, then the expanded
ones that it does not list any more. -/
def displayItems (v : FailuresView) : List EndpointFailure :=
  match v.data with
  | none => []
  | some liveItems => liveItems ++ v.clearedItems liveItems

def toggleGroup (v : FailuresView) (endpointId : String) : FailuresView :=
  let next :=
    if endpointId ∈ v.expandedIds then v.expandedIds.erase endpointId
    else v.expandedIds ++ [endpointId]
  { v with
    searchParams := v.searchParams.set ACTIVITY_ENDPOINT_PARAM
      (expandedEndpointIdsToSearchValue next) }

def step (v : FailuresView) : FailuresEvent → FailuresView
  | .loaded items => commit { v with data := some items }
  | .toggleGroup endpointId => (v.toggleGroup endpointId).commit
  | .navigate searchParams => commit { v with searchParams := searchParams }

def exec (v : FailuresView) (history : List FailuresEvent) : FailuresView :=
  history.foldl step v

/-! ## What the server sends -/

/-- The answer lists each Endpoint once, under a text that can stand in the
address. -/
structure Sent (items : List EndpointFailure) : Prop where
  nodup : (items.map EndpointFailure.endpointId).Nodup
  isPart : ∀ item ∈ items, IsPart ',' item.endpointId

/-- The text of an id can stand between commas. -/
theorem isPart_text (id : Uuid) : IsPart ',' (Uuid.text id) := by
  have hchar : ∀ c ∈ (Uuid.text id).toList,
      isWhiteSpace c = false ∧ c ≠ ',' := by
    have hall : ∀ n : Fin 16, isWhiteSpace (hexDigit n) = false ∧
        hexDigit n ≠ ',' := by decide +kernel
    intro c hc
    rcases Uuid.mem_text hc with rfl | ⟨n, hn, rfl⟩
    · decide
    · exact hall ⟨n, hn⟩
  exact ⟨Uuid.text_ne_empty id,
    trim_of_not_isWhiteSpace fun c hc => (hchar c hc).1,
    fun hcomma => (hchar ',' hcomma).2 rfl⟩

theorem sent_listChannelFailures [Collation] (db : Database) (channelId : Uuid)
    (now : Instant) : Sent (listChannelFailures db channelId now) where
  nodup := by
    rw [listChannelFailures, List.map_map]
    have hids := nodup_getFailureRollupForChannel.map Uuid.text_injective
      (l := (getFailureRollupForChannel db channelId now).map
        EndpointFailureRollupRow.endpointId)
    rwa [List.map_map] at hids
  isPart item hitem := by
    obtain ⟨row, -, rfl⟩ := List.mem_map.mp hitem
    exact isPart_text row.endpointId

/-! ## Runs -/

/-- The row of an answer, or else the one from before. -/
def noteSent (endpointId : String) (last : Option EndpointFailure) :
    FailuresEvent → Option EndpointFailure
  | .loaded items =>
      (items.find? fun item => item.endpointId = endpointId).or last
  | _ => last

/-- The last row that the server sent for an Endpoint. -/
def lastSent (endpointId : String) (history : List FailuresEvent) :
    Option EndpointFailure :=
  history.foldl (noteSent endpointId) none

theorem lastSent_concat (endpointId : String) (history : List FailuresEvent)
    (event : FailuresEvent) : lastSent endpointId (history ++ [event]) =
      noteSent endpointId (lastSent endpointId history) event :=
  List.foldl_append

/-- What the refs hold: the rows that were sent, and an Endpoint that was. -/
structure Holds (history : List FailuresEvent) (v : FailuresView) : Prop where
  sent : ∀ items, v.data = some items → Sent items
  known : ∀ id, v.lastKnown id = lastSent id history
  listed : ∀ items, v.data = some items → ∀ item ∈ items,
    v.lastKnown item.endpointId = some item
  keyed : ∀ id row, v.lastKnown id = some row →
    row.endpointId = id ∧ IsPart ',' id
  isPart : ∀ id, v.defaultOpenId = some id → IsPart ',' id

variable {v : FailuresView} {history : List FailuresEvent}

/-- The rows of an answer overwrite what was known of them. -/
theorem recordAll_apply {items : List EndpointFailure}
    (hnodup : (items.map EndpointFailure.endpointId).Nodup)
    (known : String → Option EndpointFailure) (id : String) :
    recordAll items known id =
      (items.find? fun item => item.endpointId = id).or (known id) := by
  induction items generalizing known with
  | nil => rfl
  | cons item items ih =>
      obtain ⟨hfirst, hnodup⟩ := List.nodup_cons.mp hnodup
      have hrest := ih hnodup (Function.update known item.endpointId (some item))
      rw [recordAll] at hrest ⊢
      rw [List.foldl_cons, hrest]
      by_cases hid : item.endpointId = id
      · have hnone : items.find? (fun item => item.endpointId = id) = none := by
          rw [List.find?_eq_none]
          intro other hother heq
          have heq : other.endpointId = id := of_decide_eq_true heq
          exact hfirst (List.mem_map.mpr ⟨other, hother, heq.trans hid.symm⟩)
        rw [hnone, List.find?_cons_of_pos (by simpa using hid), ← hid,
          Function.update_self]
        rfl
      · rw [Function.update_of_ne (Ne.symm hid),
          List.find?_cons_of_neg (by simpa using hid)]

theorem find?_of_mem {items : List EndpointFailure}
    (hnodup : (items.map EndpointFailure.endpointId).Nodup)
    {item : EndpointFailure} (hitem : item ∈ items) :
    (items.find? fun other => other.endpointId = item.endpointId) =
      some item := by
  cases hfind : items.find? fun other => other.endpointId = item.endpointId with
  | none =>
      have hnone := List.find?_eq_none.mp hfind item hitem
      exact absurd (decide_eq_true rfl) hnone
  | some other =>
      have hid : other.endpointId = item.endpointId := by
        simpa using List.find?_some hfind
      rw [List.inj_on_of_nodup_map hnodup (List.mem_of_find?_eq_some hfind)
        hitem hid]

@[simp] theorem latch_data (v : FailuresView) : v.latch.data = v.data := by
  unfold latch
  split <;> [split; skip] <;> rfl

@[simp] theorem latch_lastKnown (v : FailuresView) :
    v.latch.lastKnown = v.lastKnown := by
  unfold latch
  split <;> [split; skip] <;> rfl

@[simp] theorem latch_searchParams (v : FailuresView) :
    v.latch.searchParams = v.searchParams := by
  unfold latch
  split <;> [split; skip] <;> rfl

/-- The default is kept once it is taken. -/
theorem latch_defaultOpenId {id : String} (h : v.defaultOpenId = some id) :
    v.latch.defaultOpenId = some id := by
  unfold latch
  split
  · rw [if_neg (by simp [h])]
    exact h
  · exact h

/-- The Endpoint that is open by default was listed. -/
theorem isPart_latch (hsent : ∀ items, v.data = some items → Sent items)
    (hpart : ∀ id, v.defaultOpenId = some id → IsPart ',' id) :
    ∀ id, v.latch.defaultOpenId = some id → IsPart ',' id := by
  unfold latch
  split
  next items hitems =>
    split
    · intro id hid
      obtain ⟨item, hitem, rfl⟩ := Option.map_eq_some_iff.mp hid
      exact (hsent items hitems).isPart item (List.mem_of_mem_head? hitem)
    · exact hpart
  next => exact hpart

/-- What a commit leaves in the refs. -/
theorem Holds.commit (hsent : ∀ items, v.data = some items → Sent items)
    (hknown : ∀ id, ((v.data.getD []).find? fun item =>
      item.endpointId = id).or (v.lastKnown id) = lastSent id history)
    (hkeyed : ∀ id row, v.lastKnown id = some row →
      row.endpointId = id ∧ IsPart ',' id)
    (hpart : ∀ id, v.defaultOpenId = some id → IsPart ',' id) :
    Holds history v.commit := by
  have hrecorded (id : String) : v.commit.lastKnown id =
      ((v.data.getD []).find? fun item => item.endpointId = id).or
        (v.lastKnown id) := by
    change recordAll (v.latch.data.getD []) v.latch.lastKnown id = _
    rw [latch_data, latch_lastKnown]
    refine recordAll_apply ?_ _ _
    cases hdata : v.data with
    | none => exact List.nodup_nil
    | some items => exact (hsent items hdata).nodup
  have hdata : v.commit.data = v.data := latch_data v
  refine ⟨fun items hitems => hsent items (hdata ▸ hitems), fun id => ?_,
    fun items hitems item hitem => ?_, fun id row hrow => ?_,
    isPart_latch hsent hpart⟩
  · rw [hrecorded, hknown]
  · rw [hdata] at hitems
    rw [hrecorded, hitems, Option.getD_some,
      find?_of_mem (hsent items hitems).nodup hitem]
    rfl
  · rw [hrecorded, Option.or_eq_some_iff] at hrow
    rcases hrow with hrow | ⟨-, hrow⟩
    · have hid : row.endpointId = id := by simpa using List.find?_some hrow
      have hmem := List.mem_of_find?_eq_some hrow
      cases hitems : v.data with
      | none =>
          rw [hitems] at hmem
          exact absurd hmem List.not_mem_nil
      | some items =>
          rw [hitems] at hmem
          exact ⟨hid, hid ▸ (hsent items hitems).isPart row hmem⟩
    · exact hkeyed id row hrow

/-- What is known of the listed rows does not change when nothing is loaded. -/
theorem Holds.find?_or (h : Holds history v) (id : String) :
    ((v.data.getD []).find? fun item => item.endpointId = id).or
      (v.lastKnown id) = v.lastKnown id := by
  cases hfind : (v.data.getD []).find? fun item => item.endpointId = id with
  | none => rfl
  | some item =>
      have hitem := List.mem_of_find?_eq_some hfind
      have hid : item.endpointId = id := by simpa using List.find?_some hfind
      cases hdata : v.data with
      | none =>
          rw [hdata] at hitem
          exact absurd hitem List.not_mem_nil
      | some items =>
          rw [hdata] at hitem
          rw [← hid, h.listed items hdata item hitem]
          rfl

theorem Holds.step (h : Holds history v) (event : FailuresEvent)
    (hevent : ∀ items, event = .loaded items → Sent items) :
    Holds (history ++ [event]) (v.step event) := by
  cases event with
  | loaded items =>
      refine .commit (fun items' hitems' => ?_) (fun id => ?_) h.keyed h.isPart
      · cases hitems'
        exact hevent items rfl
      · rw [lastSent_concat, ← h.known]
        rfl
  | toggleGroup endpointId =>
      refine .commit h.sent (fun id => ?_) h.keyed h.isPart
      rw [lastSent_concat, ← h.known]
      exact h.find?_or id
  | navigate searchParams =>
      refine .commit h.sent (fun id => ?_) h.keyed h.isPart
      rw [lastSent_concat, ← h.known]
      exact h.find?_or id

theorem holds_mount (searchParams : SearchParams) :
    Holds [] (mount searchParams) :=
  .commit nofun (fun _ => rfl) nofun nofun

/-- The server answers the poll, and a group that is on screen is toggled. -/
def Enabled [Collation] (channelId : Uuid) (v : FailuresView) :
    FailuresEvent → Prop
  | .loaded items => ∃ db now, items = listChannelFailures db channelId now
  | .toggleGroup endpointId =>
      ∃ row ∈ v.displayItems, row.endpointId = endpointId
  | .navigate _ => True

/-- The histories that the view can have. -/
def Possible [Collation] (channelId : Uuid) :
    FailuresView → List FailuresEvent → Prop
  | _, [] => True
  | v, event :: rest =>
      v.Enabled channelId event ∧ Possible channelId (v.step event) rest

theorem possible_append [Collation] {channelId : Uuid}
    {before after : List FailuresEvent} :
    Possible channelId v (before ++ after) ↔
      Possible channelId v before ∧ Possible channelId (v.exec before) after := by
  induction before generalizing v with
  | nil => simp [Possible, exec]
  | cons event before ih =>
      rw [List.cons_append, Possible, Possible, ih, and_assoc]
      rfl

theorem Holds.exec [Collation] {channelId : Uuid} {past : List FailuresEvent}
    (h : Holds past v) (hpossible : Possible channelId v history) :
    Holds (past ++ history) (v.exec history) := by
  induction history generalizing past v with
  | nil =>
      rw [List.append_nil]
      exact h
  | cons event history ih =>
      have hstep := h.step event fun items hitems => by
        rw [hitems] at hpossible
        obtain ⟨⟨db, now, rfl⟩, -⟩ := hpossible
        exact sent_listChannelFailures db channelId now
      rw [← List.singleton_append, ← List.append_assoc]
      exact ih hstep hpossible.2

/-! ## What is expanded -/

theorem Holds.isPart_expanded (h : Holds history v) {id : String}
    (hid : id ∈ v.expandedIds) : IsPart ',' id := by
  unfold expandedIds at hid
  split at hid
  next hexplicit =>
    rw [expandedEndpointIdsFromParams,
      if_neg (by simpa [hasExplicitEndpointParam] using hexplicit),
      Option.getD_some, mem_distinct] at hid
    exact isPart_of_mem_parts hid
  next =>
    refine h.isPart id ?_
    rw [Option.mem_toList, Option.filter_eq_some_iff] at hid
    exact hid.1

theorem nodup_expandedIds (v : FailuresView) : v.expandedIds.Nodup := by
  unfold expandedIds
  split
  next hexplicit =>
    rw [expandedEndpointIdsFromParams,
      if_neg (by simpa [hasExplicitEndpointParam] using hexplicit),
      Option.getD_some]
    exact nodup_distinct _
  next =>
    cases v.defaultOpenId.filter (· ≠ "") with
    | none => exact List.nodup_nil
    | some id => exact List.nodup_singleton id

/-- A commit takes no group away. -/
theorem mem_expandedIds_commit {id : String} (hid : id ∈ v.expandedIds) :
    id ∈ v.commit.expandedIds := by
  have hparams : v.commit.searchParams = v.searchParams := latch_searchParams v
  unfold expandedIds hasExplicitEndpointParam at hid ⊢
  rw [hparams]
  split at hid
  next hexplicit =>
    rw [if_pos hexplicit]
    exact hid
  next habsent =>
    rw [if_neg habsent]
    rw [Option.mem_toList, Option.filter_eq_some_iff] at hid ⊢
    exact ⟨latch_defaultOpenId hid.1, hid.2⟩

/-- Where the address says what is expanded, nothing else does. -/
theorem expandedIds_congr {v' : FailuresView}
    (hparams : v'.searchParams = v.searchParams)
    (hexplicit : v.hasExplicitEndpointParam = true) :
    v'.expandedIds = v.expandedIds := by
  unfold hasExplicitEndpointParam at hexplicit
  unfold expandedIds hasExplicitEndpointParam
  rw [hparams, if_pos hexplicit, if_pos hexplicit]

/-- The answers of the server do not change the address. -/
theorem searchParams_exec
    (hloads : ∀ event ∈ history, ∃ items, event = .loaded items) :
    (v.exec history).searchParams = v.searchParams := by
  induction history generalizing v with
  | nil => rfl
  | cons event history ih =>
      obtain ⟨items, rfl⟩ := hloads event List.mem_cons_self
      exact (ih fun event hevent =>
        hloads event (List.mem_cons_of_mem _ hevent)).trans
          (latch_searchParams _)

/-- What a toggle writes into the address is what it shows. -/
theorem Holds.expandedIds_toggleGroup (h : Holds history v)
    {endpointId : String} (hpart : IsPart ',' endpointId) :
    (v.toggleGroup endpointId).expandedIds =
      if endpointId ∈ v.expandedIds then v.expandedIds.erase endpointId
      else v.expandedIds ++ [endpointId] := by
  have hwrite (next : List String) (hparts : ∀ id ∈ next, IsPart ',' id)
      (hnodup : next.Nodup) :
      expandedIds { v with
        searchParams := v.searchParams.set ACTIVITY_ENDPOINT_PARAM
          (expandedEndpointIdsToSearchValue next) } = next := by
    have hhas : (v.searchParams.set ACTIVITY_ENDPOINT_PARAM
        (expandedEndpointIdsToSearchValue next)).has ACTIVITY_ENDPOINT_PARAM =
          true := by
      rw [SearchParams.has_eq_isSome_get, SearchParams.get_set_self]
      rfl
    unfold expandedIds hasExplicitEndpointParam expandedEndpointIdsFromParams
    rw [if_pos hhas, if_neg (by rw [hhas]; exact fun h => h rfl),
      SearchParams.get_set_self, Option.getD_some, Option.getD_some]
    exact (congrArg distinct (parts_join hparts)).trans (distinct_of_nodup hnodup)
  have hnodup := v.nodup_expandedIds
  unfold toggleGroup
  by_cases hmem : endpointId ∈ v.expandedIds
  · rw [if_pos hmem]
    exact hwrite _ (fun id hid => h.isPart_expanded (List.mem_of_mem_erase hid))
      (hnodup.erase _)
  · rw [if_neg hmem]
    refine hwrite _ (fun id hid => ?_) ?_
    · rcases List.mem_append.mp hid with hid | hid
      · exact h.isPart_expanded hid
      · rw [List.mem_singleton.mp hid]
        exact hpart
    · exact hnodup.append (List.nodup_singleton _)
        (List.disjoint_singleton.mpr hmem)

/-- Toggling a group opens it or closes it, and no other. -/
theorem Holds.mem_expandedIds_toggleGroup (h : Holds history v)
    {endpointId id : String} (hpart : IsPart ',' endpointId) :
    id ∈ (v.toggleGroup endpointId).expandedIds ↔
      id ≠ endpointId ∧ id ∈ v.expandedIds ∨
        id = endpointId ∧ id ∉ v.expandedIds := by
  rw [h.expandedIds_toggleGroup hpart]
  by_cases hmem : endpointId ∈ v.expandedIds
  · rw [if_pos hmem, v.nodup_expandedIds.mem_erase_iff]
    constructor
    · exact Or.inl
    · rintro (h | ⟨rfl, hnot⟩)
      · exact h
      · exact absurd hmem hnot
  · rw [if_neg hmem, List.mem_append, List.mem_singleton]
    constructor
    · rintro (h | rfl)
      · exact Or.inl ⟨fun heq => hmem (heq ▸ h), h⟩
      · exact Or.inr ⟨rfl, hmem⟩
    · rintro (⟨-, h⟩ | ⟨h, -⟩)
      · exact Or.inl h
      · exact Or.inr h

/-! ## What is on screen -/

/-- The cleared groups are those of the expanded Endpoints that are known and
not listed. -/
theorem Holds.map_clearedItems (h : Holds history v)
    (liveItems : List EndpointFailure) :
    (v.clearedItems liveItems).map EndpointFailure.endpointId =
      (v.expandedIds.filter fun id =>
        id ∉ liveItems.map EndpointFailure.endpointId).filter fun id =>
          (v.lastKnown id).isSome := by
  rw [clearedItems]
  generalize v.expandedIds.filter (fun id =>
    id ∉ liveItems.map EndpointFailure.endpointId) = ids
  induction ids with
  | nil => rfl
  | cons id ids ih =>
      cases hrow : v.lastKnown id with
      | none =>
          rw [List.filterMap_cons_none hrow, List.filter_cons_of_neg (by simp [hrow]),
            ih]
      | some row =>
          rw [List.filterMap_cons_some hrow, List.filter_cons_of_pos (by simp [hrow]),
            List.map_cons, ih, (h.keyed id row hrow).1]

/-- No Endpoint has two groups on screen. -/
theorem Holds.nodup_displayItems (h : Holds history v) :
    (v.displayItems.map EndpointFailure.endpointId).Nodup := by
  unfold displayItems
  split
  next => exact List.nodup_nil
  next liveItems hdata =>
    rw [List.map_append, h.map_clearedItems]
    refine (h.sent liveItems hdata).nodup.append ?_ ?_
    · exact (v.nodup_expandedIds.filter _).filter _
    · intro id hlive hcleared
      have hnot := (List.mem_filter.mp (List.mem_of_mem_filter hcleared)).2
      exact of_decide_eq_true hnot hlive

/-- What is on screen is known, and can stand in the address. -/
theorem Holds.of_mem_displayItems (h : Holds history v) {row : EndpointFailure}
    (hrow : row ∈ v.displayItems) : v.data.isSome = true ∧
      v.lastKnown row.endpointId = some row ∧ IsPart ',' row.endpointId := by
  unfold displayItems at hrow
  split at hrow
  next => exact absurd hrow List.not_mem_nil
  next liveItems hdata =>
    have hknown : v.lastKnown row.endpointId = some row := by
      rcases List.mem_append.mp hrow with hlive | hcleared
      · exact h.listed liveItems hdata row hlive
      · obtain ⟨id, -, hknown⟩ := List.mem_filterMap.mp hcleared
        rwa [(h.keyed id row hknown).1]
    rw [hdata]
    exact ⟨rfl, hknown, (h.keyed _ row hknown).2⟩

/-- A group that is expanded and known is on screen, once. -/
theorem Holds.filter_displayItems (h : Holds history v) {id : String}
    {row : EndpointFailure} (hdata : v.data.isSome = true)
    (hexpanded : id ∈ v.expandedIds) (hknown : v.lastKnown id = some row) :
    (v.displayItems.filter fun item => item.endpointId = id) = [row] := by
  obtain ⟨liveItems, hdata⟩ := Option.isSome_iff_exists.mp hdata
  have hid := (h.keyed id row hknown).1
  have hmem : row ∈ v.displayItems := by
    rw [displayItems, hdata]
    by_cases hlive : id ∈ liveItems.map EndpointFailure.endpointId
    · obtain ⟨item, hitem, rfl⟩ := List.mem_map.mp hlive
      have hsame := (h.listed liveItems hdata item hitem).symm.trans hknown
      rw [← Option.some.inj hsame]
      exact List.mem_append_left _ hitem
    · refine List.mem_append_right _ (List.mem_filterMap.mpr ⟨id, ?_, hknown⟩)
      exact List.mem_filter.mpr ⟨hexpanded, decide_eq_true hlive⟩
  have hnodup := h.nodup_displayItems
  have hlist := List.Nodup.filter (fun item => decide (item.endpointId = id))
    (List.Nodup.of_map _ hnodup)
  refine List.perm_singleton.mp
    ((List.perm_ext_iff_of_nodup hlist (List.nodup_singleton row)).mpr ?_)
  intro item
  rw [List.mem_filter, List.mem_singleton, decide_eq_true_eq]
  constructor
  · rintro ⟨hitem, hsame⟩
    exact List.inj_on_of_nodup_map hnodup hitem hmem (hsame.trans hid.symm)
  · rintro rfl
    exact ⟨hmem, hid⟩

/-! ## What stays -/

/-- A group that is expanded and was listed since the view was mounted. -/
structure Stays (id : String) (v : FailuresView) : Prop where
  expanded : id ∈ v.expandedIds
  data : v.data.isSome = true
  known : (v.lastKnown id).isSome = true

theorem Stays.commit {id : String} (hexpanded : id ∈ v.expandedIds)
    (hdata : v.data.isSome = true) (hknown : (v.lastKnown id).isSome = true)
    (hsent : ∀ items, v.data = some items → Sent items) : Stays id v.commit where
  expanded := mem_expandedIds_commit hexpanded
  data := by
    change v.latch.data.isSome = true
    rwa [latch_data]
  known := by
    obtain ⟨items, hitems⟩ := Option.isSome_iff_exists.mp hdata
    change (recordAll (v.latch.data.getD []) v.latch.lastKnown id).isSome = true
    rw [latch_data, latch_lastKnown, hitems, Option.getD_some,
      recordAll_apply (hsent items hitems).nodup, Option.isSome_or, hknown,
      Bool.or_true]

theorem Stays.step [Collation] {channelId : Uuid} {id : String}
    (hstays : Stays id v) (h : Holds history v) {event : FailuresEvent}
    (henabled : v.Enabled channelId event)
    (hevent : event ≠ .toggleGroup id ∧ ∀ params, event ≠ .navigate params) :
    Stays id (v.step event) := by
  cases event with
  | loaded items =>
      obtain ⟨db, now, rfl⟩ := henabled
      refine .commit hstays.expanded rfl hstays.known fun items hitems => ?_
      cases hitems
      exact sent_listChannelFailures db channelId now
  | toggleGroup endpointId =>
      obtain ⟨row, hrow, hid⟩ := henabled
      refine .commit ?_ hstays.data hstays.known h.sent
      have hne : id ≠ endpointId := fun heq => hevent.1 (by rw [heq])
      have hpart := (h.of_mem_displayItems hrow).2.2
      rw [hid] at hpart
      rw [h.mem_expandedIds_toggleGroup hpart]
      exact Or.inl ⟨hne, hstays.expanded⟩
  | navigate params => exact absurd rfl (hevent.2 params)

theorem Stays.exec [Collation] {channelId : Uuid} {id : String}
    {past : List FailuresEvent} (hstays : Stays id v) (h : Holds past v)
    (hpossible : Possible channelId v history)
    (hevents : ∀ event ∈ history,
      event ≠ .toggleGroup id ∧ ∀ params, event ≠ .navigate params) :
    Stays id (v.exec history) := by
  induction history generalizing past v with
  | nil => exact hstays
  | cons event history ih =>
      have hstep := h.step event fun items hitems => by
        rw [hitems] at hpossible
        obtain ⟨⟨db, now, rfl⟩, -⟩ := hpossible
        exact sent_listChannelFailures db channelId now
      exact ih (hstays.step h hpossible.1 (hevents event List.mem_cons_self))
        hstep hpossible.2
        fun event hevent => hevents event (List.mem_cons_of_mem _ hevent)

end FailuresView

open FailuresView in
/-- A group that is expanded and on screen stays there, whatever the roll-up
lists from then on, until it is collapsed or the address is changed from
outside.  It is on screen once, with the last row that the server sent. -/
theorem expanded_group_stays [Collation] {channelId : Uuid}
    {searchParams : SearchParams} {before after : List FailuresEvent}
    (hpossible : Possible channelId (mount searchParams) (before ++ after))
    {id : String}
    (hexpanded : id ∈ ((mount searchParams).exec before).expandedIds)
    (hshown : ∃ row ∈ ((mount searchParams).exec before).displayItems,
      row.endpointId = id)
    (hevents : ∀ event ∈ after,
      event ≠ .toggleGroup id ∧ ∀ params, event ≠ .navigate params) :
    let v := (mount searchParams).exec (before ++ after)
    id ∈ v.expandedIds ∧ ∃ row, lastSent id (before ++ after) = some row ∧
      (v.displayItems.filter fun item => item.endpointId = id) = [row] := by
  intro v
  obtain ⟨hbefore, hafter⟩ := possible_append.mp hpossible
  have hmid : Holds before ((mount searchParams).exec before) :=
    (holds_mount searchParams).exec hbefore
  have hlast : Holds (before ++ after) v :=
    (holds_mount searchParams).exec hpossible
  obtain ⟨row, hrow, hid⟩ := hshown
  obtain ⟨hdata, hknown, -⟩ := hmid.of_mem_displayItems hrow
  rw [hid] at hknown
  have hstays : Stays id (((mount searchParams).exec before).exec after) :=
    Stays.exec ⟨hexpanded, hdata, by rw [hknown]; rfl⟩ hmid hafter hevents
  have hv : ((mount searchParams).exec before).exec after = v :=
    List.foldl_append.symm
  rw [hv] at hstays
  obtain ⟨row, hknown⟩ := Option.isSome_iff_exists.mp hstays.known
  exact ⟨hstays.expanded, row, (hlast.known id).symm.trans hknown,
    hlast.filter_displayItems hstays.data hstays.expanded hknown⟩

/-- The roll-up lists the Endpoint of a dead-lettered Delivery, and then no
more. -/
def brokenEndpoint : Database :=
  .ofTimeline 0 ⟨.deadLettered, [⟨some 500, 12, none, 0⟩]⟩

theorem expanded_group_stays_cleared :
    ∃ row, (((FailuresView.mount ⟨[]⟩).exec
        ([.loaded (@listChannelFailures .c brokenEndpoint 0 1)] ++
          [.loaded (@listChannelFailures .c .empty 0 2)])).displayItems.filter
            fun item => item.endpointId =
              "00000000-0000-0000-0000-000000000000") = [row] := by
  have hstays := (@expanded_group_stays .c 0 ⟨[]⟩
    [.loaded (@listChannelFailures .c brokenEndpoint 0 1)]
    [.loaded (@listChannelFailures .c .empty 0 2)]
    ⟨⟨brokenEndpoint, 1, rfl⟩, ⟨.empty, 2, rfl⟩, trivial⟩
    "00000000-0000-0000-0000-000000000000" (by decide +kernel)
    (by decide +kernel) (by simp)).2
  obtain ⟨row, -, hrow⟩ := hstays
  exact ⟨row, hrow⟩

open FailuresView in
/-- A link to the view, or a reload, expands the groups that are expanded in it.
A toggle expands or collapses one group and keeps the other entries of the
address in their order, and from then on no answer of the server expands or
collapses a group, neither here nor where the address is opened.  Which of the
expanded groups are on screen there is up to what the server lists there. -/
theorem address_keeps_groups [Collation] {channelId : Uuid}
    {searchParams : SearchParams} {before loads : List FailuresEvent}
    {endpointId : String}
    (hpossible : Possible channelId (mount searchParams)
      (before ++ .toggleGroup endpointId :: loads))
    (hloads : ∀ event ∈ loads, ∃ items, event = .loaded items) :
    let v := (mount searchParams).exec before
    let v' := (mount searchParams).exec
      (before ++ .toggleGroup endpointId :: loads)
    (∀ id, id ∈ v'.expandedIds ↔
        id ≠ endpointId ∧ id ∈ v.expandedIds ∨
          id = endpointId ∧ id ∉ v.expandedIds) ∧
      (∀ answers : List FailuresEvent,
        (∀ event ∈ answers, ∃ items, event = .loaded items) →
          ((mount (SearchParams.ofString v'.searchParams.toString)).exec
            answers).expandedIds = v'.expandedIds) ∧
        (v'.searchParams.pairs.filter fun entry =>
            entry.1 ≠ ACTIVITY_ENDPOINT_PARAM) =
          v.searchParams.pairs.filter fun entry =>
            entry.1 ≠ ACTIVITY_ENDPOINT_PARAM := by
  intro v v'
  obtain ⟨hbefore, ⟨row, hrow, hid⟩, -⟩ := possible_append.mp hpossible
  have hv : Holds before v := (holds_mount searchParams).exec hbefore
  have hpart := (hv.of_mem_displayItems hrow).2.2
  rw [hid] at hpart
  have hparams : v'.searchParams = (v.toggleGroup endpointId).searchParams := by
    have hv' : v' = (v.step (.toggleGroup endpointId)).exec loads :=
      List.foldl_append
    rw [hv', searchParams_exec hloads]
    exact latch_searchParams _
  have hexplicit : (v.toggleGroup endpointId).hasExplicitEndpointParam = true := by
    rw [hasExplicitEndpointParam, SearchParams.has_eq_isSome_get]
    exact congrArg Option.isSome SearchParams.get_set_self
  have hexplicit' : v'.hasExplicitEndpointParam = true := by
    rw [hasExplicitEndpointParam, hparams]
    exact hexplicit
  have hexpanded : v'.expandedIds = (v.toggleGroup endpointId).expandedIds :=
    expandedIds_congr hparams hexplicit
  refine ⟨fun id => ?_, fun answers hanswers => ?_, ?_⟩
  · rw [hexpanded]
    exact hv.mem_expandedIds_toggleGroup hpart
  · refine expandedIds_congr ?_ hexplicit'
    rw [searchParams_exec hanswers, SearchParams.ofString_toString]
    exact latch_searchParams _
  · rw [hparams]
    exact SearchParams.filter_set_ne

/-- The Endpoint that is open by default is collapsed, and is so where the link
is opened. -/
theorem address_keeps_groups_collapsed :
    ((FailuresView.mount (SearchParams.ofString "filter=failed&endpoint=")).exec
      [.loaded (@listChannelFailures .c brokenEndpoint 0 1)]).expandedIds =
        [] := by
  have hshown : ∃ row ∈ ((FailuresView.mount ⟨[("filter", "failed")]⟩).exec
      [.loaded (@listChannelFailures .c brokenEndpoint 0 1)]).displayItems,
        row.endpointId = "00000000-0000-0000-0000-000000000000" := by
    decide +kernel
  have hkeeps := (@address_keeps_groups .c 0 ⟨[("filter", "failed")]⟩
    [.loaded (@listChannelFailures .c brokenEndpoint 0 1)] []
    "00000000-0000-0000-0000-000000000000"
    ⟨⟨brokenEndpoint, 1, rfl⟩, hshown, trivial⟩ (by simp)).2.1
      [.loaded (@listChannelFailures .c brokenEndpoint 0 1)] (by simp)
  have htext : ((FailuresView.mount ⟨[("filter", "failed")]⟩).exec
      ([.loaded (@listChannelFailures .c brokenEndpoint 0 1)] ++
        [.toggleGroup "00000000-0000-0000-0000-000000000000"])).searchParams.toString =
          "filter=failed&endpoint=" := by
    decide +kernel
  rw [htext] at hkeeps
  refine hkeeps.trans ?_
  decide +kernel

end WebhookBroadcast
