import WebhookBroadcast.Admin.BroadcastList

/-!
# The component of a list of Broadcasts

`ChannelActivityTab` and `EndpointFailureChildren` of `apps/web`, which fetch
and page a list in the same way.  The first page is polled and lives in the
query; the pages that "Load more" appends and the cursor live beside it, and a
fresh first page resets these.  Effects count as part of the event that they
follow.

The server may change at any time, and a request is answered at one moment and
reaches the component at another.
-/

namespace WebhookBroadcast

open Relational

/-! ## The component -/

/-- The data of the query, and what the component keeps beside it. -/
structure ActivityView where
  data : Option (Page BroadcastListItem String) := none
  extraItems : List BroadcastListItem := []
  nextCursor : Option String := none
  loadingMore : Bool := false
  loadMoreError : Option String := none

namespace ActivityView

/-- The items shown: none until there is a first page. -/
def items (view : ActivityView) : List BroadcastListItem :=
  match view.data with
  | none => []
  | some page => page.items ++ view.extraItems

/-- A first page arrives.  The query keeps the page that it has if they are
equal, and the effect that resets the rest runs for another one only. -/
def firstPage (view : ActivityView) (page : Page BroadcastListItem String) :
    ActivityView :=
  if view.data = some page then { view with loadMoreError := none }
  else
    { view with
      data := some page
      extraItems := []
      nextCursor := page.next
      loadMoreError := none }

/-- `handleLoadMore` when its page arrives. -/
def morePage (view : ActivityView) (page : Page BroadcastListItem String) :
    ActivityView :=
  { view with
    extraItems := view.extraItems ++ page.items
    nextCursor := page.next
    loadingMore := false
    loadMoreError := none }

/-- `handleLoadMore` when its request fails. -/
def moreFails (view : ActivityView) (message : String) : ActivityView :=
  { view with
    loadingMore := false
    loadMoreError := some message }

variable {view : ActivityView} {page : Page BroadcastListItem String}

theorem items_firstPage_of_ne (h : view.data ≠ some page) :
    (view.firstPage page).items = page.items := by
  rw [firstPage, if_neg h, items]
  exact List.append_nil page.items

theorem items_morePage (h : view.items ≠ []) :
    (view.morePage page).items = view.items ++ page.items := by
  cases hdata : view.data with
  | none => simp [items, hdata] at h
  | some first => simp [items, morePage, hdata]

end ActivityView

/-! ## Requests -/

/-- A page on its way to the component.  The database that it was read from is
kept to speak about; the component does not see it. -/
structure Answer where
  db : Database
  page : Page BroadcastListItem String

structure LoadMoreRequest where
  cursor : String
  answer : Option Answer := none

/-- The component, its requests and the server.  `readAt` is the database that
the first page shown was read from; the component does not see it either. -/
structure ActivityScene where
  server : Database
  view : ActivityView := {}
  readAt : Option Database := none
  polled : Option Answer := none
  request : Option LoadMoreRequest := none

/-- The server changes, answers a request, or its answer reaches the component;
the user asks for more. -/
inductive ActivityEvent where
  | serve (db : Database)
  | answerPoll (fanoutDb : Database)
  | firstPage
  | pollFails
  | loadMore
  | answerMore (fanoutDb : Database)
  | morePage
  | moreFails (message : String)

/-- The list that a component shows, and how the server writes its items. -/
structure ActivityTab where
  list : ActivityList
  codec : Codec BroadcastCursor
  toText : List UInt8 → List UInt16

namespace ActivityTab

variable (tab : ActivityTab)

def get (db fanoutDb : Database) (cursorParam : Option String) :
    Except Refusal (Page BroadcastListItem String) :=
  tab.list.get tab.codec tab.toText db fanoutDb cursorParam

/-- The server answers the poll. -/
def answerPoll (fanoutDb : Database) (scene : ActivityScene) : ActivityScene :=
  match tab.get scene.server fanoutDb none with
  | .ok page => { scene with polled := some ⟨scene.server, page⟩ }
  | .error _ => scene

end ActivityTab

namespace ActivityScene

def firstPage (scene : ActivityScene) : ActivityScene :=
  match scene.polled with
  | none => scene
  | some answer =>
      { scene with
        view := scene.view.firstPage answer.page
        readAt :=
          if scene.view.data = some answer.page then scene.readAt
          else some answer.db
        polled := none }

/-- `handleLoadMore` up to its request.  The button is disabled while one is
under way. -/
def loadMore (scene : ActivityScene) : ActivityScene :=
  match scene.view.nextCursor with
  | none => scene
  | some cursor =>
      if cursor = "" ∨ scene.view.loadingMore = true then scene
      else
        { scene with
          view := { scene.view with loadingMore := true }
          request := some ⟨cursor, none⟩ }

def morePage (scene : ActivityScene) : ActivityScene :=
  match scene.request with
  | some ⟨_, some answer⟩ =>
      { scene with
        view := scene.view.morePage answer.page
        request := none }
  | _ => scene

def moreFails (message : String) (scene : ActivityScene) : ActivityScene :=
  match scene.request with
  | none => scene
  | some _ =>
      { scene with
        view := scene.view.moreFails message
        request := none }

/-! ### What the component can do -/

variable {scene : ActivityScene}

theorem firstPage_cases (scene : ActivityScene) :
    scene.firstPage = scene ∨
    (∃ answer, scene.polled = some answer ∧
      scene.view.data = some answer.page ∧
      scene.firstPage =
        { scene with
          view := { scene.view with loadMoreError := none }
          polled := none }) ∨
    ∃ answer, scene.polled = some answer ∧
      scene.view.data ≠ some answer.page ∧
      scene.firstPage =
        { scene with
          view := scene.view.firstPage answer.page
          readAt := some answer.db
          polled := none } := by
  cases hpolled : scene.polled with
  | none => exact Or.inl (by simp only [firstPage, hpolled])
  | some answer =>
      right
      by_cases hsame : scene.view.data = some answer.page
      · refine Or.inl ⟨answer, rfl, hsame, ?_⟩
        simp only [firstPage, hpolled, ActivityView.firstPage, if_pos hsame]
      · refine Or.inr ⟨answer, rfl, hsame, ?_⟩
        simp only [firstPage, hpolled, if_neg hsame]

theorem loadMore_cases (scene : ActivityScene) :
    scene.loadMore = scene ∨
    ∃ cursor, scene.view.nextCursor = some cursor ∧
      scene.loadMore =
        { scene with
          view := { scene.view with loadingMore := true }
          request := some ⟨cursor, none⟩ } := by
  cases hcursor : scene.view.nextCursor with
  | none => exact Or.inl (by simp only [loadMore, hcursor])
  | some cursor =>
      by_cases hidle : cursor = "" ∨ scene.view.loadingMore = true
      · exact Or.inl (by simp only [loadMore, hcursor, if_pos hidle])
      · refine Or.inr ⟨cursor, rfl, ?_⟩
        simp only [loadMore, hcursor, if_neg hidle]

theorem morePage_eq {cursor : String} {answer : Answer}
    (h : scene.request = some ⟨cursor, some answer⟩) :
    scene.morePage =
      { scene with
        view := scene.view.morePage answer.page
        request := none } := by
  simp only [morePage, h]

theorem morePage_cases (scene : ActivityScene) :
    scene.morePage = scene ∨
    ∃ cursor answer, scene.request = some ⟨cursor, some answer⟩ := by
  cases hrequest : scene.request with
  | none => exact Or.inl (by simp only [morePage, hrequest])
  | some request =>
      obtain ⟨cursor, answer⟩ := request
      cases answer with
      | none => exact Or.inl (by simp only [morePage, hrequest])
      | some answer => exact Or.inr ⟨cursor, answer, rfl⟩

theorem moreFails_cases (scene : ActivityScene) (message : String) :
    scene.moreFails message = scene ∨
    scene.moreFails message =
      { scene with
        view := scene.view.moreFails message
        request := none } := by
  cases hrequest : scene.request with
  | none => exact Or.inl (by simp only [moreFails, hrequest])
  | some request => exact Or.inr (by simp only [moreFails, hrequest])

end ActivityScene

namespace ActivityTab

variable (tab : ActivityTab)

/-- The server answers the request for more. -/
def answerMore (fanoutDb : Database) (scene : ActivityScene) : ActivityScene :=
  match scene.request with
  | some ⟨cursor, none⟩ =>
      match tab.get scene.server fanoutDb (some cursor) with
      | .ok page =>
          { scene with request := some ⟨cursor, some ⟨scene.server, page⟩⟩ }
      | .error _ => scene
  | _ => scene

def step (scene : ActivityScene) : ActivityEvent → ActivityScene
  | .serve db => { scene with server := db }
  | .answerPoll fanoutDb => tab.answerPoll fanoutDb scene
  | .firstPage => scene.firstPage
  | .pollFails => { scene with polled := none }
  | .loadMore => scene.loadMore
  | .answerMore fanoutDb => tab.answerMore fanoutDb scene
  | .morePage => scene.morePage
  | .moreFails message => scene.moreFails message

/-- The component is opened, and the first `n` of these events happen. -/
def run (db : Database) (events : List ActivityEvent) (n : ℕ) : ActivityScene :=
  (events.take n).foldl tab.step { server := db }

end ActivityTab

end WebhookBroadcast
