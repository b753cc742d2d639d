import WebhookBroadcast.Activity.View

/-!
# Loading more while polling

A fresh first page does not call back a request for more that is under way: the
page after the old cursor is then appended to the new first page, and its cursor
becomes the current one.  The items shown are a run of the list as it was when
its first page was read as long as each page arrives while the cursor that it
was asked for with is the current one, and behind it nothing has changed
(`Sound`).  Where Broadcasts only come in, nothing has (`Grown`), and the page
of another cursor always leaves a gap.
-/

namespace WebhookBroadcast

open Relational

namespace ActivityTab

variable (tab : ActivityTab)

/-! ## What is shown -/

/-- The Broadcasts that existed when the first page shown was read. -/
def listedThen (scene : ActivityScene) : List BroadcastCursor :=
  match scene.readAt with
  | none => []
  | some db => tab.list.listed db

theorem pairwise_listedThen (scene : ActivityScene) :
    (tab.listedThen scene).Pairwise (· < ·) := by
  rw [listedThen]
  split
  · exact List.Pairwise.nil
  · exact tab.list.pairwise_listed _

/-- The items shown are a run of the Broadcasts that existed, and the cursor
continues after the last one. -/
structure Contiguous (scene : ActivityScene) : Prop where
  isInfix : scene.view.items.map BroadcastListItem.cursor <:+:
    tab.listedThen scene
  continues : ∀ text ∈ scene.view.nextCursor,
    ∃ last ∈ scene.view.items.getLast?, text = tab.codec.encode last.cursor

/-! ## When a page arrives -/

/-- The page was asked for with the cursor that is still the current one. -/
def Current (scene : ActivityScene) : Prop :=
  ∀ request ∈ scene.request, request.answer.isSome = true →
    scene.view.nextCursor = some request.cursor

/-- The request found behind its cursor what was there when the first page shown
was read. -/
def KeptBehind (scene : ActivityScene) : Prop :=
  ∀ request ∈ scene.request, ∀ answer ∈ request.answer,
    ∀ q ∈ tab.codec.decode request.cursor, ∀ k, q < k →
      (k ∈ tab.list.listed answer.db ↔ k ∈ tab.listedThen scene)

/-! ## The invariant -/

/-- The page after the cursor, as the database lists it. -/
def Reads (answer : Answer) (cursor : Option BroadcastCursor) : Prop :=
  answer.page.map BroadcastListItem.cursor =
    (cut (tab.list.listed answer.db) DEFAULT_BROADCAST_LIMIT cursor).encoded
      tab.codec

/-- The items shown begin the list as it was when its first page was read, and
each page under way was read after its cursor. -/
structure Sound (scene : ActivityScene) : Prop where
  shown : ∃ next, Begins (tab.listedThen scene)
      (scene.view.items.map BroadcastListItem.cursor) next ∧
    scene.view.nextCursor = next.map tab.codec.encode
  polled : ∀ answer ∈ scene.polled, tab.Reads answer none
  request : ∀ request ∈ scene.request, ∃ q,
    request.cursor = tab.codec.encode q ∧
      ∀ answer ∈ request.answer, tab.Reads answer (some q)

variable {tab} {scene : ActivityScene}

theorem Sound.contiguous (h : tab.Sound scene) : tab.Contiguous scene := by
  obtain ⟨next, hbegins, hnext⟩ := h.shown
  refine ⟨hbegins.isPrefix.isInfix, fun text htext => ?_⟩
  rw [hnext, Option.mem_map] at htext
  obtain ⟨q, rfl, rfl⟩ := htext
  have hlast := (hbegins.eq_append_filter (tab.pairwise_listedThen scene)).1
  rw [List.getLast?_map, Option.map_eq_some_iff] at hlast
  obtain ⟨last, hlast, rfl⟩ := hlast
  exact ⟨last, hlast, rfl⟩

theorem sound_opened (db : Database) : tab.Sound { server := db } where
  shown := ⟨none, begins_nil, rfl⟩
  polled _ h := nomatch h
  request _ h := nomatch h

variable (tab) in
theorem answerPoll_eq (fanoutDb : Database) (scene : ActivityScene) :
    ∃ answer, tab.answerPoll fanoutDb scene =
        { scene with polled := some answer } ∧
      answer.db = scene.server ∧ tab.Reads answer none := by
  obtain ⟨page, hget, hpage⟩ := tab.list.get_encode tab.codec tab.toText
    scene.server fanoutDb none
  refine ⟨⟨scene.server, page⟩, ?_, rfl, hpage⟩
  rw [Option.map_none] at hget
  rw [answerPoll, get, hget]

theorem Sound.answerPoll (h : tab.Sound scene) (fanoutDb : Database) :
    tab.Sound (tab.answerPoll fanoutDb scene) := by
  obtain ⟨answer, heq, -, hreads⟩ := tab.answerPoll_eq fanoutDb scene
  rw [heq]
  refine ⟨h.shown, fun other hother => ?_, h.request⟩
  cases hother
  exact hreads

theorem Reads.items {answer : Answer} {cursor : Option BroadcastCursor}
    (h : tab.Reads answer cursor) :
    answer.page.items.map BroadcastListItem.cursor =
      (cut (tab.list.listed answer.db) DEFAULT_BROADCAST_LIMIT cursor).items :=
  congrArg Page.items h

theorem Reads.next {answer : Answer} {cursor : Option BroadcastCursor}
    (h : tab.Reads answer cursor) :
    answer.page.next = (cut (tab.list.listed answer.db) DEFAULT_BROADCAST_LIMIT
      cursor).next.map tab.codec.encode :=
  congrArg Page.next h

theorem Sound.firstPage (h : tab.Sound scene) : tab.Sound scene.firstPage := by
  rcases scene.firstPage_cases with
    heq | ⟨answer, -, -, heq⟩ | ⟨answer, hpolled, hother, heq⟩
  · rwa [heq]
  · rw [heq]
    exact ⟨h.shown, fun _ hnone => (nomatch hnone), h.request⟩
  · rw [heq]
    have hreads := h.polled answer hpolled
    refine ⟨⟨(cut (tab.list.listed answer.db) DEFAULT_BROADCAST_LIMIT
      none).next, ?_, ?_⟩, fun _ hnone => (nomatch hnone), h.request⟩
    · rw [ActivityView.items_firstPage_of_ne hother, hreads.items]
      exact begins_cut (by decide)
    · rw [ActivityView.firstPage, if_neg hother]
      exact hreads.next

theorem Sound.loadMore (h : tab.Sound scene) : tab.Sound scene.loadMore := by
  rcases scene.loadMore_cases with heq | ⟨cursor, hcursor, heq⟩
  · rwa [heq]
  · rw [heq]
    refine ⟨h.shown, h.polled, fun request hrequest => ?_⟩
    cases hrequest
    obtain ⟨next, -, hnext⟩ := h.shown
    rw [hnext, Option.map_eq_some_iff] at hcursor
    obtain ⟨q, -, rfl⟩ := hcursor
    exact ⟨q, rfl, fun _ hnone => (nomatch hnone)⟩

variable (tab) in
theorem answerMore_eq {q : BroadcastCursor}
    (hrequest : scene.request = some ⟨tab.codec.encode q, none⟩)
    (fanoutDb : Database) :
    ∃ answer, tab.answerMore fanoutDb scene =
        { scene with request := some ⟨tab.codec.encode q, some answer⟩ } ∧
      answer.db = scene.server ∧ tab.Reads answer (some q) := by
  obtain ⟨page, hget, hpage⟩ := tab.list.get_encode tab.codec tab.toText
    scene.server fanoutDb (some q)
  refine ⟨⟨scene.server, page⟩, ?_, rfl, hpage⟩
  rw [Option.map_some] at hget
  simp only [answerMore, hrequest, get, hget]

theorem Sound.answerMore_cases (h : tab.Sound scene) (fanoutDb : Database) :
    tab.answerMore fanoutDb scene = scene ∨
    ∃ q answer, scene.request = some ⟨tab.codec.encode q, none⟩ ∧
      tab.answerMore fanoutDb scene =
        { scene with request := some ⟨tab.codec.encode q, some answer⟩ } ∧
      answer.db = scene.server ∧ tab.Reads answer (some q) := by
  cases hrequest : scene.request with
  | none => exact Or.inl (by simp only [ActivityTab.answerMore, hrequest])
  | some request =>
      obtain ⟨cursor, answer⟩ := request
      cases answer with
      | some answer =>
          exact Or.inl (by simp only [ActivityTab.answerMore, hrequest])
      | none =>
          obtain ⟨q, rfl, -⟩ := h.request _ hrequest
          obtain ⟨answer, hanswer⟩ := tab.answerMore_eq hrequest fanoutDb
          exact Or.inr ⟨q, answer, rfl, hanswer⟩

theorem Sound.answerMore (h : tab.Sound scene) (fanoutDb : Database) :
    tab.Sound (tab.answerMore fanoutDb scene) := by
  rcases h.answerMore_cases fanoutDb with
    heq | ⟨q, answer, -, heq, -, hreads⟩
  · rwa [heq]
  · rw [heq]
    refine ⟨h.shown, h.polled, fun request hrequest => ⟨q, ?_⟩⟩
    cases hrequest
    refine ⟨rfl, fun other hother => ?_⟩
    cases hother
    exact hreads

theorem Sound.moreFails (h : tab.Sound scene) (message : String) :
    tab.Sound (scene.moreFails message) := by
  rcases scene.moreFails_cases message with heq | heq
  · rwa [heq]
  · rw [heq]
    exact ⟨h.shown, h.polled, fun _ hnone => (nomatch hnone)⟩

theorem encode_injective : Function.Injective tab.codec.encode := by
  intro q q' h
  have hdecode := tab.codec.decode_encode q
  rw [h, tab.codec.decode_encode] at hdecode
  exact (Option.some.inj hdecode).symm

/-- A page that comes in time continues what is shown. -/
theorem Sound.morePage (h : tab.Sound scene) (hcurrent : Current scene)
    (hkept : tab.KeptBehind scene) : tab.Sound scene.morePage := by
  rcases scene.morePage_cases with heq | ⟨cursor, answer, hrequest⟩
  · rwa [heq]
  · obtain ⟨q, rfl, hanswer⟩ := h.request _ hrequest
    have hreads := hanswer answer rfl
    obtain ⟨next, hbegins, hnext⟩ := h.shown
    obtain rfl : some q = next := by
      rw [hcurrent _ hrequest rfl] at hnext
      exact Option.map_injective encode_injective hnext
    have hsorted := tab.pairwise_listedThen scene
    have hne : scene.view.items ≠ [] := by
      intro hnil
      have hlast := (hbegins.eq_append_filter hsorted).1
      rw [hnil] at hlast
      cases hlast
    rw [ActivityScene.morePage_eq hrequest]
    refine ⟨⟨_, ?_, hreads.next⟩, h.polled, fun _ hnone => (nomatch hnone)⟩
    rw [ActivityView.items_morePage hne, List.map_append, hreads.items]
    exact hbegins.append hsorted (tab.list.pairwise_listed answer.db)
      (hkept _ hrequest answer rfl q (tab.codec.decode_encode q)) (by decide)

/-! ## A server where Broadcasts only come in -/

variable (tab) in
/-- What was read is still there, behind what has come in since, and a request
under way is for a page with something on it. -/
structure Grown (scene : ActivityScene) : Prop where
  shown : tab.listedThen scene <:+ tab.list.listed scene.server
  polled : ∀ answer ∈ scene.polled,
    tab.listedThen scene <:+ tab.list.listed answer.db ∧
      tab.list.listed answer.db <:+ tab.list.listed scene.server
  request : ∀ request ∈ scene.request,
    ∀ q ∈ tab.codec.decode request.cursor,
      Followed (tab.listedThen scene) q ∧ ∀ answer ∈ request.answer,
        Followed (tab.list.listed answer.db) q ∧
          tab.list.listed answer.db <:+ tab.list.listed scene.server

theorem grown_opened (db : Database) : tab.Grown { server := db } where
  shown := List.nil_suffix
  polled _ h := nomatch h
  request _ h := nomatch h

theorem Grown.serve (h : tab.Grown scene) {db : Database}
    (hgrows : tab.list.listed scene.server <:+ tab.list.listed db) :
    tab.Grown { scene with server := db } where
  shown := h.shown.trans hgrows
  polled answer hanswer :=
    ⟨(h.polled answer hanswer).1, (h.polled answer hanswer).2.trans hgrows⟩
  request request hrequest q hq := by
    obtain ⟨hfollowed, hanswered⟩ := h.request request hrequest q hq
    refine ⟨hfollowed, fun answer hanswer => ?_⟩
    obtain ⟨hfound, hsuffix⟩ := hanswered answer hanswer
    exact ⟨hfound, hsuffix.trans hgrows⟩

theorem Grown.answerPoll (h : tab.Grown scene) (fanoutDb : Database) :
    tab.Grown (tab.answerPoll fanoutDb scene) := by
  obtain ⟨answer, heq, hdb, -⟩ := tab.answerPoll_eq fanoutDb scene
  rw [heq]
  refine ⟨h.shown, fun other hother => ?_, h.request⟩
  cases hother
  rw [hdb]
  exact ⟨h.shown, List.suffix_refl _⟩

theorem Grown.firstPage (h : tab.Grown scene) : tab.Grown scene.firstPage := by
  rcases scene.firstPage_cases with
    heq | ⟨answer, -, -, heq⟩ | ⟨answer, hpolled, -, heq⟩
  · rwa [heq]
  · rw [heq]
    exact ⟨h.shown, fun _ hnone => (nomatch hnone), h.request⟩
  · rw [heq]
    obtain ⟨hnewer, hsuffix⟩ := h.polled answer hpolled
    refine ⟨hsuffix, fun _ hnone => (nomatch hnone), ?_⟩
    intro request hrequest q hq
    obtain ⟨hfollowed, hanswered⟩ := h.request request hrequest q hq
    exact ⟨hfollowed.of_suffix hnewer, hanswered⟩

theorem Grown.loadMore (h : tab.Grown scene) (hsound : tab.Sound scene) :
    tab.Grown scene.loadMore := by
  rcases scene.loadMore_cases with heq | ⟨cursor, hcursor, heq⟩
  · rwa [heq]
  · rw [heq]
    refine ⟨h.shown, h.polled, fun request hrequest q hq => ?_⟩
    cases hrequest
    refine ⟨?_, fun _ hnone => (nomatch hnone)⟩
    obtain ⟨next, hbegins, hnext⟩ := hsound.shown
    rw [hnext, Option.map_eq_some_iff] at hcursor
    obtain ⟨q', rfl, rfl⟩ := hcursor
    obtain rfl : q' = q :=
      Option.some.inj ((tab.codec.decode_encode q').symm.trans hq)
    exact hbegins.followed (tab.pairwise_listedThen scene)

theorem Grown.answerMore (h : tab.Grown scene) (hsound : tab.Sound scene)
    (fanoutDb : Database) : tab.Grown (tab.answerMore fanoutDb scene) := by
  rcases hsound.answerMore_cases fanoutDb with
    heq | ⟨q, answer, hasked, heq, hdb, -⟩
  · rwa [heq]
  · rw [heq]
    refine ⟨h.shown, h.polled, fun request hrequest q' hq' => ?_⟩
    cases hrequest
    obtain ⟨hfollowed, -⟩ := h.request _ hasked q' hq'
    refine ⟨hfollowed, fun other hother => ?_⟩
    cases hother
    rw [hdb]
    exact ⟨hfollowed.of_suffix h.shown, List.suffix_refl _⟩

theorem Grown.morePage (h : tab.Grown scene) : tab.Grown scene.morePage := by
  rcases scene.morePage_cases with heq | ⟨cursor, answer, hrequest⟩
  · rwa [heq]
  · rw [ActivityScene.morePage_eq hrequest]
    exact ⟨h.shown, h.polled, fun _ hnone => (nomatch hnone)⟩

theorem Grown.moreFails (h : tab.Grown scene) (message : String) :
    tab.Grown (scene.moreFails message) := by
  rcases scene.moreFails_cases message with heq | heq
  · rwa [heq]
  · rw [heq]
    exact ⟨h.shown, h.polled, fun _ hnone => (nomatch hnone)⟩

/-- Nothing has come in behind the cursor of a request. -/
theorem Grown.keptBehind (h : tab.Grown scene) : tab.KeptBehind scene := by
  intro request hrequest answer hanswer q hq k hlt
  obtain ⟨hthen, hanswered⟩ := h.request request hrequest q hq
  obtain ⟨hfound, hsuffix⟩ := hanswered answer hanswer
  exact mem_iff_mem_of_suffix (tab.list.pairwise_listed scene.server) hsuffix
    h.shown hfound.1 hthen.1 hlt

/-- A page that leaves no gap was asked for with the current cursor. -/
theorem Grown.current (h : tab.Grown scene) (hsound : tab.Sound scene)
    (hafter : tab.Contiguous scene.morePage) : Current scene := by
  intro request hrequest hanswered
  obtain ⟨cursor, answer⟩ := request
  cases answer with
  | none => cases hanswered
  | some answer =>
      obtain ⟨q, rfl, hreads⟩ := hsound.request _ hrequest
      obtain ⟨next, hbegins, hnext⟩ := hsound.shown
      obtain ⟨hthen, hanswer⟩ :=
        h.request _ hrequest q (tab.codec.decode_encode q)
      obtain ⟨hfound, hsuffix⟩ := hanswer answer rfl
      have hne : scene.view.items ≠ [] := by
        intro hnil
        rw [hnil] at hbegins
        rw [hbegins.nonempty rfl] at hthen
        exact List.not_mem_nil hthen.1
      have happend := hafter.isInfix
      rw [ActivityScene.morePage_eq hrequest] at happend
      rw [ActivityView.items_morePage hne, List.map_append,
        (hreads answer rfl).items] at happend
      obtain rfl := hbegins.next_eq_of_append
        (tab.list.pairwise_listed scene.server) h.shown hsuffix hfound
        (by decide) happend
      exact hnext

/-! ## Runs -/

section Runs

variable {db : Database} {events : List ActivityEvent}

theorem run_succ {n : ℕ} {event : ActivityEvent}
    (h : events[n]? = some event) :
    tab.run db events (n + 1) = tab.step (tab.run db events n) event := by
  rw [run, run, List.take_add_one, h, Option.toList_some, List.foldl_append]
  rfl

/-- What holds at the opening and after each event of a run holds throughout. -/
theorem run_induction {P : ActivityScene → Prop} (hopened : P { server := db })
    (hstep : ∀ n event, events[n]? = some event → P (tab.run db events n) →
      P (tab.step (tab.run db events n) event)) :
    ∀ n, P (tab.run db events n)
  | 0 => hopened
  | n + 1 => by
      have hn := run_induction hopened hstep n
      cases hevent : events[n]? with
      | none =>
          rw [run, List.take_add_one, hevent, Option.toList_none,
            List.append_nil]
          exact hn
      | some event =>
          rw [run_succ hevent]
          exact hstep n event hevent hn

end Runs

theorem Sound.step (h : tab.Sound scene) {event : ActivityEvent}
    (hmore : event = .morePage → Current scene ∧ tab.KeptBehind scene) :
    tab.Sound (tab.step scene event) := by
  cases event with
  | serve db => exact ⟨h.shown, h.polled, h.request⟩
  | answerPoll fanoutDb => exact h.answerPoll fanoutDb
  | firstPage => exact h.firstPage
  | pollFails => exact ⟨h.shown, fun _ hnone => (nomatch hnone), h.request⟩
  | loadMore => exact h.loadMore
  | answerMore fanoutDb => exact h.answerMore fanoutDb
  | morePage => exact h.morePage (hmore rfl).1 (hmore rfl).2
  | moreFails message => exact h.moreFails message

theorem Grown.step (h : tab.Grown scene) (hsound : tab.Sound scene)
    {event : ActivityEvent}
    (hserve : ∀ db, event = .serve db →
      tab.list.listed scene.server <:+ tab.list.listed db) :
    tab.Grown (tab.step scene event) := by
  cases event with
  | serve db => exact h.serve (hserve db rfl)
  | answerPoll fanoutDb => exact h.answerPoll fanoutDb
  | firstPage => exact h.firstPage
  | pollFails => exact ⟨h.shown, fun _ hnone => (nomatch hnone), h.request⟩
  | loadMore => exact h.loadMore hsound
  | answerMore fanoutDb => exact h.answerMore hsound fanoutDb
  | morePage => exact h.morePage
  | moreFails message => exact h.moreFails message

section Runs

variable {db : Database} {events : List ActivityEvent}

/-- Every page comes in time. -/
theorem sound_run (hmore : ∀ n, events[n]? = some .morePage →
      Current (tab.run db events n) ∧ tab.KeptBehind (tab.run db events n)) :
    ∀ n, tab.Sound (tab.run db events n) :=
  run_induction (sound_opened db) fun n _ hevent hsound =>
    hsound.step fun heq => hmore n (heq ▸ hevent)

variable (tab db events) in
/-- Whatever the server does, Broadcasts come in ahead of those that are listed
and none is lost. -/
def OnlyNewer : Prop :=
  ∀ n db', events[n]? = some (.serve db') →
    tab.list.listed (tab.run db events n).server <:+ tab.list.listed db'

theorem grown_run (hnewer : tab.OnlyNewer db events)
    (hmore : ∀ n, events[n]? = some .morePage → tab.Sound (tab.run db events n) →
      tab.Grown (tab.run db events n) → Current (tab.run db events n)) :
    ∀ n, tab.Sound (tab.run db events n) ∧ tab.Grown (tab.run db events n) := by
  refine run_induction (P := fun scene => tab.Sound scene ∧ tab.Grown scene)
    ⟨sound_opened db, grown_opened db⟩ ?_
  intro n event hevent ⟨hsound, hgrown⟩
  refine ⟨hsound.step fun heq => ?_, hgrown.step hsound fun db' heq => ?_⟩
  · subst heq
    exact ⟨hmore n hevent hsound hgrown, hgrown.keptBehind⟩
  · subst heq
    exact hnewer n db' hevent

end Runs

end ActivityTab

/-- What is shown is a run of the list as long as each page arrives while its
cursor is the current one and what lies behind it is what was there.  Where
Broadcasts only come in, the cursor decides. -/
theorem loadMore_contiguous (tab : ActivityTab) (db : Database)
    (events : List ActivityEvent) :
    ((∀ n, events[n]? = some .morePage →
        ActivityTab.Current (tab.run db events n) ∧
          tab.KeptBehind (tab.run db events n)) →
      ∀ n, tab.Contiguous (tab.run db events n)) ∧
    (tab.OnlyNewer db events →
      ((∀ n, tab.Contiguous (tab.run db events n)) ↔
        ∀ n, events[n]? = some .morePage →
          ActivityTab.Current (tab.run db events n))) := by
  refine ⟨fun hmore n => (ActivityTab.sound_run hmore n).contiguous,
    fun hnewer => ?_⟩
  constructor
  · intro hcontiguous n hn
    -- a page that comes too late would already have left a gap
    have hmore : ∀ n, events[n]? = some .morePage →
        tab.Sound (tab.run db events n) → tab.Grown (tab.run db events n) →
          ActivityTab.Current (tab.run db events n) := by
      intro n hn hsound hgrown
      have hafter := hcontiguous (n + 1)
      rw [ActivityTab.run_succ hn] at hafter
      exact hgrown.current hsound hafter
    obtain ⟨hsound, hgrown⟩ := ActivityTab.grown_run hnewer hmore n
    exact hmore n hn hsound hgrown
  · intro hcurrent n
    exact (ActivityTab.grown_run hnewer
      (fun n hn _ _ => hcurrent n hn) n).1.contiguous

/-! ## Requests in flight -/

namespace ActivityTab

variable (tab : ActivityTab)

/-- A poll that is answered and arrives. -/
theorem exists_poll (fanoutDb : Database) (scene : ActivityScene) :
    ∃ answer : Answer, answer.db = scene.server ∧ tab.Reads answer none ∧
      (tab.answerPoll fanoutDb scene).firstPage =
        { scene with
          view := scene.view.firstPage answer.page
          readAt :=
            if scene.view.data = some answer.page then scene.readAt
            else some scene.server
          polled := none } := by
  obtain ⟨answer, hpoll, hdb, hreads⟩ := tab.answerPoll_eq fanoutDb scene
  refine ⟨answer, hdb, hreads, ?_⟩
  rw [hpoll, ← hdb]
  rfl

/-- The first page is read and shown, and the next one is asked for and read. -/
def asked (db : Database) : List ActivityEvent :=
  [.answerPoll db, .firstPage, .loadMore, .answerMore db]

/-- The component then, and what the server has become since. -/
def waiting (server db : Database) (q : BroadcastCursor) (first : Answer)
    (more : Option Answer) : ActivityScene where
  server := server
  view :=
    { data := some first.page
      nextCursor := some (tab.codec.encode q)
      loadingMore := true }
  readAt := some db
  request := some ⟨tab.codec.encode q, more⟩

theorem exists_asked {db : Database} {q : BroadcastCursor}
    (hnext : (cut (tab.list.listed db) DEFAULT_BROADCAST_LIMIT none).next =
      some q) :
    ∃ first more : Answer, first.db = db ∧ tab.Reads first none ∧
      more.db = db ∧ tab.Reads more (some q) ∧ ∀ later,
        tab.run db (asked db ++ later) 4 =
          tab.waiting db db q first (some more) := by
  obtain ⟨first, hdb, hfirst, hpoll⟩ := tab.exists_poll db { server := db }
  have hcursor : first.page.next = some (tab.codec.encode q) := by
    rw [hfirst.next, hdb, hnext, Option.map_some]
  obtain ⟨more, hmore, hdb', hreads⟩ :=
    tab.answerMore_eq (rfl : (tab.waiting db db q first none).request = _) db
  refine ⟨first, more, hdb, hfirst, hdb', hreads, fun later => ?_⟩
  have hload : ActivityScene.loadMore
      { server := db
        view := ActivityView.firstPage {} first.page
        readAt := some db } = tab.waiting db db q first none := by
    simp [ActivityScene.loadMore, ActivityView.firstPage, hcursor, waiting,
      tab.codec.encode_ne_empty]
  change tab.answerMore db (ActivityScene.loadMore
    (tab.answerPoll db { server := db }).firstPage) = _
  rw [hpoll]
  exact (congrArg (tab.answerMore db) hload).trans hmore

end ActivityTab

/-! ## Fifty-one Broadcasts -/

/-- A Broadcast that is received in this millisecond. -/
def broadcastAt (n : ℕ) : BroadcastRow :=
  ⟨BitVec.ofNat 128 n, 0, n, "text/plain", [], .empty⟩

def fiftyOneBroadcasts : Database :=
  { Database.withEndpoints
      ⟨0, "orders", none, true, [], false, none, none, 0, 0⟩ [] with
    broadcasts := ⟨(List.range' 1 51).map broadcastAt, by decide +kernel⟩
    broadcast_channel := by
      intro b hb
      obtain ⟨n, -, rfl⟩ := List.mem_map.mp hb
      exact ⟨_, List.mem_singleton_self _, rfl⟩
    delivery_broadcast := fun _ h => absurd h List.not_mem_nil }

/-- One more is accepted. -/
def fiftyTwoBroadcasts : Database :=
  Transaction.commit ⟨broadcastAt 52, []⟩ fiftyOneBroadcasts

theorem ActivityList.listed_broadcastsAt {db : Database} {n : ℕ}
    (hrows : db.broadcasts.rows = (List.range' 1 n).map broadcastAt) :
    (ActivityList.all 0).listed db =
      (List.range' 1 n).reverse.map fun i => (broadcastAt i).cursor := by
  refine List.Pairwise.eq_of_mem_iff (r := (· < ·))
    (ActivityList.pairwise_listed _ db) ?_ ?_
  · rw [List.pairwise_map, List.pairwise_reverse]
    refine (List.pairwise_lt_range').imp fun hlt => ?_
    exact BroadcastRow.cursor_lt.mpr
      (Prod.Lex.toLex_lt_toLex.mpr (Or.inl (Int.ofNat_lt.mpr hlt)))
  · intro k
    rw [ActivityList.mem_listed]
    simp only [Table.mem_def, hrows, List.mem_map, List.mem_reverse]
    constructor
    · rintro ⟨_, ⟨i, hi, rfl⟩, -, rfl⟩
      exact ⟨i, hi, rfl⟩
    · rintro ⟨i, hi, rfl⟩
      exact ⟨_, ⟨i, hi, rfl⟩, rfl, rfl⟩

theorem next_cut_broadcastsAt {db : Database} {n : ℕ}
    (hrows : db.broadcasts.rows = (List.range' 1 (n + 51)).map broadcastAt) :
    (cut ((ActivityList.all 0).listed db) DEFAULT_BROADCAST_LIMIT none).next =
      some (broadcastAt (n + 2)).cursor := by
  rw [ActivityList.listed_broadcastsAt hrows]
  simp only [cut, filter_after_none]
  rw [if_neg (by simp [DEFAULT_BROADCAST_LIMIT])]
  rw [← List.map_take, List.getLast?_map, List.take_reverse,
    List.getLast?_reverse, List.head?_drop, List.length_range',
    List.getElem?_range' (by simp [DEFAULT_BROADCAST_LIMIT])]
  simp [DEFAULT_BROADCAST_LIMIT, Nat.add_comm 1]

/-- The cursors after the second and the third Broadcast are written as the
base64url texts of their JSON. -/
noncomputable def cursorsOfTwo : Codec BroadcastCursor :=
  (Codec.writing (broadcastAt 2).cursor
    ("eyJyZWNlaXZlZEF0IjoiMTk3MC0wMS0wMVQwMDowMDowMC4wMDJaIiwiaWQiOi" ++
      "IwMDAwMDAwMC0wMDAwLTAwMDAtMDAwMC0wMDAwMDAwMDAwMDIifQ")
    BroadcastCursor.numbers (by simp) BroadcastCursor.numbers_injective).also
      (broadcastAt 3).cursor
      ("eyJyZWNlaXZlZEF0IjoiMTk3MC0wMS0wMVQwMDowMDowMC4wMDNaIiwiaWQiOi" ++
        "IwMDAwMDAwMC0wMDAwLTAwMDAtMDAwMC0wMDAwMDAwMDAwMDMifQ")
      (by simp) (textOr_ne (by simp) (by simp))

/-- The Activity list of the Channel, with bodies that are ASCII. -/
noncomputable def ordersTab : ActivityTab :=
  ⟨.all 0, cursorsOfTwo, List.map UInt8.toUInt16⟩

theorem rows_fiftyOneBroadcasts : fiftyOneBroadcasts.broadcasts.rows =
    (List.range' 1 (0 + 51)).map broadcastAt :=
  rfl

theorem rows_fiftyTwoBroadcasts : fiftyTwoBroadcasts.broadcasts.rows =
    (List.range' 1 (1 + 51)).map broadcastAt := by
  decide +kernel

theorem next_page_broadcastsAt {db : Database} {n : ℕ}
    (hrows : db.broadcasts.rows = (List.range' 1 (n + 51)).map broadcastAt)
    {answer : Answer} (hdb : answer.db = db)
    (hreads : ordersTab.Reads answer none) :
    answer.page.next =
      some (ordersTab.codec.encode (broadcastAt (n + 2)).cursor) := by
  rw [hreads.next, hdb]
  exact congrArg _ (next_cut_broadcastsAt hrows)

theorem onlyNewer_asked {later : List ActivityEvent}
    (hlater : ∀ db, .serve db ∉ later) :
    ordersTab.OnlyNewer fiftyOneBroadcasts
      (ActivityTab.asked fiftyOneBroadcasts ++
        .serve fiftyTwoBroadcasts :: later) := by
  intro n db hn
  rcases n with _ | _ | _ | _ | _ | n
  · cases hn
  · cases hn
  · cases hn
  · cases hn
  · cases hn
    obtain ⟨first, more, -, -, -, -, hasked⟩ :=
      ordersTab.exists_asked (next_cut_broadcastsAt rows_fiftyOneBroadcasts)
    rw [hasked]
    refine ActivityList.suffix_listed_commit _ (fun b hb => ?_)
      fun d hd => absurd hd List.not_mem_nil
    obtain ⟨i, hi, rfl⟩ := List.mem_map.mp hb
    have hlt := (List.mem_range'_1.mp hi).2
    exact Int.ofNat_lt.mpr hlt
  · have hmem : later[n]? = some (.serve db) := hn
    exact absurd (List.mem_of_getElem? hmem) (hlater db)

/-- A Broadcast is accepted before the second page arrives. -/
def inTime : List ActivityEvent :=
  ActivityTab.asked fiftyOneBroadcasts ++
    [.serve fiftyTwoBroadcasts, .morePage]

theorem loadMore_contiguous_inTime :
    (∀ n, ordersTab.Contiguous (ordersTab.run fiftyOneBroadcasts inTime n)) ∧
      ((∀ n, ordersTab.Contiguous
          (ordersTab.run fiftyOneBroadcasts inTime n)) ↔
        ∀ n, inTime[n]? = some .morePage →
          ActivityTab.Current (ordersTab.run fiftyOneBroadcasts inTime n)) := by
  have hmore : ∀ n, inTime[n]? = some .morePage →
      ActivityTab.Current (ordersTab.run fiftyOneBroadcasts inTime n) ∧
        ordersTab.KeptBehind (ordersTab.run fiftyOneBroadcasts inTime n) := by
    intro n hn
    obtain rfl : n = 5 := by
      rcases n with _ | _ | _ | _ | _ | _ | n <;> cases hn
      rfl
    obtain ⟨first, more, -, -, hdb, -, hasked⟩ :=
      ordersTab.exists_asked (next_cut_broadcastsAt rows_fiftyOneBroadcasts)
    rw [ActivityTab.run_succ
      (rfl : inTime[4]? = some (.serve _)), inTime, hasked]
    refine ⟨fun request hrequest _ => ?_, ?_⟩
    · cases hrequest
      rfl
    · intro request hrequest answer hanswer q hq k hlt
      cases hrequest
      cases hanswer
      rw [hdb]
      exact Iff.rfl
  exact ⟨(loadMore_contiguous ordersTab fiftyOneBroadcasts inTime).1 hmore,
    (loadMore_contiguous ordersTab fiftyOneBroadcasts inTime).2
      (onlyNewer_asked (by simp))⟩

theorem items_cut_fiftyTwoBroadcasts :
    (cut ((ActivityList.all 0).listed fiftyTwoBroadcasts)
      DEFAULT_BROADCAST_LIMIT none).items =
      (List.range' 3 50).reverse.map fun n => (broadcastAt n).cursor := by
  rw [ActivityList.listed_broadcastsAt rows_fiftyTwoBroadcasts]
  decide +kernel

theorem items_cut_fiftyOneBroadcasts :
    (cut ((ActivityList.all 0).listed fiftyOneBroadcasts)
      DEFAULT_BROADCAST_LIMIT (some (broadcastAt 2).cursor)).items =
      [(broadcastAt 1).cursor] := by
  rw [ActivityList.listed_broadcastsAt rows_fiftyOneBroadcasts]
  decide +kernel

/-- The first page with the new Broadcast is another one. -/
theorem page_ne_page {first fresh : Answer}
    (hfirstdb : first.db = fiftyOneBroadcasts)
    (hfirst : ordersTab.Reads first none)
    (hfreshdb : fresh.db = fiftyTwoBroadcasts)
    (hfresh : ordersTab.Reads fresh none) :
    some first.page ≠ some fresh.page := by
  intro h
  have hcursors := congrArg Page.next (Option.some.inj h)
  rw [next_page_broadcastsAt rows_fiftyOneBroadcasts hfirstdb hfirst,
    next_page_broadcastsAt rows_fiftyTwoBroadcasts hfreshdb
      hfresh] at hcursors
  have hsame := ActivityTab.encode_injective (Option.some.inj hcursors)
  revert hsame
  decide

/-- A Broadcast is accepted before the second page arrives, and the poll brings
the first page that it is on. -/
def overtaken : List ActivityEvent :=
  ActivityTab.asked fiftyOneBroadcasts ++
    [.serve fiftyTwoBroadcasts, .answerPoll fiftyTwoBroadcasts, .firstPage,
      .morePage]

/-- Behind the new first page stands the page that followed the old one. -/
theorem exists_overtaken :
    ∃ view : ActivityView,
      view.items.map BroadcastListItem.cursor =
          ((List.range' 3 50).reverse ++ [1]).map
            (fun n => (broadcastAt n).cursor) ∧
        ordersTab.run fiftyOneBroadcasts overtaken 8 =
          { server := fiftyTwoBroadcasts
            view := view
            readAt := some fiftyTwoBroadcasts } := by
  obtain ⟨first, more, hdb, hfirst, hmoredb, hmore, hasked⟩ :=
    ordersTab.exists_asked (next_cut_broadcastsAt rows_fiftyOneBroadcasts)
  obtain ⟨fresh, hfreshdb, hfresh, hpoll⟩ := ordersTab.exists_poll
    fiftyTwoBroadcasts (ordersTab.waiting fiftyTwoBroadcasts
      fiftyOneBroadcasts (broadcastAt 2).cursor first (some more))
  have hother := page_ne_page hdb hfirst hfreshdb hfresh
  have hshown : ((ordersTab.waiting fiftyTwoBroadcasts
      fiftyOneBroadcasts (broadcastAt 2).cursor first
        (some more)).view.firstPage fresh.page).items = fresh.page.items :=
    ActivityView.items_firstPage_of_ne hother
  have hfreshkeys : fresh.page.items.map BroadcastListItem.cursor =
      (List.range' 3 50).reverse.map fun n => (broadcastAt n).cursor := by
    rw [hfresh.items, hfreshdb]
    exact items_cut_fiftyTwoBroadcasts
  have hmorekeys : more.page.items.map BroadcastListItem.cursor =
      [(broadcastAt 1).cursor] := by
    rw [hmore.items, hmoredb]
    exact items_cut_fiftyOneBroadcasts
  have hne : fresh.page.items ≠ [] := by
    intro hnil
    rw [hnil] at hfreshkeys
    exact absurd (congrArg List.length hfreshkeys) (by simp)
  refine ⟨((ordersTab.waiting fiftyTwoBroadcasts fiftyOneBroadcasts
    (broadcastAt 2).cursor first (some more)).view.firstPage
      fresh.page).morePage more.page, ?_, ?_⟩
  · rw [ActivityView.items_morePage (hshown ▸ hne), hshown, List.map_append,
      hfreshkeys, hmorekeys, List.map_append]
    rfl
  · change ActivityScene.morePage (ordersTab.answerPoll fiftyTwoBroadcasts
      (ordersTab.step (ordersTab.run fiftyOneBroadcasts overtaken 4)
        (.serve fiftyTwoBroadcasts))).firstPage = _
    rw [overtaken, hasked]
    refine (congrArg ActivityScene.morePage hpoll).trans ?_
    rw [ActivityScene.morePage_eq rfl]
    congr 1
    exact if_neg hother

/-- The second Broadcast is missing between the third and the first. -/
theorem overtaken_gap :
    ordersTab.OnlyNewer fiftyOneBroadcasts overtaken ∧
      ((ordersTab.run fiftyOneBroadcasts overtaken 8).view.items.map
          fun item => item.id) =
        ((List.range' 3 50).reverse ++ [1]).map (BitVec.ofNat 128) ∧
      ¬ ordersTab.Contiguous
        (ordersTab.run fiftyOneBroadcasts overtaken 8) := by
  obtain ⟨view, hitems, hrun⟩ := exists_overtaken
  refine ⟨onlyNewer_asked (by simp), ?_, fun hcontiguous => ?_⟩
  · have hids := congrArg (List.map BroadcastCursor.id) hitems
    rw [List.map_map, List.map_map] at hids
    rw [hrun]
    exact hids
  · have hinfix := hcontiguous.isInfix
    rw [hrun] at hinfix
    change view.items.map _ <:+: (ActivityList.all 0).listed
      fiftyTwoBroadcasts at hinfix
    rw [hitems,
      ActivityList.listed_broadcastsAt rows_fiftyTwoBroadcasts] at hinfix
    revert hinfix
    decide +kernel

end WebhookBroadcast
