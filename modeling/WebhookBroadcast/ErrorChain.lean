import Mathlib.Data.Finset.Union
import Mathlib.Data.Fintype.Basic
import Mathlib.Data.List.ReduceOption
import Mathlib.Data.List.Sigma
import WebhookBroadcast.Graph.DepthFirst
import WebhookBroadcast.Js.Number

/-!
# Error chains

`serializeErrorChain` of `apps/api/src/errorChain.ts`: one line for an error and
everything that it was caused by.

Objects and functions are references into a heap, so that they may be shared and
form cycles; each occurrence of a primitive is a node of its own.  The loop of
the source, which keeps a list of pending values, is compared with the recursive
search of that graph.
-/

namespace WebhookBroadcast

open DepthFirst

/-! ## Values -/

/-- A string, or another primitive with its `String(value)`. -/
inductive Primitive where
  | string (text : String)
  | other (text : String)
deriving DecidableEq

/-- A value other than `undefined` and `null`. -/
inductive Link (ι : Type) where
  | primitive (p : Primitive)
  | reference (r : ι)
deriving DecidableEq

/-- Any value: `none` is `undefined` or `null`, which the code treats alike. -/
abbrev ErrorValue (ι : Type) := Option (Link ι)

/-- What the walk reads of an object: the properties that are strings,
`JSON.stringify(value) ?? String(value)` unless it throws, `cause`, and `errors`
if that is an array. -/
structure ErrorObject (ι : Type) where
  property : String → Option String
  stringified : Option String
  cause : ErrorValue ι := none
  errors : Option (List (ErrorValue ι)) := none

inductive Referent (ι : Type) where
  | object (o : ErrorObject ι)
  | function (name : String)

abbrev ErrorHeap (ι : Type) := ι → Referent ι

/-! ## The walk -/

def MAX_CHAIN_LINKS : ℕ := 8

def DIAGNOSTIC_FIELDS : List String := ["code", "severity", "detail", "hint"]

section Walk

variable {ι : Type}

def readNonEmptyString (source : ErrorObject ι) (key : String) :
    Option String :=
  match source.property key with
  | none => none
  | some value => if Js.trim value = "" then none else some (Js.trim value)

def stringifyOpaque (value : ErrorObject ι) : String :=
  value.stringified.getD "[unserializable object]"

/-- The name and the message of an object. -/
def describeHead (value : ErrorObject ι) : String :=
  match readNonEmptyString value "message", readNonEmptyString value "name" with
  | none, name => name.getD (stringifyOpaque value)
  | some message, none => message
  | some message, some name =>
      if name = "Error" ∨ Js.startsWith message name = true then message
      else s!"{name}: {message}"

def describeLink (heap : ErrorHeap ι) : Link ι → String
  | .primitive (.string text) =>
      if Js.trim text = "" then "(empty string)" else Js.trim text
  | .primitive (.other text) => text
  | .reference r =>
      match heap r with
      | .function name =>
          let shown := if name = "" then "anonymous" else name
          s!"[Function: {shown}]"
      | .object value =>
          let head := describeHead value
          let diagnostics := DIAGNOSTIC_FIELDS.filterMap fun field =>
            (readNonEmptyString value field).map fun detail =>
              s!"{field}={detail}"
          if diagnostics.length > 0 then
            let listed := ", ".intercalate diagnostics
            s!"{head} ({listed})"
          else head

/-- The `cause` of a value, then its `errors`. -/
def successorsOf (heap : ErrorHeap ι) : Link ι → List (ErrorValue ι)
  | .primitive _ => []
  | .reference r =>
      match heap r with
      | .function _ => []
      | .object value =>
          (match value.cause with
            | none => []
            | some cause => [some cause]) ++ value.errors.getD []

/-- Where the loop of `serializeErrorChain` stops. -/
structure ChainWalk (ι : Type) where
  links : List String
  seen : List ι
  pending : List (ErrorValue ι)

variable [DecidableEq ι]

/-- The loop of `serializeErrorChain`. -/
def walkChain (heap : ErrorHeap ι) (links : List String) (seen : List ι) :
    List (ErrorValue ι) → ChainWalk ι
  | [] => ⟨links, seen, []⟩
  | current :: pending =>
      if links.length < MAX_CHAIN_LINKS then
        match current with
        | none => walkChain heap links seen pending
        | some (.primitive p) =>
            walkChain heap (links ++ [describeLink heap (.primitive p)]) seen
              (successorsOf heap (.primitive p) ++ pending)
        | some (.reference r) =>
            if r ∈ seen then walkChain heap links seen pending
            else
              walkChain heap (links ++ [describeLink heap (.reference r)])
                (r :: seen) (successorsOf heap (.reference r) ++ pending)
      else ⟨links, seen, current :: pending⟩
termination_by pending => (MAX_CHAIN_LINKS - links.length, pending.length)
decreasing_by
  · exact Prod.Lex.right _ (Nat.lt_succ_self _)
  · exact Prod.Lex.left _ _ (by rw [List.length_append]; simp; omega)
  · exact Prod.Lex.right _ (Nat.lt_succ_self _)
  · exact Prod.Lex.left _ _ (by rw [List.length_append]; simp; omega)

/-- What is left to print: no `undefined` or `null`, and nothing seen. -/
def ChainWalk.unreported (walk : ChainWalk ι) : List (ErrorValue ι) :=
  walk.pending.filter fun value =>
    match value with
    | none => false
    | some (.primitive _) => true
    | some (.reference r) => r ∉ walk.seen

def furtherCauses (count : ℕ) : String :=
  s!"... {count} further cause(s) not shown"

/-- The links that `serializeErrorChain` joins. -/
def chainLinks (heap : ErrorHeap ι) (error : ErrorValue ι) : List String :=
  let walk := walkChain heap [] [] [error]
  if walk.unreported.length > 0 then
    walk.links ++ [furtherCauses walk.unreported.length]
  else walk.links

def serializeErrorChain (heap : ErrorHeap ι) (error : ErrorValue ι) : String :=
  let links := chainLinks heap error
  if links.length > 0 then " -> ".intercalate links else "Unknown error"

end Walk

/-! ## The graph -/

section Graph

variable {ι : Type}

/-- Where a value stands in an object. -/
inductive ErrorPlace where
  | cause
  | errors (k : ℕ)
deriving DecidableEq

/-- A node of the graph: an object or a function, or an occurrence of a
primitive, given by the object it stands in and its place there. -/
inductive ErrorNode (ι : Type) where
  | object (r : ι)
  | leaf (site : Option (ι × ErrorPlace)) (p : Primitive)
deriving DecidableEq

def ErrorNode.link : ErrorNode ι → Link ι
  | object r => .reference r
  | leaf _ p => .primitive p

def Link.node (site : Option (ι × ErrorPlace)) : Link ι → ErrorNode ι
  | primitive p => .leaf site p
  | reference r => .object r

/-- The node of the argument. -/
def rootNode (error : ErrorValue ι) : Option (ErrorNode ι) :=
  error.map (Link.node none)

/-- The node of a value at its place in an object, unless it is `undefined` or
`null`. -/
def nodeAt (r : ι) (place : ErrorPlace) (value : ErrorValue ι) :
    Option (ErrorNode ι) :=
  value.map (Link.node (some (r, place)))

/-- The values in an object with their places: its `cause`, then the entries of
`errors` in their order. -/
def ErrorObject.places (value : ErrorObject ι) :
    List (ErrorPlace × ErrorValue ι) :=
  (.cause, value.cause) ::
    (value.errors.getD []).zipIdx.map fun entry => (.errors entry.2, entry.1)

/-- The children of an object. -/
def childrenOf (heap : ErrorHeap ι) : ErrorNode ι → List (ErrorNode ι)
  | .leaf _ _ => []
  | .object r =>
      match heap r with
      | .function _ => []
      | .object value =>
          value.places.filterMap fun entry => nodeAt r entry.1 entry.2

/-- A path from the argument to the node. -/
def ReachedFrom (heap : ErrorHeap ι) (error : ErrorValue ι)
    (node : ErrorNode ι) : Prop :=
  ∃ root ∈ rootNode error,
    Relation.ReflTransGen (fun v w => w ∈ childrenOf heap v) root node

@[simp] theorem link_node (site : Option (ι × ErrorPlace)) (link : Link ι) :
    (link.node site).link = link := by
  cases link <;> rfl

/-- The children of an object are what its successors stand for. -/
theorem map_link_childrenOf (heap : ErrorHeap ι) (r : ι) :
    (childrenOf heap (.object r)).map ErrorNode.link =
      (successorsOf heap (.reference r)).reduceOption := by
  have hlink : ∀ place value,
      (nodeAt r place value : Option (ErrorNode ι)).map ErrorNode.link =
        value := by
    intro place value
    cases value with
    | none => rfl
    | some link => exact congrArg some (link_node _ link)
  unfold childrenOf successorsOf
  dsimp only
  cases heap r with
  | function name => rfl
  | object value =>
      dsimp only
      have hvalues : value.places.map Prod.snd =
          value.cause :: value.errors.getD [] := by
        rw [ErrorObject.places, List.map_cons, List.map_map]
        exact congrArg _ (List.zipIdx_map_fst _ _)
      rw [List.map_filterMap]
      simp only [hlink]
      change List.filterMap (id ∘ Prod.snd) value.places = _
      rw [← List.filterMap_map, hvalues]
      cases value.cause with
      | none => rfl
      | some cause => rfl

theorem nodup_places (value : ErrorObject ι) :
    (value.places.map Prod.fst).Nodup := by
  rw [ErrorObject.places, List.map_cons, List.map_map, List.nodup_cons]
  constructor
  · simp
  · have hindices : ((value.errors.getD []).zipIdx.map Prod.snd).Nodup :=
      List.nodup_zipIdx_map_snd _
    have hsplit : (Prod.fst ∘ fun entry : ErrorValue ι × ℕ =>
        (ErrorPlace.errors entry.2, entry.1)) = .errors ∘ Prod.snd := rfl
    rw [hsplit, ← List.map_map]
    exact hindices.map fun _ _ h => ErrorPlace.errors.inj h

theorem leaf_mem_childrenOf {heap : ErrorHeap ι} {node : ErrorNode ι}
    {site : Option (ι × ErrorPlace)} {p : Primitive}
    (h : .leaf site p ∈ childrenOf heap node) :
    ∃ r place, node = .object r ∧ site = some (r, place) := by
  cases node with
  | leaf => cases h
  | object r =>
      unfold childrenOf at h
      dsimp only at h
      split at h
      · cases h
      obtain ⟨⟨place, value⟩, -, hnode⟩ := List.mem_filterMap.mp h
      obtain ⟨link, -, hlink⟩ := Option.map_eq_some_iff.mp hnode
      cases link with
      | reference => cases hlink
      | primitive =>
          cases hlink
          exact ⟨r, place, rfl, rfl⟩

/-- Nodes that are equal only if they are objects. -/
def ErrorNode.Apart (v w : ErrorNode ι) : Prop := v = w → ∃ r, v = .object r

theorem pairwise_childrenOf (heap : ErrorHeap ι) (r : ι) :
    (childrenOf heap (.object r)).Pairwise ErrorNode.Apart := by
  unfold childrenOf
  dsimp only
  split
  · exact List.Pairwise.nil
  next value _ =>
    have hplaces : value.places.Pairwise fun a b => a.1 ≠ b.1 :=
      List.pairwise_map.mp (nodup_places value)
    refine List.pairwise_filterMap.mpr (hplaces.imp ?_)
    rintro ⟨place, value⟩ ⟨place', value'⟩ hne v hv w hw rfl
    obtain ⟨link, -, rfl⟩ := Option.map_eq_some_iff.mp hv
    obtain ⟨link', -, hlink⟩ := Option.map_eq_some_iff.mp hw
    cases link with
    | reference r' => exact ⟨r', rfl⟩
    | primitive p =>
        cases link' with
        | reference => cases hlink
        | primitive =>
            cases hlink
            exact absurd rfl hne

/-! ## The loop against the recursive search -/

section Search

variable {heap : ErrorHeap ι} {G : FiniteGraph (ErrorNode ι)} {seen : List ι}
  {pending : List (ErrorValue ι)} {found todo : List (ErrorNode ι)}

/-- The pending values are the nodes in `todo`, the objects seen are those in
`found`, and an occurrence of a primitive is in one of the two lists only, and
only once. -/
structure Tracks (heap : ErrorHeap ι) (seen : List ι)
    (pending : List (ErrorValue ι)) (found todo : List (ErrorNode ι)) :
    Prop where
  pending : pending.reduceOption = todo.map ErrorNode.link
  seen : ∀ r, r ∈ seen ↔ .object r ∈ found
  apart : todo.Pairwise ErrorNode.Apart
  fresh : ∀ site p, .leaf site p ∈ todo → .leaf site p ∉ found
  sites : ∀ r k p, .leaf (some (r, k)) p ∈ found ++ todo → .object r ∈ found

namespace Tracks

theorem skip (h : Tracks heap seen (none :: pending) found todo) :
    Tracks heap seen pending found todo :=
  { h with pending := h.pending }

theorem todo_eq {link : Link ι}
    (h : Tracks heap seen (some link :: pending) found todo) :
    ∃ v rest, todo = v :: rest ∧ v.link = link ∧
      pending.reduceOption = rest.map ErrorNode.link := by
  have hpending := h.pending
  rw [List.reduceOption_cons_of_some] at hpending
  cases todo with
  | nil => cases hpending
  | cons v rest =>
      obtain ⟨hlink, hrest⟩ := List.cons.inj hpending
      exact ⟨v, rest, rfl, hlink.symm, hrest⟩

theorem drop {v : ErrorNode ι} (h : Tracks heap seen
      (some v.link :: pending) found (v :: todo)) :
    Tracks heap seen pending found todo where
  pending := (List.cons.inj h.pending).2
  seen := h.seen
  apart := h.apart.of_cons
  fresh site p hp := h.fresh site p (List.mem_cons_of_mem v hp)
  sites r k p hp := h.sites r k p (by
    rw [List.mem_append] at hp ⊢
    exact hp.imp id (List.mem_cons_of_mem v))

/-- A primitive is printed. -/
theorem visit_leaf {site : Option (ι × ErrorPlace)} {p : Primitive}
    (h : Tracks heap seen (some (.primitive p) :: pending) found
      (.leaf site p :: todo)) :
    Tracks heap seen pending (.leaf site p :: found) todo where
  pending := (List.cons.inj h.pending).2
  seen r := by simp [h.seen r]
  apart := h.apart.of_cons
  fresh site' p' hp' := by
    rw [List.mem_cons, not_or]
    refine ⟨fun heq => ?_, h.fresh site' p' (List.mem_cons_of_mem _ hp')⟩
    obtain ⟨r, hr⟩ := List.rel_of_pairwise_cons h.apart hp' heq.symm
    cases hr
  sites r k p' hp' := by
    refine List.mem_cons_of_mem _ (h.sites r k p' ?_)
    simp only [List.cons_append, List.mem_cons, List.mem_append] at hp' ⊢
    tauto

/-- An object or a function is printed, and its successors are pending. -/
theorem visit_object {r : ι} (hr : r ∉ seen)
    (h : Tracks heap seen (some (.reference r) :: pending) found
      (.object r :: todo)) :
    Tracks heap (r :: seen) (successorsOf heap (.reference r) ++ pending)
      (.object r :: found) (childrenOf heap (.object r) ++ todo) := by
  have hfound : .object r ∉ found := mt (h.seen r).mpr hr
  have hfresh : ∀ k p, .leaf (some (r, k)) p ∉ found ++ .object r :: todo :=
    fun k p hp => hfound (h.sites r k p hp)
  refine ⟨?_, fun r' => by simp [h.seen r'], ?_, ?_, ?_⟩
  · have hrest : pending.reduceOption = todo.map ErrorNode.link :=
      (List.cons.inj h.pending).2
    rw [List.reduceOption_append, List.map_append, map_link_childrenOf, hrest]
  · refine List.pairwise_append.mpr
      ⟨pairwise_childrenOf heap r, h.apart.of_cons, ?_⟩
    rintro v hv w hw rfl
    cases v with
    | object r' => exact ⟨r', rfl⟩
    | leaf site p =>
        obtain ⟨r', k, hnode, rfl⟩ := leaf_mem_childrenOf hv
        cases hnode
        exact absurd (by simp [hw]) (hfresh k p)
  · intro site p hp
    rw [List.mem_cons, not_or]
    refine ⟨by simp, ?_⟩
    rcases List.mem_append.mp hp with hp | hp
    · obtain ⟨r', k, hnode, rfl⟩ := leaf_mem_childrenOf hp
      cases hnode
      exact fun hmem => hfresh k p (List.mem_append_left _ hmem)
    · exact h.fresh site p (List.mem_cons_of_mem _ hp)
  · intro r' k p hp
    by_cases hchild : .leaf (some (r', k)) p ∈ childrenOf heap (.object r)
    · obtain ⟨_, _, hnode, hsite⟩ := leaf_mem_childrenOf hchild
      cases hnode
      cases hsite
      exact List.mem_cons_self
    · refine List.mem_cons_of_mem _ (h.sites r' k p ?_)
      simp only [List.cons_append, List.mem_cons, List.mem_append] at hp ⊢
      tauto

end Tracks

theorem tracks_rootNode (heap : ErrorHeap ι) (error : ErrorValue ι) :
    Tracks heap [] [error] [] (rootNode error).toList where
  pending := by
    cases error with
    | none => rfl
    | some link => simp [rootNode]
  seen := by simp
  apart := by
    cases error with
    | none => exact List.Pairwise.nil
    | some link => exact List.pairwise_singleton _ _
  fresh := by simp
  sites := by
    cases error with
    | none => simp [rootNode]
    | some link => cases link <;> simp [rootNode, Link.node]

variable [DecidableEq ι]

/-- Nothing is unreported when everything pending has been found. -/
theorem unreported_eq_nil_iff (h : Tracks heap seen pending found todo)
    (links : List String) :
    (ChainWalk.mk links seen pending).unreported = [] ↔
      ∀ v ∈ todo, v ∈ found := by
  have hpending : ∀ link, some link ∈ pending ↔ link ∈ todo.map ErrorNode.link := by
    intro link
    rw [← h.pending, List.reduceOption_mem_iff]
  rw [ChainWalk.unreported, List.filter_eq_nil_iff]
  constructor
  · intro hnone v hv
    have hlink := hnone _ ((hpending v.link).mpr (List.mem_map_of_mem hv))
    cases v with
    | leaf site p => exact absurd rfl hlink
    | object r =>
        have hseen : r ∈ seen := by simpa [ErrorNode.link] using hlink
        exact (h.seen r).mp hseen
  · intro hall value hvalue
    cases value with
    | none => exact Bool.false_ne_true
    | some link =>
        obtain ⟨v, hv, rfl⟩ := List.mem_map.mp ((hpending link).mp hvalue)
        cases v with
        | leaf site p => exact absurd (hall _ hv) (h.fresh site p hv)
        | object r => simpa [ErrorNode.link] using (h.seen r).mpr (hall _ hv)

/-- What the walk prints of a node. -/
def ErrorNode.describe (heap : ErrorHeap ι) (v : ErrorNode ι) : String :=
  describeLink heap v.link

/-- After these links the walk has printed the nodes as far as there was room,
and has left something unreported if there was not room for all. -/
structure ChainWalk.Prints (heap : ErrorHeap ι) (walk : ChainWalk ι)
    (links : List String) (nodes : List (ErrorNode ι)) : Prop where
  links_eq : walk.links = links ++
    (nodes.take (MAX_CHAIN_LINKS - links.length)).map (ErrorNode.describe heap)
  unreported : walk.unreported = [] ↔
    nodes.length ≤ MAX_CHAIN_LINKS - links.length

theorem ChainWalk.Prints.cons {walk : ChainWalk ι} {links : List String}
    {v : ErrorNode ι} {nodes : List (ErrorNode ι)}
    (hroom : links.length < MAX_CHAIN_LINKS)
    (h : walk.Prints heap (links ++ [v.describe heap]) nodes) :
    walk.Prints heap links (v :: nodes) := by
  obtain ⟨hlinks, hunreported⟩ := h
  obtain ⟨n, hn⟩ : ∃ n, MAX_CHAIN_LINKS - links.length = n + 1 :=
    ⟨MAX_CHAIN_LINKS - links.length - 1, by omega⟩
  have hless : MAX_CHAIN_LINKS - (links ++ [v.describe heap]).length = n := by
    rw [List.length_append, List.length_singleton]
    omega
  rw [hless] at hlinks hunreported
  refine ⟨?_, ?_⟩
  · rw [hlinks, hn, List.take_succ_cons, List.map_cons, List.append_assoc,
      List.singleton_append]
  · rw [hunreported, hn, List.length_cons, Nat.add_le_add_iff_right]

/-- The loop prints what the recursive search from the pending nodes visits. -/
theorem prints_walkChain (hnext : G.next = childrenOf heap)
    {links : List String} (h : Tracks heap seen pending found todo)
    (hin : ∀ v ∈ todo, v ∈ G.nodes) :
    (walkChain heap links seen pending).Prints heap links
      (G.visit found todo) := by
  fun_induction walkChain heap links seen pending generalizing found todo with
  | case1 links seen =>
      obtain rfl : todo = [] := List.map_eq_nil_iff.mp h.pending.symm
      constructor
      · simp
      · simp [ChainWalk.unreported]
  | case2 links seen pending hroom ih => exact ih h.skip hin
  | case3 links seen pending hroom p ih =>
      obtain ⟨v, rest, rfl, hlink, -⟩ := h.todo_eq
      cases v with
      | object r => cases hlink
      | leaf site p' =>
          cases hlink
          rw [FiniteGraph.visit_cons (hin _ List.mem_cons_self)
            (h.fresh site p List.mem_cons_self), hnext]
          exact ChainWalk.Prints.cons hroom
            (ih h.visit_leaf fun v hv => hin v (List.mem_cons_of_mem _ hv))
  | case4 links seen pending hroom r hseen ih =>
      obtain ⟨v, rest, rfl, hlink, -⟩ := h.todo_eq
      cases v with
      | leaf site p => cases hlink
      | object r' =>
          cases hlink
          rw [FiniteGraph.visit_cons_of_seen ((h.seen r).mp hseen)]
          exact ih (Tracks.drop (v := .object r) h)
            fun v hv => hin v (List.mem_cons_of_mem _ hv)
  | case5 links seen pending hroom r hseen ih =>
      obtain ⟨v, rest, rfl, hlink, -⟩ := h.todo_eq
      cases v with
      | leaf site p => cases hlink
      | object r' =>
          cases hlink
          have hobject := hin _ List.mem_cons_self
          rw [FiniteGraph.visit_cons hobject (mt (h.seen r).mpr hseen), hnext]
          refine ChainWalk.Prints.cons hroom
            (ih (h.visit_object hseen) fun v hv => ?_)
          rcases List.mem_append.mp hv with hv | hv
          · exact G.closed _ hobject v (by rwa [hnext])
          · exact hin v (List.mem_cons_of_mem _ hv)
  | case6 links seen current pending hfull =>
      have hnone : MAX_CHAIN_LINKS - links.length = 0 := by omega
      constructor
      · simp [hnone]
      · rw [unreported_eq_nil_iff h, hnone, Nat.le_zero,
          List.length_eq_zero_iff, FiniteGraph.visit_eq_nil_iff]
        exact forall₂_congr fun v hv => (imp_iff_right (hin v hv)).symm

/-! ## The whole chain -/

/-- The graph that the argument is the root of. -/
def chainGraph [Fintype ι] (heap : ErrorHeap ι) (root : ErrorNode ι) :
    FiniteGraph (ErrorNode ι) where
  nodes := insert root (Finset.univ.image ErrorNode.object ∪
    Finset.univ.biUnion fun r => (childrenOf heap (.object r)).toFinset)
  next := childrenOf heap
  closed := by
    intro v _ w hw
    cases v with
    | leaf => cases hw
    | object r =>
        exact Finset.mem_insert_of_mem (Finset.mem_union_right _
          (Finset.mem_biUnion.mpr
            ⟨r, Finset.mem_univ r, List.mem_toFinset.mpr hw⟩))

variable [Fintype ι]

/-- The nodes of the graph in the order of a recursive search that visits the
`cause` before the `errors`. -/
def chainPreorder (heap : ErrorHeap ι) (error : ErrorValue ι) :
    List (ErrorNode ι) :=
  match rootNode error with
  | none => []
  | some root => (chainGraph heap root).preorder root

/-- The chain is printed up to the limit. -/
theorem prints_chainPreorder (heap : ErrorHeap ι) (error : ErrorValue ι) :
    (walkChain heap [] [] [error]).Prints heap []
      (chainPreorder heap error) := by
  have htracks := tracks_rootNode heap error
  unfold chainPreorder
  cases hroot : rootNode error with
  | none =>
      rw [hroot] at htracks
      -- any graph will do where there is nothing to visit
      let G : FiniteGraph (ErrorNode ι) := ⟨∅, childrenOf heap, by simp⟩
      have hprints : (walkChain heap [] [] [error]).Prints heap []
          (G.visit [] []) := prints_walkChain rfl htracks (by simp)
      rwa [FiniteGraph.visit_nil] at hprints
  | some root =>
      rw [hroot, Option.toList_some] at htracks
      refine prints_walkChain rfl htracks fun v hv => ?_
      obtain rfl := List.mem_singleton.mp hv
      exact Finset.mem_insert_self v _

/-- The recursive search visits each node once, and those that can be
reached. -/
theorem mem_chainPreorder_iff {heap : ErrorHeap ι} {error : ErrorValue ι}
    {v : ErrorNode ι} :
    v ∈ chainPreorder heap error ↔ ReachedFrom heap error v := by
  unfold chainPreorder ReachedFrom
  cases rootNode error with
  | none => simp
  | some root =>
      rw [FiniteGraph.mem_preorder_iff (Finset.mem_insert_self root _)]
      simp only [Option.mem_some_iff, exists_eq_left']
      rfl

theorem nodup_chainPreorder (heap : ErrorHeap ι) (error : ErrorValue ι) :
    (chainPreorder heap error).Nodup := by
  unfold chainPreorder
  cases rootNode error with
  | none => exact List.nodup_nil
  | some root => exact FiniteGraph.nodup_preorder root

omit [DecidableEq ι] [Fintype ι] in
theorem length_le_iff_forall_mem_take {nodes : List (ErrorNode ι)}
    (hnodes : nodes.Nodup) {n : ℕ} :
    nodes.length ≤ n ↔ ∀ v ∈ nodes, v ∈ nodes.take n := by
  constructor
  · intro hle v hv
    rwa [List.take_of_length_le hle]
  · intro hall
    exact (hnodes.subperm hall).length_le.trans (List.length_take_le n nodes)

/-- The line is the chain in the order of the recursive search, cut off after
eight links, with a note when something that can be reached is not on it. -/
theorem serializeErrorChain_truncates (heap : ErrorHeap ι)
    (error : ErrorValue ι) :
    let printed := (chainPreorder heap error).take MAX_CHAIN_LINKS
    ((chainPreorder heap error).Nodup ∧
      ∀ v, v ∈ chainPreorder heap error ↔ ReachedFrom heap error v) ∧
    ∃ trailer, chainLinks heap error =
        printed.map (ErrorNode.describe heap) ++ trailer ∧
      (trailer = [] ∨ ∃ count ≥ 1, trailer = [furtherCauses count]) ∧
      (trailer ≠ [] ↔ ∃ v, ReachedFrom heap error v ∧ v ∉ printed) ∧
      serializeErrorChain heap error =
        if chainLinks heap error = [] then "Unknown error"
        else " -> ".intercalate (chainLinks heap error) := by
  intro printed
  refine ⟨⟨nodup_chainPreorder heap error, fun v => mem_chainPreorder_iff⟩, ?_⟩
  obtain ⟨hlinks, hunreported⟩ := prints_chainPreorder heap error
  rw [List.nil_append] at hlinks
  rw [List.length_nil, Nat.sub_zero] at hlinks hunreported
  have hleft : (walkChain heap [] [] [error]).unreported ≠ [] ↔
      ∃ v, ReachedFrom heap error v ∧ v ∉ printed := by
    rw [ne_eq, hunreported,
      length_le_iff_forall_mem_take (nodup_chainPreorder heap error)]
    simp only [mem_chainPreorder_iff]
    push Not
    rfl
  have hline : serializeErrorChain heap error =
      if chainLinks heap error = [] then "Unknown error"
      else " -> ".intercalate (chainLinks heap error) := by
    simp only [serializeErrorChain, gt_iff_lt, List.length_pos_iff, ite_not]
  rw [← hleft, hline]
  unfold chainLinks
  by_cases hmore : (walkChain heap [] [] [error]).unreported.length > 0
  · refine ⟨_, by rw [if_pos hmore, hlinks], .inr ⟨_, hmore, rfl⟩, ?_⟩
    exact ⟨iff_of_true (List.cons_ne_nil _ _) (List.length_pos_iff.mp hmore),
      rfl⟩
  · refine ⟨[], by rw [if_neg hmore, hlinks, List.append_nil], .inl rfl, ?_⟩
    exact ⟨iff_of_false (fun h => h rfl) (mt List.length_pos_iff.mpr hmore),
      rfl⟩

end Search

end Graph

/-- Two errors that are each other's cause. -/
def mutualCauses : ErrorHeap Bool := fun r => .object
  { property := fun key =>
      if key = "message" then some (if r then "second" else "first") else none
    stringified := none
    cause := some (.reference !r) }

example : serializeErrorChain mutualCauses (some (.reference false)) =
    "first -> second" := by
  have hfirst : describeLink mutualCauses (.reference false) = "first" := by
    decide +kernel
  have hsecond : describeLink mutualCauses (.reference true) = "second" := by
    decide +kernel
  simp [serializeErrorChain, chainLinks, walkChain, MAX_CHAIN_LINKS,
    successorsOf, mutualCauses, hfirst, hsecond, ChainWalk.unreported]

end WebhookBroadcast
