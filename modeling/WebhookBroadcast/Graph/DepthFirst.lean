import Mathlib.Data.Finset.Card
import Mathlib.Data.List.Nodup
import Mathlib.Logic.Relation

/-!
# Depth-first search

A recursive search of a finite graph visits a node, then what it can reach from
the successors of the node in their order, and no node twice.

`visit_cons` makes it a loop over a list of pending nodes: the successors of the
node just visited go to the front of the list.  `mem_preorder_iff` says that
exactly the reachable nodes are visited.
-/

namespace DepthFirst

/-- Finitely many nodes with their successors in order. -/
structure FiniteGraph (ν : Type) where
  nodes : Finset ν
  next : ν → List ν
  closed : ∀ v ∈ nodes, ∀ w ∈ next v, w ∈ nodes

namespace FiniteGraph

variable {ν : Type} (G : FiniteGraph ν)

/-- There is a path from one node to the other. -/
def Reaches : ν → ν → Prop := Relation.ReflTransGen fun v w => w ∈ G.next v

section Search

variable [DecidableEq ν]

/-- Visiting a node leaves fewer of them. -/
theorem card_unseen_lt {v : ν} {seen seen' : List ν} (hv : v ∈ G.nodes)
    (hseen : v ∉ seen) (hv' : v ∈ seen') (hsub : ∀ w ∈ seen, w ∈ seen') :
    (G.nodes.filter (· ∉ seen')).card < (G.nodes.filter (· ∉ seen)).card := by
  refine Finset.card_lt_card ((Finset.ssubset_iff_of_subset ?_).mpr ⟨v, ?_⟩)
  · exact Finset.monotone_filter_right _ fun w _ hw hmem => hw (hsub w hmem)
  · simp [hv, hseen, hv']

/-- The nodes found from those in `todo`, in the order of the visits, by a
search that has seen `seen`. -/
def visit (seen : List ν) : List ν → List ν
  | [] => []
  | v :: todo =>
      if v ∈ G.nodes ∧ v ∉ seen then
        let below := visit (v :: seen) (G.next v)
        v :: below ++ visit (below ++ v :: seen) todo
      else visit seen todo
termination_by todo => ((G.nodes.filter (· ∉ seen)).card, todo.length)
decreasing_by
  · rename_i h
    exact Prod.Lex.left _ _ (G.card_unseen_lt h.1 h.2 List.mem_cons_self
      fun w hw => List.mem_cons_of_mem v hw)
  · rename_i h
    exact Prod.Lex.left _ _ (G.card_unseen_lt h.1 h.2 (by simp)
      fun w hw => by simp [hw])
  · exact Prod.Lex.right _ (Nat.lt_succ_self _)

/-- Everything found from one node. -/
def preorder (v : ν) : List ν := G.visit [] [v]

variable {G} {seen : List ν} {v : ν} {todo : List ν}

@[simp] theorem visit_nil (seen : List ν) : G.visit seen [] = [] := by
  rw [visit]

theorem visit_cons_of_seen (hv : v ∈ seen) (todo : List ν) :
    G.visit seen (v :: todo) = G.visit seen todo := by
  rw [visit, if_neg fun h => h.2 hv]

theorem visit_cons_of_new (hv : v ∈ G.nodes) (hseen : v ∉ seen)
    (todo : List ν) :
    G.visit seen (v :: todo) =
      v :: (G.visit (v :: seen) (G.next v) ++
        G.visit (G.visit (v :: seen) (G.next v) ++ v :: seen) todo) := by
  rw [visit, if_pos ⟨hv, hseen⟩]
  rfl

/-- Only new nodes are visited. -/
theorem new_of_mem_visit {w : ν} :
    ∀ {seen todo : List ν}, w ∈ G.visit seen todo →
      w ∈ G.nodes ∧ w ∉ seen := by
  intro seen todo
  fun_induction visit G seen todo with
  | case1 => simp
  | case2 seen v todo h below ihbelow ihrest =>
      intro hw
      rw [List.cons_append, List.mem_cons, List.mem_append] at hw
      rcases hw with rfl | hw | hw
      · exact h
      · have := ihbelow hw
        exact ⟨this.1, fun hmem => this.2 (List.mem_cons_of_mem v hmem)⟩
      · have := ihrest hw
        exact ⟨this.1, fun hmem => this.2 (by simp [hmem])⟩
  | case3 seen v todo h ih => exact ih

/-- No node is visited twice. -/
theorem nodup_visit (seen todo : List ν) : (G.visit seen todo).Nodup := by
  fun_induction visit G seen todo with
  | case1 => exact List.nodup_nil
  | case2 seen v todo h below ihbelow ihrest =>
      refine List.nodup_cons.mpr ⟨?_, ihbelow.append ihrest ?_⟩
      · intro hmem
        rcases List.mem_append.mp hmem with hmem | hmem
        · exact (new_of_mem_visit hmem).2 List.mem_cons_self
        · exact (new_of_mem_visit hmem).2 (by simp)
      · intro w hw hw'
        exact (new_of_mem_visit hw').2 (List.mem_append_left _ hw)
  | case3 seen v todo h ih => exact ih

/-- The search asks of `seen` only what is in it. -/
theorem visit_congr : ∀ (todo seen seen' : List ν),
    (∀ w, w ∈ seen ↔ w ∈ seen') → G.visit seen todo = G.visit seen' todo := by
  intro todo seen
  fun_induction visit G seen todo with
  | case1 => exact fun _ _ => (visit_nil _).symm
  | case2 seen v todo hv below ihbelow ihrest =>
      intro seen' h
      rw [visit_cons_of_new hv.1 (mt (h v).mpr hv.2)]
      have hbelow : below = G.visit (v :: seen') (G.next v) :=
        ihbelow (v :: seen') fun w => by simp [h w]
      rw [← hbelow, List.cons_append,
        ihrest (below ++ v :: seen') fun w => by simp [h w]]
  | case3 seen v todo hv ih =>
      intro seen' h
      have hv' : ¬ (v ∈ G.nodes ∧ v ∉ seen') := by rwa [← h v]
      rw [visit.eq_2, if_neg hv', ih seen' h]

/-- A search from two lists of nodes, one after the other. -/
theorem visit_append (seen xs ys : List ν) :
    G.visit seen (xs ++ ys) =
      G.visit seen xs ++ G.visit (G.visit seen xs ++ seen) ys := by
  fun_induction visit G seen xs with
  | case1 seen => rfl
  | case2 seen v todo h below ihbelow ihrest =>
      rw [List.cons_append, visit_cons_of_new h.1 h.2, ihrest]
      change _ = v :: (below ++ G.visit (below ++ v :: seen) todo) ++ _
      rw [List.cons_append, List.append_assoc]
      congr 3
      refine visit_congr ys _ _ fun w => ?_
      simp only [List.mem_append, List.mem_cons]
      tauto
  | case3 seen v todo h ih =>
      rw [List.cons_append, visit.eq_2, if_neg h, ih]

/-- The search as a loop: the successors of a new node are searched next, ahead
of what was pending. -/
theorem visit_cons (hv : v ∈ G.nodes) (hseen : v ∉ seen) (todo : List ν) :
    G.visit seen (v :: todo) =
      v :: G.visit (v :: seen) (G.next v ++ todo) := by
  rw [visit_cons_of_new hv hseen, visit_append]

/-! ## What is found -/

/-- The nodes to start from are found. -/
theorem mem_visit_of_mem {w : ν} (hw : w ∈ G.nodes) (hseen : w ∉ seen)
    (htodo : w ∈ todo) : w ∈ G.visit seen todo := by
  fun_induction visit G seen todo with
  | case1 => cases htodo
  | case2 seen v todo h below ihbelow ihrest =>
      rw [List.cons_append, List.mem_cons, List.mem_append]
      by_cases hbelow : w ∈ v :: below
      · exact (List.mem_cons.mp hbelow).imp id Or.inl
      · rw [List.mem_cons, not_or] at hbelow
        have hrest : w ∈ todo :=
          (List.mem_cons.mp htodo).resolve_left hbelow.1
        exact .inr (.inr (ihrest (by simp [hbelow, hseen]) hrest))
  | case3 seen v todo h ih =>
      refine ih hseen ((List.mem_cons.mp htodo).resolve_left ?_)
      rintro rfl
      exact h ⟨hw, hseen⟩

/-- Nothing is found when everything to start from was seen before. -/
theorem visit_eq_nil_iff :
    G.visit seen todo = [] ↔ ∀ v ∈ todo, v ∈ G.nodes → v ∈ seen := by
  constructor
  · intro hnil v hv hin
    by_contra hseen
    have hfound := mem_visit_of_mem hin hseen hv
    rw [hnil] at hfound
    cases hfound
  · intro hall
    induction todo with
    | nil => exact visit_nil seen
    | cons v todo ih =>
        have hold : ¬ (v ∈ G.nodes ∧ v ∉ seen) := fun h =>
          h.2 (hall v List.mem_cons_self h.1)
        rw [visit, if_neg hold]
        exact ih fun w hw => hall w (List.mem_cons_of_mem v hw)

/-- The successors of what is found are found or were seen before. -/
theorem mem_visit_of_next {u w : ν} (hu : u ∈ G.visit seen todo)
    (hw : w ∈ G.next u) : w ∈ G.visit seen todo ∨ w ∈ seen := by
  fun_induction visit G seen todo with
  | case1 => cases hu
  | case2 seen v todo h below ihbelow ihrest =>
      have hin : w ∈ G.nodes := by
        refine G.closed u ?_ w hw
        rw [List.cons_append, List.mem_cons, List.mem_append] at hu
        rcases hu with rfl | hu | hu
        · exact h.1
        · exact (new_of_mem_visit hu).1
        · exact (new_of_mem_visit hu).1
      rw [List.cons_append, List.mem_cons, List.mem_append] at hu ⊢
      have hfound : w ∈ below ∨ w ∈ v :: seen →
          (w = v ∨ w ∈ below ∨ w ∈ G.visit (below ++ v :: seen) todo) ∨
            w ∈ seen := by
        rw [List.mem_cons]
        tauto
      rcases hu with rfl | hu | hu
      · apply hfound
        by_cases hmem : w ∈ u :: seen
        · exact .inr hmem
        · exact .inl (mem_visit_of_mem hin hmem hw)
      · exact hfound (ihbelow hu)
      · rcases ihrest hu with hrest | hrest
        · exact .inl (.inr (.inr hrest))
        · exact hfound (List.mem_append.mp hrest)
  | case3 seen v todo h ih => exact ih hu

/-- What is found can be reached. -/
theorem reaches_of_mem_visit {w : ν} (hw : w ∈ G.visit seen todo) :
    ∃ v ∈ todo, G.Reaches v w := by
  fun_induction visit G seen todo with
  | case1 => cases hw
  | case2 seen v todo h below ihbelow ihrest =>
      rw [List.cons_append, List.mem_cons, List.mem_append] at hw
      rcases hw with rfl | hw | hw
      · exact ⟨w, List.mem_cons_self, .refl⟩
      · obtain ⟨u, hu, hreaches⟩ := ihbelow hw
        exact ⟨v, List.mem_cons_self, .head hu hreaches⟩
      · obtain ⟨u, hu, hreaches⟩ := ihrest hw
        exact ⟨u, List.mem_cons_of_mem v hu, hreaches⟩
  | case3 seen v todo h ih =>
      obtain ⟨u, hu, hreaches⟩ := ih hw
      exact ⟨u, List.mem_cons_of_mem v hu, hreaches⟩

/-- A search finds what can be reached from its node, and nothing else. -/
theorem mem_preorder_iff (hv : v ∈ G.nodes) {w : ν} :
    w ∈ G.preorder v ↔ G.Reaches v w := by
  constructor
  · intro hw
    obtain ⟨u, hu, hreaches⟩ := reaches_of_mem_visit hw
    obtain rfl := List.mem_singleton.mp hu
    exact hreaches
  · intro hreaches
    induction hreaches with
    | refl => exact mem_visit_of_mem hv List.not_mem_nil List.mem_cons_self
    | tail _ hw ih =>
        exact (mem_visit_of_next ih hw).resolve_right List.not_mem_nil

theorem nodup_preorder (v : ν) : (G.preorder v).Nodup := nodup_visit [] [v]

end Search

end FiniteGraph

end DepthFirst
