import AttrGrammar.Proofs.Tree.Order
import AttrGrammar.Proofs.Tree.Representation
import Mathlib.Data.List.Flatten
import Mathlib.Data.List.Perm.Basic

/-!
Walks with a stack, and recursion over the children.

A walk takes an entry from its stack, lists some nodes and puts other entries on the stack, until
none is left. Where no way down through children goes on for ever, recursion over the children comes
to an end, and walks list what recursion lists. The array that carries a tree is so. The main
statement says that the walks over a tree that is built step by step are recursion, and in which
order they come to its nodes.
-/

namespace AttrGrammar.ParseTree

open Forest

variable {t : ParseTree}

/-- No way down from node to child goes on for ever. -/
def Founded (t : ParseTree) : Prop := WellFounded fun c p => c ∈ t.children p

namespace Founded

/-- A node and what is below its children in turn, parents first. -/
def preorder (founded : t.Founded) (id : NodeId) : List NodeId :=
  id :: (t.children id).attach.flatMap fun c => founded.preorder c.1
termination_by WellFounded.wrap founded id
decreasing_by exact c.2

/-- What is below the children of a node in turn and the node, children first. -/
def postorder (founded : t.Founded) (id : NodeId) : List NodeId :=
  ((t.children id).attach.flatMap fun c => founded.postorder c.1) ++ [id]
termination_by WellFounded.wrap founded id
decreasing_by exact c.2

theorem preorder_eq (founded : t.Founded) (id : NodeId) :
    founded.preorder id = id :: (t.children id).flatMap founded.preorder := by
  rw [preorder, List.flatMap_subtype (g := founded.preorder) fun _ _ => rfl, List.unattach_attach]

theorem postorder_eq (founded : t.Founded) (id : NodeId) :
    founded.postorder id = (t.children id).flatMap founded.postorder ++ [id] := by
  rw [postorder, List.flatMap_subtype (g := founded.postorder) fun _ _ => rfl, List.unattach_attach]

theorem postorder_perm (founded : t.Founded) (id : NodeId) :
    (founded.postorder id).Perm (founded.preorder id) := by
  induction id using founded.induction with
  | _ id ih =>
    rw [postorder_eq, preorder_eq]
    refine (List.perm_append_singleton _ _).trans (.cons id ?_)
    exact .flatMap_left _ ih

/-- What recursion lists for a child it lists for the parent, after it or before it. -/
theorem sublist_of_child (founded : t.Founded) {p c : NodeId} (child : c ∈ t.children p) :
    (p :: founded.preorder c).Sublist (founded.preorder p) ∧
      (founded.postorder c ++ [p]).Sublist (founded.postorder p) := by
  have inside : ∀ list : NodeId → List NodeId,
      (list c).Sublist ((t.children p).flatMap list) := fun list => by
    have alone := (List.singleton_sublist.2 child).flatMap list
    rwa [List.flatMap_singleton] at alone
  rw [founded.preorder_eq p, founded.postorder_eq p]
  exact ⟨(inside _).cons_cons p, (inside _).append_right [p]⟩

theorem sublist_of_reachable (founded : t.Founded) {top id : NodeId}
    (way : Relation.ReflTransGen (fun p c => c ∈ t.children p) top id) :
    (founded.preorder id).Sublist (founded.preorder top) ∧
      (founded.postorder id).Sublist (founded.postorder top) := by
  induction way with
  | refl => exact ⟨.refl _, .refl _⟩
  | @tail p c _ child ih =>
    obtain ⟨pre, post⟩ := founded.sublist_of_child child
    exact ⟨((List.sublist_cons_self ..).trans pre).trans ih.1,
      ((List.sublist_append_left ..).trans post).trans ih.2⟩

/-- Below any node parents come before their children in one order, and after them in the other. -/
theorem pair_sublist (founded : t.Founded) {top p c : NodeId}
    (way : Relation.ReflTransGen (fun p c => c ∈ t.children p) top p) (child : c ∈ t.children p) :
    [p, c].Sublist (founded.preorder top) ∧ [c, p].Sublist (founded.postorder top) := by
  obtain ⟨pre, post⟩ := founded.sublist_of_child child
  obtain ⟨preTop, postTop⟩ := founded.sublist_of_reachable way
  have first : [c].Sublist (founded.preorder c) := by
    rw [preorder_eq]
    exact (List.nil_sublist _).cons_cons c
  have last : [c].Sublist (founded.postorder c) := by
    rw [postorder_eq]
    exact List.sublist_append_right ..
  exact ⟨((first.cons_cons p).trans pre).trans preTop,
    ((last.append_right [p]).trans post).trans postTop⟩

end Founded

section

variable {σ : Type} {visit : σ → List σ × List NodeId} {stack stack' : List σ}
  {order order' : List NodeId}

/-- Walks that come to an end, with the nodes that they list: the entry on top of the stack says what
is put on the stack for it, and what is listed. -/
inductive Walks (visit : σ → List σ × List NodeId) : List σ → List NodeId → Prop
  | ended : Walks visit [] []
  | take {top : σ} {stack : List σ} {order : List NodeId}
      (later : Walks visit ((visit top).1 ++ stack) order) :
      Walks visit (top :: stack) ((visit top).2 ++ order)

namespace Walks

theorem unique (walks : Walks visit stack order) (other : Walks visit stack order') :
    order' = order := by
  induction walks generalizing order' with
  | ended =>
    cases other
    rfl
  | take _ ih =>
    cases other with
    | take later => rw [ih later]

theorem iff_eq (walks : Walks visit stack order) :
    ∀ order', Walks visit stack order' ↔ order' = order := fun _ =>
  ⟨walks.unique, fun same => same ▸ walks⟩

/-- What is on top of a stack is walked through before what is below. -/
theorem append (walks : Walks visit stack order) (below : Walks visit stack' order') :
    Walks visit (stack ++ stack') (order ++ order') := by
  induction walks with
  | ended => exact below
  | @take top stack order _ ih =>
    rw [List.append_assoc] at ih ⊢
    exact .take ih

/-- So a list of entries is walked through one after the other. -/
theorem flatMap (entry : NodeId → σ) {list : NodeId → List NodeId} {ids : List NodeId}
    (each : ∀ id ∈ ids, Walks visit [entry id] (list id)) :
    Walks visit (ids.map entry) (ids.flatMap list) := by
  induction ids with
  | nil => exact .ended
  | cons id rest ih =>
    obtain ⟨first, others⟩ := List.forall_mem_cons.1 each
    exact first.append (ih others)

end Walks

end

/-- Lists a node if it is wanted, and goes on with its children. -/
def visitDown (t : ParseTree) (wanted : NodeId → Bool) (id : NodeId) : List NodeId × List NodeId :=
  (t.children id, if wanted id then [id] else [])

/-- Lists a node that is marked. One that is not comes back, marked, after its children. -/
def visitUp (t : ParseTree) : NodeId × Bool → List (NodeId × Bool) × List NodeId
  | (id, true) => ([], [id])
  | (id, false) => ((t.children id).map (·, false) ++ [(id, true)], [])

namespace Founded

/-- The children are put on top of the stack, so all that is under them is listed first. -/
theorem walks_down (founded : t.Founded) (wanted : NodeId → Bool) (id : NodeId) :
    Walks (t.visitDown wanted) [id] ((founded.preorder id).filter wanted) := by
  induction id using founded.induction with
  | _ id ih =>
    have below := Walks.flatMap (fun c => c) ih
    rw [List.map_id'] at below
    have parts : (founded.preorder id).filter wanted = (t.visitDown wanted id).2 ++
        (t.children id).flatMap fun c => (founded.preorder c).filter wanted := by
      rw [preorder_eq, List.filter_cons, List.filter_flatMap, visitDown]
      split <;> rfl
    rw [parts]
    refine .take ?_
    rw [List.append_nil]
    exact below

theorem walks_up (founded : t.Founded) (id : NodeId) :
    Walks t.visitUp [(id, false)] (founded.postorder id) := by
  induction id using founded.induction with
  | _ id ih =>
    -- The node stays on the stack, marked, until all that is under it is listed.
    have back : Walks t.visitUp [(id, true)] [id] := .take .ended
    have below := (Walks.flatMap (·, false) ih).append back
    rw [postorder_eq]
    refine .take ?_
    rwa [List.append_nil]

end Founded

variable {parent : Option NodeId} {level : Nat} {f : Planted}

theorem Holds.acc (held : t.Holds parent level f) :
    ∀ id ∈ f.places, Acc (fun c p => c ∈ t.children p) id := by
  induction f generalizing parent level with
  | nil => exact fun _ member => absurd member List.not_mem_nil
  | node entry children rest ihChildren ihRest =>
    obtain ⟨k, l⟩ := entry
    intro id member
    rw [places_node] at member
    rcases List.mem_cons.1 member with rfl | member
    · refine .intro _ fun c child => ihChildren held.2.1 c ?_
      exact tops_subset_places _ c (held.children_eq ▸ child)
    · exact (List.mem_append.1 member).elim (ihChildren held.2.1 id) (ihRest held.2.2 id)

theorem Carries.founded (carries : t.Carries f) : t.Founded := by
  refine ⟨fun id => ?_⟩
  by_cases member : id ∈ f.places
  · simpa only [children_shut] using carries.held.acc id member
  · exact .intro _ fun c child => absurd (carries.mem_places_of_child child) member

/-- Recursion over the array gives the orders of the forest that it holds. -/
theorem Holds.flatMap_preorder (held : t.shut.Holds parent level f) (founded : t.Founded) :
    f.tops.flatMap founded.preorder = f.places := by
  induction f generalizing parent level with
  | nil => rfl
  | node entry children rest ihChildren ihRest =>
    obtain ⟨k, l⟩ := entry
    rw [tops_node, List.flatMap_cons, founded.preorder_eq, ← children_shut, held.children_eq,
      ihChildren held.2.1, ihRest held.2.2, places_node, List.cons_append]

theorem Holds.flatMap_postorder (held : t.shut.Holds parent level f) (founded : t.Founded) :
    f.tops.flatMap founded.postorder = f.postorder.map Prod.fst := by
  induction f generalizing parent level with
  | nil => rfl
  | node entry children rest ihChildren ihRest =>
    obtain ⟨k, l⟩ := entry
    rw [tops_node, List.flatMap_cons, founded.postorder_eq, ← children_shut, held.children_eq,
      ihChildren held.2.1, ihRest held.2.2, postorder, List.map_append, List.map_cons,
      List.append_assoc, List.singleton_append]

theorem postOrderFrom_shut (t : ParseTree) (fuel : Nat) (stack : List (NodeId × Bool)) :
    t.shut.postOrderFrom fuel stack = t.postOrderFrom fuel stack := by
  induction fuel generalizing stack with
  | zero => rfl
  | succ fuel ih =>
    match stack with
    | [] => rfl
    | (id, true) :: rest => rw [postOrderFrom, postOrderFrom, ih]
    | (id, false) :: rest => rw [postOrderFrom, postOrderFrom, children_shut, ih]

namespace Carries

theorem preOrder_eq_flatMap (carries : t.Carries f) (founded : t.Founded) :
    t.preOrder = t.root.toList.flatMap founded.preorder := by
  rw [carries.preOrder_eq, ← carries.tops_eq, carries.held.flatMap_preorder]

theorem postOrder_eq_flatMap (carries : t.Carries f) (founded : t.Founded) :
    t.postOrder = t.root.toList.flatMap founded.postorder := by
  have enough := Nat.mul_le_mul_left 2 (carries.held.size_le carries.distinct)
  rw [size_shut] at enough
  rw [postOrder, ← carries.tops_eq, carries.held.flatMap_postorder, ← postOrderFrom_shut]
  exact postOrderFrom_tops carries.held _ enough

/-- A node that was cut out has no children, so a walk from it has one step. -/
theorem below_eq (carries : t.Carries f) (founded : t.Founded) {id : NodeId}
    (inside : id < t.nodes.size) : t.below id = founded.preorder id := by
  by_cases member : id ∈ f.places
  · obtain ⟨l, above, depth, held⟩ := carries.held.tree_under member
    have apart : (tree (id, l) (f.under id)).places.Nodup := nodup_tree_under carries.distinct id l
    have walk := preOrderFrom_tops held _ (held.size_le apart)
    rw [← held.flatMap_preorder founded, preOrderFrom_shut, size_shut] at walk
    exact walk.trans (List.flatMap_singleton ..)
  · have bare : t.children id = [] :=
      List.eq_nil_iff_forall_not_mem.2 fun c child => member (carries.mem_places_of_child child)
    obtain ⟨n, size⟩ := Nat.exists_eq_add_of_lt inside
    rw [founded.preorder_eq, bare, below, size, preOrderFrom, bare]
    exact congrArg (id :: ·) (preOrderFrom_nil _)

end Carries

/-- The walks over a tree and recursion over its children. -/
structure Walked (t : ParseTree) (founded : t.Founded) : Prop where
  /-- Walks from the root come to an end, and list what recursion lists. -/
  preOrder : t.preOrder = t.root.toList.flatMap founded.preorder ∧
    ∀ order, Walks (t.visitDown fun _ => true) t.root.toList order ↔ order = t.preOrder
  postOrder : t.postOrder = t.root.toList.flatMap founded.postorder ∧
    ∀ order, Walks t.visitUp (t.root.toList.map (·, false)) order ↔ order = t.postOrder
  /-- So do walks from any node to the leaves under it. -/
  leaves : ∀ id < t.nodes.size, t.leaves id = (founded.preorder id).filter t.isLeaf ∧
    ∀ order, Walks (t.visitDown t.isLeaf) [id] order ↔ order = t.leaves id
  /-- Both orders list the same nodes once. -/
  once : t.preOrder.Nodup ∧ t.postOrder.Perm t.preOrder
  /-- A node comes before its children in one of them, and after them in the other. -/
  pairs : ∀ p c, c ∈ t.children p → [p, c].Sublist t.preOrder ∧ [c, p].Sublist t.postOrder
  root : ∀ root, t.root = some root → t.leaves root = t.preOrder.filter t.isLeaf

theorem Carries.walked (carries : t.Carries f) (founded : t.Founded) : t.Walked founded where
  preOrder := by
    have each : ∀ id ∈ t.root.toList,
        Walks (t.visitDown fun _ => true) [id] (founded.preorder id) := fun id _ => by
      have walks := founded.walks_down (fun _ => true) id
      rwa [List.filter_eq_self.2 fun _ _ => rfl] at walks
    have walks := Walks.flatMap (fun id => id) each
    rw [List.map_id', ← carries.preOrder_eq_flatMap founded] at walks
    exact ⟨carries.preOrder_eq_flatMap founded, walks.iff_eq⟩
  postOrder := by
    have walks := Walks.flatMap (·, false) fun id (_ : id ∈ t.root.toList) => founded.walks_up id
    rw [← carries.postOrder_eq_flatMap founded] at walks
    exact ⟨carries.postOrder_eq_flatMap founded, walks.iff_eq⟩
  leaves id inside := by
    have walks := founded.walks_down t.isLeaf id
    rw [← carries.below_eq founded inside] at walks ⊢
    exact ⟨rfl, walks.iff_eq⟩
  once := by
    refine ⟨carries.represents.once.1, ?_⟩
    rw [carries.preOrder_eq_flatMap founded, carries.postOrder_eq_flatMap founded]
    exact .flatMap_left _ fun id _ => founded.postorder_perm id
  pairs p c child := by
    have attached := carries.mem_places_iff.1 (carries.mem_places_of_child child)
    obtain ⟨root, same, way⟩ := (carries.represents.reached p).1 attached
    rw [carries.preOrder_eq_flatMap founded, carries.postOrder_eq_flatMap founded, same,
      Option.toList_some, List.flatMap_singleton, List.flatMap_singleton]
    exact founded.pair_sublist way child
  root root same := by
    have top : root ∈ f.tops := by
      rw [carries.tops_eq, same]
      exact List.mem_singleton_self root
    have inside := carries.lt_size root (tops_subset_places f root top)
    rw [leaves, carries.below_eq founded inside, carries.preOrder_eq_flatMap founded, same,
      Option.toList_some, List.flatMap_singleton]

/-- The walks over a tree that is built step by step are recursion over the children, which comes to
an end. -/
theorem walked_of_built {graft : ParseTree → Prop} (built : Built graft t) :
    ∃ founded : t.Founded, t.Walked founded := by
  obtain ⟨⟨f, carries⟩, -⟩ := built.invariant
  exact ⟨carries.founded, carries.walked carries.founded⟩

/-- A pair whose value is cut out, so that its number stands in its place, with a further node open. -/
theorem walked_of_built_pair : ∃ t : ParseTree, t.outline = "(pair key number more)" ∧
    t.active = some 4 ∧ t.preOrder = [0, 1, 3, 4] ∧ t.postOrder = [1, 3, 4, 0] ∧
    t.leaves 0 = [1, 3] ∧ t.leaves 2 = [] ∧ ∃ founded : t.Founded, t.Walked founded := by
  let token (name : String) : Token := { name, lexeme := name, attrs := {} }
  let scratch := (({} : ParseTree).leaf (token "number") .terminal).2
  let value := ((({} : ParseTree).enter "pair" .concatenation).2.leaf (token "key") .terminal).2.enter
    "value" .alternation
  let pair := (value.2.merge scratch).close.2.close.2
  have ofScratch : Built (fun _ => True) scratch := Built.empty.leaf (token "number") .terminal
  have ofPair : Built (fun _ => True) pair :=
    ((((Built.empty.enter "pair" .concatenation).leaf (token "key") .terminal).enter "value"
      .alternation).merge ofScratch trivial).close.close
  have closed : pair.isClosed = true := by decide +kernel
  have attached : pair.isDetached 2 = false := by decide +kernel
  have built := (ofPair.collapse (collapse_eq_ok closed attached)).enter "more" .option
  exact ⟨_, by decide +kernel, by decide +kernel, by decide +kernel, by decide +kernel,
    by decide +kernel, by decide +kernel, walked_of_built built⟩

end AttrGrammar.ParseTree
