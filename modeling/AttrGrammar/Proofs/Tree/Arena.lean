import AttrGrammar.Proofs.Tree.Forest
import AttrGrammar.Tree.Traversal

/-!
Trees held by arrays of nodes.

An array holds a planted forest if each place has the node that the forest has there. The main
statements say that the walks with a stack then visit the nodes in the orders of the forest.
-/

namespace AttrGrammar

open Forest

/-- The array has the nodes of a planted forest, under a parent and at a level. -/
def ParseTree.Holds (t : ParseTree) (parent : Option NodeId) (level : Nat) : Planted → Prop
  | nil => True
  | node (id, l) children rest =>
    t.node? id = some (l.toNode children.tops parent level) ∧
      t.Holds (some id) (level + 1) children ∧ t.Holds parent level rest

namespace ParseTree

variable {t : ParseTree} {parent : Option NodeId} {level : Nat}

@[simp] theorem holds_append (f g : Planted) :
    t.Holds parent level (f ++ g) ↔ t.Holds parent level f ∧ t.Holds parent level g := by
  induction f with
  | nil => simp [Holds]
  | node entry children rest _ ih => simp only [node_append, Holds, ih, and_assoc]

/-- A stretch of the array that lists a forest holds it. -/
theorem holds_of_nodes (f : Forest Label) (before after : List Node)
    (listed : t.nodes.toList = before ++ (f.plant before.length).nodes parent level ++ after) :
    t.Holds parent level (f.plant before.length) := by
  induction f generalizing parent level before after with
  | nil => trivial
  | node l children rest ihChildren ihRest =>
    simp only [plant, Forest.nodes, List.append_assoc, List.cons_append] at listed
    refine ⟨?_, ?_, ?_⟩
    · rw [node?, ← Array.getElem?_toList, listed,
        List.getElem?_append_right (Nat.le_refl _), Nat.sub_self, List.getElem?_cons_zero]
    · have place : before.length + 1 =
          (before ++ [l.toNode (tops (plant (before.length + 1) children)) parent level]).length := by
        simp
      rw [place]
      apply ihChildren
      rw [← place, listed]
      simp only [List.append_assoc, List.cons_append, List.nil_append]
      rfl
    · have place : before.length + 1 + children.size =
          (before ++ l.toNode (tops (plant (before.length + 1) children)) parent level ::
            (plant (before.length + 1) children).nodes (some before.length) (level + 1)).length := by
        simp
        omega
      rw [place]
      apply ihRest _ after
      rw [← place, listed]
      simp only [List.append_assoc, List.cons_append]

theorem Holds.node? {f : Planted} (held : t.Holds parent level f) {id : NodeId} {l : Label}
    (member : (id, l) ∈ f.preorder) :
    ∃ children above depth, t.node? id = some (l.toNode children above depth) := by
  induction f generalizing parent level with
  | nil => simp [preorder] at member
  | node entry children rest ihChildren ihRest =>
    obtain ⟨here, below, beside⟩ := held
    simp only [preorder, List.mem_cons, List.mem_append] at member
    rcases member with rfl | inside | later
    · exact ⟨_, _, _, here⟩
    · exact ihChildren below inside
    · exact ihRest beside later

/-- The children of a top node are the trees under it. -/
theorem Holds.children_eq {id : NodeId} {l : Label} {children rest : Planted}
    (held : t.Holds parent level (node (id, l) children rest)) :
    t.children id = children.tops := by
  simp only [ParseTree.children, held.1, Label.toNode]

/-- A walk with enough steps left takes the trees on top of its stack first. -/
theorem preOrderFrom_holds {f : Planted} (held : t.Holds parent level f) (fuel : Nat)
    (stack : List NodeId) :
    t.preOrderFrom (f.size + fuel) (f.tops ++ stack) = f.places ++ t.preOrderFrom fuel stack := by
  induction f generalizing parent level fuel stack with
  | nil => simp
  | node entry children rest ihChildren ihRest =>
    obtain ⟨id, l⟩ := entry
    have steps : (node (id, l) children rest).size + fuel =
        (children.size + (rest.size + fuel)) + 1 := by
      rw [size_node]
      omega
    rw [steps, tops_node, List.cons_append, preOrderFrom, held.children_eq,
      ihChildren held.2.1, ihRest held.2.2, places_node, List.cons_append, List.append_assoc]

@[simp] theorem preOrderFrom_nil (fuel : Nat) : t.preOrderFrom fuel [] = [] := by
  cases fuel <;> rfl

theorem preOrderFrom_tops {f : Planted} (held : t.Holds parent level f) (fuel : Nat)
    (enough : f.size ≤ fuel) : t.preOrderFrom fuel f.tops = f.places := by
  have walk := preOrderFrom_holds held (fuel - f.size) []
  rwa [Nat.add_sub_cancel' enough, List.append_nil, preOrderFrom_nil, List.append_nil] at walk

/-- The same for the walk that visits children first; it takes two steps for each node. -/
theorem postOrderFrom_holds {f : Planted} (held : t.Holds parent level f) (fuel : Nat)
    (stack : List (NodeId × Bool)) :
    t.postOrderFrom (2 * f.size + fuel) (f.tops.map (·, false) ++ stack) =
      f.postorder.map Prod.fst ++ t.postOrderFrom fuel stack := by
  induction f generalizing parent level fuel stack with
  | nil => simp [postorder]
  | node entry children rest ihChildren ihRest =>
    obtain ⟨id, l⟩ := entry
    have steps : 2 * (node (id, l) children rest).size + fuel =
        (2 * children.size + ((2 * rest.size + fuel) + 1)) + 1 := by
      rw [size_node]
      omega
    rw [steps, tops_node, List.map_cons, List.cons_append, postOrderFrom, held.children_eq,
      ihChildren held.2.1, postOrderFrom, ihRest held.2.2]
    simp [postorder]

@[simp] theorem postOrderFrom_nil (fuel : Nat) : t.postOrderFrom fuel [] = [] := by
  cases fuel <;> rfl

theorem postOrderFrom_tops {f : Planted} (held : t.Holds parent level f) (fuel : Nat)
    (enough : 2 * f.size ≤ fuel) :
    t.postOrderFrom fuel (f.tops.map (·, false)) = f.postorder.map Prod.fst := by
  have walk := postOrderFrom_holds held (fuel - 2 * f.size) []
  rwa [Nat.add_sub_cancel' enough, List.append_nil, postOrderFrom_nil, List.append_nil] at walk

theorem isClosed_of_holds {f : Planted} (idle : t.active = none) (order : t.preOrder = f.places)
    (held : t.Holds parent level f) : t.isClosed = true := by
  simp only [isClosed, idle, Option.isNone_none, Bool.true_and, order, List.all_eq_true]
  intro id member
  obtain ⟨entry, listed, rfl⟩ := List.mem_map.1 member
  obtain ⟨children, above, depth, found⟩ := held.node? listed
  rw [found]
  rfl

/-- The leaves at the places of a forest have the labels of its leaves. -/
theorem leaves_of_holds {f : Planted} (held : t.Holds parent level f) :
    ((f.places.filter t.isLeaf).filterMap t.node?).map (fun n => (n.token, n.name, n.attrs)) =
      ((f.preorder.map Prod.snd).filter Label.isLeaf).map
        fun l => (l.token, l.name, l.attrs) := by
  induction f generalizing parent level with
  | nil => rfl
  | node entry children rest ihChildren ihRest =>
    obtain ⟨id, l⟩ := entry
    obtain ⟨here, below, beside⟩ := held
    have leaf : t.isLeaf id = l.isLeaf := by
      rw [isLeaf, here]
      rfl
    rw [places_node, preorder, List.map_cons, List.map_append]
    by_cases visible : l.isLeaf = true
    · rw [List.filter_cons_of_pos (leaf.trans visible), List.filter_cons_of_pos visible,
        List.filterMap_cons_some here, List.map_cons, List.map_cons, List.filter_append,
        List.filterMap_append, List.map_append, ihChildren below, ihRest beside, List.filter_append,
        List.map_append]
      rfl
    · rw [List.filter_cons_of_neg (by rwa [leaf]), List.filter_cons_of_neg visible,
        List.filter_append, List.filterMap_append, List.map_append, ihChildren below,
        ihRest beside, List.filter_append, List.map_append]

end ParseTree

end AttrGrammar
