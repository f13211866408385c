import AttrGrammar.Proofs.Tree.Arena

/-!
What the steps that build a tree do to it, as forests grafted under its attach point.

A leaf, a merged tree, and a node that is entered, filled and closed again each graft one tree. The
main statements say so, and that grafts one after the other graft the forests side by side.
-/

namespace AttrGrammar

open Forest

section Cells

variable {α : Type}

theorem modify_append {a b : Array α} {i : Nat} (inside : i < a.size) (f : α → α) :
    (a ++ b).modify i f = a.modify i f ++ b := by
  apply Array.ext_getElem?
  intro j
  simp only [Array.getElem?_modify, Array.getElem?_append, Array.size_modify]
  grind

theorem modify_modify (a : Array α) (i : Nat) (f g : α → α) :
    (a.modify i f).modify i g = a.modify i (g ∘ f) := by
  apply Array.ext_getElem?
  intro j
  simp only [Array.getElem?_modify]
  split <;> simp

theorem modify_comm {i j : Nat} (apart : i ≠ j) (a : Array α) (f g : α → α) :
    (a.modify i f).modify j g = (a.modify j g).modify i f := by
  apply Array.ext_getElem?
  intro k
  simp only [Array.getElem?_modify]
  grind

theorem modify_append_size (a : Array α) (x : α) (xs : List α) (f : α → α) :
    (a ++ (x :: xs).toArray).modify a.size f = a ++ (f x :: xs).toArray := by
  apply Array.ext_getElem?
  intro k
  simp only [Array.getElem?_modify, Array.getElem?_append, List.getElem?_toArray]
  grind

end Cells

/-- A node with more children. -/
def Node.adopt (ids : List NodeId) (n : Node) : Node := { n with children := n.children ++ ids }

theorem Node.adopt_nil : Node.adopt [] = id := by
  funext n
  rw [adopt, List.append_nil]
  rfl

theorem Node.adopt_comp (xs ys : List NodeId) :
    Node.adopt ys ∘ Node.adopt xs = Node.adopt (xs ++ ys) := by
  funext n
  simp only [Function.comp_apply, adopt, List.append_assoc]

namespace ParseTree

/-- Adds the trees of a forest under the attach point. -/
def graft (t : ParseTree) (f : Forest Label) : ParseTree :=
  let planted := f.plant t.nodes.size
  let grown := t.nodes ++ (planted.nodes t.attachPoint (t.levelUnder t.attachPoint)).toArray
  match t.attachPoint with
  | some p => { t with nodes := grown.modify p (Node.adopt planted.tops) }
  | none => { t with nodes := grown, root := planted.tops.head? }

/-- A tree that can grow: a new one, or one with an active node. -/
def Growing (t : ParseTree) : Prop := t = {} ∨ ∃ p, t.active = some p ∧ p < t.nodes.size

theorem growing_empty : Growing {} := Or.inl rfl

theorem attachPoint_of_active {t : ParseTree} {p : NodeId} (active : t.active = some p) :
    t.attachPoint = some p := by
  rw [attachPoint, active]
  rfl

/-- What a graft does when a node is active. -/
theorem graft_of_active {t : ParseTree} {p : NodeId} (active : t.active = some p)
    (inside : p < t.nodes.size) (f : Forest Label) :
    t.graft f = { t with
      nodes := t.nodes.modify p (Node.adopt (f.plant t.nodes.size).tops) ++
        ((f.plant t.nodes.size).nodes (some p) (t.levelUnder (some p))).toArray } := by
  unfold graft
  rw [attachPoint_of_active active]
  simp only [modify_append inside]

@[simp] theorem active_graft (t : ParseTree) (f : Forest Label) :
    (t.graft f).active = t.active := by
  unfold graft
  split <;> rfl

@[simp] theorem size_nodes_graft (t : ParseTree) (f : Forest Label) :
    (t.graft f).nodes.size = t.nodes.size + f.size := by
  unfold graft
  split <;> simp

/-- The node under which a graft goes keeps its level. -/
theorem levelUnder_graft {t : ParseTree} {p : NodeId} (active : t.active = some p)
    (inside : p < t.nodes.size) (f : Forest Label) :
    (t.graft f).levelUnder (some p) = t.levelUnder (some p) := by
  have here : p < (t.nodes.modify p (Node.adopt (f.plant t.nodes.size).tops)).size := by
    rwa [Array.size_modify]
  rw [graft_of_active active inside, levelUnder, levelUnder, node?, node?,
    Array.getElem?_append_left here, Array.getElem?_modify, if_pos rfl,
    Array.getElem?_eq_getElem inside]
  rfl

theorem graft_nil {t : ParseTree} (growing : t.Growing) : t.graft nil = t := by
  rcases growing with rfl | ⟨p, active, inside⟩
  · rfl
  · rw [graft_of_active active inside]
    have same : t.nodes.modify p id = t.nodes := by
      apply Array.ext_getElem?
      intro i
      simp [Array.getElem?_modify]
    simp [plant, Forest.nodes, Node.adopt_nil, same]

/-- Under an active node, grafts add up. -/
theorem graft_graft {t : ParseTree} {p : NodeId} (active : t.active = some p)
    (inside : p < t.nodes.size) (f g : Forest Label) :
    (t.graft f).graft g = t.graft (f ++ g) := by
  have again : (t.graft f).active = some p := by rw [active_graft, active]
  have within : p < (t.graft f).nodes.size := by
    rw [size_nodes_graft]
    exact Nat.lt_add_right _ inside
  rw [graft_of_active again within, levelUnder_graft active inside, size_nodes_graft,
    graft_of_active active inside, graft_of_active active inside, plant_append, nodes_append,
    tops_append, ← Node.adopt_comp, ← modify_modify]
  have reach : p < (t.nodes.modify p (Node.adopt (f.plant t.nodes.size).tops)).size := by
    rwa [Array.size_modify]
  simp only [modify_append reach, List.append_toArray, Array.append_assoc]

theorem leaf_eq_graft (t : ParseTree) (token : Token) (kind : RuleKind) :
    (t.leaf token kind).2 = t.graft (tree (.ofToken token kind) nil) := by
  unfold leaf push graft attach
  cases t.attachPoint <;> rfl

/-- A new tree into which one tree was grafted. -/
theorem graft_empty (l : Label) (children : Forest Label) :
    ({} : ParseTree).graft (tree l children) =
      { nodes := (((tree l children).plant 0).nodes none 0).toArray, root := some 0 } := by
  simp [graft, attachPoint, levelUnder, tree, plant]

/-- A merge grafts what was grafted into the other tree when that was new. -/
theorem merge_graft {t : ParseTree} (growing : t.Growing) (l : Label) (children : Forest Label) :
    t.merge (({} : ParseTree).graft (tree l children)) = t.graft (tree l children) := by
  have moved (base : Nat) := nodes_shifted 0 t.nodes.size base none 0 (tree l children)
  simp only [Nat.zero_add, Option.map_none] at moved
  rw [graft_empty]
  rcases growing with rfl | ⟨p, active, inside⟩
  · rw [graft_empty]
    simp only [merge, List.map_toArray, moved, attachPoint, levelUnder]
    simp [attach]
  · have apart : p ≠ t.nodes.size := Nat.ne_of_lt inside
    unfold merge graft
    simp only [List.map_toArray, moved, Nat.zero_add, attachPoint_of_active active, attach, modify,
      modify_comm apart]
    simp only [tree, plant, Forest.nodes, tops_node, tops_nil, List.append_nil, modify_append_size]
    rfl

/-- Entering a node puts it at the end of the array, open and active. -/
theorem enter_of_active {t : ParseTree} {p : NodeId} (active : t.active = some p)
    (inside : p < t.nodes.size) (name : String) (kind : RuleKind) :
    (t.enter name kind).2 = { t with
      nodes := t.nodes.modify p (Node.adopt [t.nodes.size]) ++
        [{ Node.inner name kind with
          parent := some p, level := t.levelUnder (some p) }].toArray
      active := some t.nodes.size } := by
  unfold enter push
  simp only [attachPoint_of_active active, attach, modify, Array.push_eq_append,
    modify_append inside]
  rfl

/-- Filling and closing the last node of the array, when it is active. -/
theorem close_graft_last (before : Array Node) (last : Node) (root : Option NodeId)
    (f : Forest Label) :
    (({ nodes := before ++ [last].toArray, root, active := some before.size } : ParseTree).graft
        f).close.2 =
      { nodes := before ++
          ({ last with
              children := last.children ++ (f.plant (before.size + 1)).tops, isOpen := false } ::
            (f.plant (before.size + 1)).nodes (some before.size) (last.level + 1)).toArray
        root
        active := last.parent } := by
  have inside : before.size < (before ++ [last].toArray).size := by simp
  have level : ({ nodes := before ++ [last].toArray, root, active := some before.size } :
      ParseTree).levelUnder (some before.size) = last.level + 1 := by
    simp [levelUnder, node?]
  rw [graft_of_active rfl inside, level]
  simp only [modify_append_size, Array.append_assoc, List.append_toArray, List.cons_append,
    List.nil_append, close, modify, parent?, node?]
  simp [Node.adopt]

/-- A node that is entered, filled and closed again is a tree that was grafted. -/
theorem close_graft_enter {t : ParseTree} (growing : t.Growing) (name : String) (kind : RuleKind)
    (f : Forest Label) :
    ((t.enter name kind).2.graft f).close.2 = t.graft (tree (.inner name kind) f) := by
  rcases growing with rfl | ⟨p, active, inside⟩
  · have closed := close_graft_last #[] { Node.inner name kind with parent := none, level := 0 }
      (some 0) f
    rw [Array.empty_append, Array.empty_append] at closed
    rw [graft_empty, tree, plant, Forest.nodes, plant, Forest.nodes, List.append_nil]
    exact closed
  · have same : (t.nodes.modify p (Node.adopt [t.nodes.size])).size = t.nodes.size :=
      Array.size_modify
    have closed := close_graft_last (t.nodes.modify p (Node.adopt [t.nodes.size]))
      { Node.inner name kind with parent := some p, level := t.levelUnder (some p) } t.root f
    rw [same] at closed
    rw [enter_of_active active inside, closed, graft_of_active active inside, tree, plant,
      Forest.nodes, plant, Forest.nodes, List.append_nil, ← active]
    rfl

end ParseTree

end AttrGrammar
