import AttrGrammar.Proofs.Attribution.Evaluation
import AttrGrammar.Proofs.Tree.Graft
import AttrGrammar.Proofs.Tree.Order

/-!
Trees that grow, with nodes that are open and nodes that were cut out before.

With all its nodes closed, the array of such a tree holds a planted forest of at most one tree, and
each node outside the forest is cut out. Every step that adds nodes hangs a tree under one of the
places. One lemma for each kind of step.
-/

namespace AttrGrammar

namespace Forest

/-- Hangs trees under a place, after those that are there. -/
def hang (p : NodeId) : (f g : Planted) → Planted
  | nil, _ => nil
  | node entry children rest, g =>
    if entry.1 = p then node entry (children ++ g) rest
    else node entry (hang p children g) (hang p rest g)

/-- Hangs trees under a place, or beside those that are there. -/
def hangAt : Option NodeId → (f g : Planted) → Planted
  | some p, f, g => f.hang p g
  | none, f, g => f ++ g

/-- A planted forest at other places. -/
def moved (offset : Nat) (f : Planted) : Planted := f.map fun entry => (entry.1 + offset, entry.2)

variable {f g : Planted} {p : NodeId}

theorem hang_absent (absent : p ∉ f.places) : f.hang p g = f := by
  induction f with
  | nil => rfl
  | node entry children rest ihChildren ihRest =>
    obtain ⟨k, l⟩ := entry
    rw [places_node, List.mem_cons, List.mem_append, not_or, not_or] at absent
    obtain ⟨other, inside, beside⟩ := absent
    rw [hang, if_neg (Ne.symm other), ihChildren inside, ihRest beside]

@[simp] theorem tops_hang (p : NodeId) (f g : Planted) : (f.hang p g).tops = f.tops := by
  induction f with
  | nil => rfl
  | node entry children rest _ ih =>
    obtain ⟨k, l⟩ := entry
    rw [hang]
    split
    · rfl
    · rw [tops_node, tops_node, ih]

theorem places_hang (distinct : f.places.Nodup) (member : p ∈ f.places) :
    (f.hang p g).places.Perm (f.places ++ g.places) := by
  induction f with
  | nil => cases member
  | node entry children rest ihChildren ihRest =>
    obtain ⟨k, l⟩ := entry
    obtain ⟨⟨notInside, notBeside⟩, inside, beside, apart⟩ := distinct_node distinct
    dsimp only at notInside notBeside
    rw [places_node] at member
    rw [hang]
    split
    · rw [places_node, places_node, places_append, List.cons_append, List.append_assoc,
        List.append_assoc]
      exact (List.perm_append_comm.append_left _).cons k
    · next other =>
      rw [places_node, places_node, List.cons_append]
      refine List.Perm.cons k ?_
      rcases List.mem_append.1 ((List.mem_cons.1 member).resolve_left (Ne.symm other)) with
        below | later
      · rw [hang_absent (apart p below)]
        refine ((ihChildren inside below).append_right _).trans ?_
        rw [List.append_assoc, List.append_assoc]
        exact List.perm_append_comm.append_left _
      · rw [hang_absent fun below => apart p below later, List.append_assoc]
        exact (ihRest beside later).append_left _

@[simp] theorem tops_moved (offset : Nat) (f : Planted) :
    (f.moved offset).tops = f.tops.map (· + offset) := by
  rw [tops, moved, roots_map, List.map_map, tops, List.map_map]
  rfl

@[simp] theorem places_moved (offset : Nat) (f : Planted) :
    (f.moved offset).places = f.places.map (· + offset) := by
  rw [places, moved, preorder_map, List.map_map, places, List.map_map]
  rfl

/-- A forest of one tree. -/
theorem exists_tree_of_tops {top : NodeId} (single : f.tops = [top]) :
    ∃ l children, f = tree (top, l) children := by
  cases f with
  | nil => cases single
  | node entry children rest =>
    obtain ⟨k, l⟩ := entry
    rw [tops_node, List.cons.injEq] at single
    obtain ⟨rfl, nothing⟩ := single
    cases rest with
    | nil => exact ⟨l, children, rfl⟩
    | node => cases nothing

theorem eq_nil_of_tops (topless : f.tops = []) : f = nil := by
  cases f with
  | nil => rfl
  | node => cases topless

end Forest

open Forest

/-- A node that is closed. -/
def Node.shut (n : Node) : Node := { n with isOpen := false }

namespace ParseTree

variable {t t' : ParseTree} {parent : Option NodeId} {level : Nat}

/-- A tree with all nodes closed. -/
def shut (t : ParseTree) : ParseTree := { t with nodes := t.nodes.map Node.shut }

@[simp] theorem node?_shut (t : ParseTree) (id : NodeId) :
    t.shut.node? id = (t.node? id).map Node.shut := by
  rw [shut, node?, Array.getElem?_map]
  rfl

@[simp] theorem children_shut (t : ParseTree) (id : NodeId) : t.shut.children id = t.children id := by
  rw [children, children, node?_shut]
  cases t.node? id <;> rfl

@[simp] theorem parent?_shut (t : ParseTree) (id : NodeId) : t.shut.parent? id = t.parent? id := by
  rw [parent?, parent?, node?_shut]
  cases t.node? id <;> rfl

@[simp] theorem size_shut (t : ParseTree) : t.shut.nodes.size = t.nodes.size := Array.size_map ..

theorem preOrderFrom_shut (t : ParseTree) (fuel : Nat) (stack : List NodeId) :
    t.shut.preOrderFrom fuel stack = t.preOrderFrom fuel stack := by
  induction fuel generalizing stack with
  | zero => rfl
  | succ fuel ih =>
    cases stack with
    | nil => rfl
    | cons id rest => rw [preOrderFrom, preOrderFrom, children_shut, ih]

@[simp] theorem preOrder_shut (t : ParseTree) : t.shut.preOrder = t.preOrder := by
  rw [preOrder, preOrder, size_shut, preOrderFrom_shut]
  rfl

/-- A node that was cut out. -/
structure Gone (n : Node) : Prop where
  detached : n.detached = true
  closed : n.isOpen = false
  children : n.children = []
  parent : n.parent = none

/-- The array holds a forest of at most one tree, up to which nodes are open, with the active node in
it; all other nodes were cut out. -/
structure Carries (t : ParseTree) (f : Planted) : Prop where
  held : t.shut.Holds none 0 f
  distinct : f.places.Nodup
  root : t.root = f.tops.head?
  single : f.tops.length ≤ 1
  active : ∀ id, t.active = some id → id ∈ f.places
  gone : ∀ id n, t.node? id = some n → id ∉ f.places → Gone n

theorem carries_empty : Carries {} nil :=
  ⟨trivial, List.nodup_nil, rfl, Nat.zero_le _, nofun, fun id n found => by cases found⟩

namespace Carries

variable {f g : Planted}

theorem tops_eq (carries : t.Carries f) : f.tops = t.root.toList := by
  have few := carries.single
  rw [carries.root]
  cases tops : f.tops with
  | nil => rfl
  | cons first others =>
    rw [tops, List.length_cons] at few
    rw [List.length_eq_zero_iff.1 (by omega : others.length = 0)]
    rfl

theorem lt_size (carries : t.Carries f) : ∀ id ∈ f.places, id < t.nodes.size := by
  intro id member
  have inside := carries.held.lt_size id member
  rwa [size_shut] at inside

/-- New nodes go under a place of the forest, or the forest is empty. -/
theorem attachPoint_cases (carries : t.Carries f) :
    (∃ p ∈ f.places, t.attachPoint = some p) ∨ t.attachPoint = none ∧ t.root = none ∧ f = nil := by
  unfold attachPoint
  cases active : t.active with
  | some p => exact Or.inl ⟨p, carries.active p active, rfl⟩
  | none =>
    cases root : t.root with
    | some p =>
      refine Or.inl ⟨p, tops_subset_places f p ?_, rfl⟩
      rw [carries.tops_eq, root]
      exact List.mem_singleton_self p
    | none =>
      refine Or.inr ⟨rfl, rfl, eq_nil_of_tops ?_⟩
      rw [carries.tops_eq, root]
      rfl

end Carries

/-- Trees that are put under a place hang there. -/
theorem Holds.hang {s s' : ParseTree} {f g : Planted} (held : s.Holds parent level f)
    (distinct : f.places.Nodup) {p : NodeId} {n : Node} (member : p ∈ f.places)
    (found : s.node? p = some n) (new : s'.Holds (some p) (n.level + 1) g)
    (frame : ∀ j ∈ f.places, s'.node? j =
      if p = j then (s.node? j).map (Node.adopt g.tops) else s.node? j) :
    s'.Holds parent level (f.hang p g) := by
  induction f generalizing parent level with
  | nil => cases member
  | node entry children rest ihChildren ihRest =>
    obtain ⟨k, l⟩ := entry
    obtain ⟨⟨notInside, notBeside⟩, inside, beside, apart⟩ := distinct_node distinct
    dsimp only at notInside notBeside
    rw [places_node] at member frame
    have frameHere := frame k List.mem_cons_self
    have frameChildren : ∀ j ∈ children.places, _ := fun j below =>
      frame j (List.mem_cons_of_mem _ (List.mem_append_left _ below))
    have frameRest : ∀ j ∈ rest.places, _ := fun j later =>
      frame j (List.mem_cons_of_mem _ (List.mem_append_right _ later))
    have same : ∀ {h : Planted} {above : Option NodeId} {depth : Nat}, s.Holds above depth h →
        (∀ j ∈ h.places, s'.node? j =
          if p = j then (s.node? j).map (Node.adopt g.tops) else s.node? j) →
        p ∉ h.places → s'.Holds above depth h := by
      intro h above depth held frame absent
      refine held.congr fun j listed => ?_
      rw [frame j listed, if_neg fun here : p = j => absent (here ▸ listed)]
    rw [Forest.hang]
    by_cases here : k = p
    · subst here
      rw [if_pos rfl]
      cases held.1.symm.trans found
      refine ⟨?_, (holds_append _ _).2 ⟨same held.2.1 frameChildren notInside, new⟩,
        same held.2.2 frameRest notBeside⟩
      rw [frameHere, if_pos rfl, held.1, tops_append]
      rfl
    · rw [if_neg here]
      have other : ¬ p = k := Ne.symm here
      rw [if_neg other] at frameHere
      rcases List.mem_append.1 ((List.mem_cons.1 member).resolve_left other) with below | later
      · rw [hang_absent (apart p below)]
        refine ⟨?_, ihChildren held.2.1 inside below frameChildren,
          same held.2.2 frameRest (apart p below)⟩
        rw [frameHere, held.1, tops_hang]
      · have above : p ∉ children.places := fun below => apart p below later
        rw [hang_absent above]
        exact ⟨frameHere.trans held.1, same held.2.1 frameChildren above,
          ihRest held.2.2 beside later frameRest⟩

/-- A copy of the nodes at other places and levels. -/
theorem Holds.moved {s s' : ParseTree} {f : Planted} (held : s.Holds parent level f)
    (offset base : Nat) (copied : ∀ j ∈ f.places,
      s'.node? (j + offset) = (s.node? j).map (shifted offset base)) :
    s'.Holds (parent.map (· + offset)) (level + base) (f.moved offset) := by
  induction f generalizing parent level with
  | nil => trivial
  | node entry children rest ihChildren ihRest =>
    obtain ⟨k, l⟩ := entry
    rw [places_node] at copied
    refine ⟨?_, ?_, ihRest held.2.2 fun j later =>
      copied j (List.mem_cons_of_mem _ (List.mem_append_right _ later))⟩
    · rw [copied k List.mem_cons_self, held.1]
      change some _ = some (l.toNode (children.moved offset).tops _ _)
      rw [tops_moved]
      rfl
    · have below := ihChildren held.2.1 fun j below =>
        copied j (List.mem_cons_of_mem _ (List.mem_append_left _ below))
      rwa [Nat.add_right_comm] at below

/-- The level of new nodes is not changed by closing nodes. -/
theorem levelUnder_shut (t : ParseTree) (parent : Option NodeId) :
    t.shut.levelUnder parent = t.levelUnder parent := by
  cases parent with
  | none => rfl
  | some p =>
    rw [levelUnder, levelUnder, node?_shut]
    cases t.node? p <;> rfl

namespace Carries

variable {f g : Planted}

/-- A tree that is put under the attach point, with nothing else changed. -/
theorem attach (carries : t.Carries f) {top : NodeId} (single : g.tops = [top])
    (fresh : ∀ id ∈ g.places, t.nodes.size ≤ id) (distinct : g.places.Nodup)
    (new : t'.shut.Holds t.attachPoint (t.levelUnder t.attachPoint) g)
    (frame : ∀ j < t.nodes.size, t'.node? j =
      if t.attachPoint = some j then (t.node? j).map (Node.adopt g.tops) else t.node? j)
    (gone : ∀ j n, t.nodes.size ≤ j → t'.node? j = some n → j ∉ g.places → Gone n)
    (root : t'.root = if t.attachPoint = none then some top else t.root)
    (active : t'.active = t.active) : t'.Carries (hangAt t.attachPoint f g) := by
  rcases carries.attachPoint_cases with ⟨p, member, point⟩ | ⟨point, noRoot, rfl⟩
  · rw [point] at new frame root ⊢
    have perm := places_hang (g := g) carries.distinct member
    have apart : ∀ id ∈ f.places, id ∉ g.places := fun id old also =>
      Nat.lt_irrefl _ (Nat.lt_of_lt_of_le (carries.lt_size id old) (fresh id also))
    obtain ⟨n, found, -⟩ := carries.held.found member
    refine ⟨?_, ?_, ?_, ?_, ?_, ?_⟩
    · refine carries.held.hang carries.distinct member found ?_ fun j listed => ?_
      · rw [← levelUnder_shut, levelUnder, found] at new
        exact new
      · rw [node?_shut, node?_shut, frame j (carries.lt_size j listed)]
        by_cases here : p = j
        · rw [if_pos (congrArg some here), if_pos here, Option.map_map, Option.map_map]
          rfl
        · rw [if_neg fun same => here (Option.some.inj same), if_neg here]
    · refine perm.nodup_iff.2 (List.nodup_append.2 ⟨carries.distinct, distinct, ?_⟩)
      rintro i old j also rfl
      exact apart i old also
    · rw [root, if_neg (Option.some_ne_none p)]
      exact carries.root.trans (congrArg List.head? (tops_hang p f g).symm)
    · exact (tops_hang p f g).symm ▸ carries.single
    · intro id now
      exact perm.mem_iff.2 (List.mem_append_left _ (carries.active id (active ▸ now)))
    · intro j m here outside
      have outside : j ∉ f.places ∧ j ∉ g.places := by
        have away : j ∉ f.places ++ g.places := fun member => outside (perm.mem_iff.2 member)
        rwa [List.mem_append, not_or] at away
      rcases Nat.lt_or_ge j t.nodes.size with old | late
      · have other : ¬ some p = some j := fun same => outside.1 (Option.some.inj same ▸ member)
        rw [frame j old, if_neg other] at here
        exact carries.gone j m here outside.1
      · exact gone j m late here outside.2
  · rw [point] at new frame root ⊢
    rw [hangAt, nil_append]
    refine ⟨new, distinct, ?_, ?_, ?_, ?_⟩
    · rw [root, if_pos rfl, single]
      rfl
    · rw [single]
      exact Nat.le_refl 1
    · intro id now
      exact absurd (carries.active id (active ▸ now)) List.not_mem_nil
    · intro j m here outside
      rcases Nat.lt_or_ge j t.nodes.size with old | late
      · rw [frame j old, if_neg (Option.some_ne_none j).symm] at here
        exact carries.gone j m here List.not_mem_nil
      · exact gone j m late here outside

end Carries

theorem node?_attach (t : ParseTree) (parent : Option NodeId) (child j : NodeId) :
    (t.attach parent child).node? j =
      if parent = some j then (t.node? j).map (Node.adopt [child]) else t.node? j := by
  cases parent with
  | none => rfl
  | some p =>
    rw [ParseTree.attach, node?_modify]
    by_cases here : p = j
    · rw [if_pos here, if_pos (congrArg some here)]
      rfl
    · rw [if_neg here, if_neg fun same => here (Option.some.inj same)]

theorem root_attach (t : ParseTree) (parent : Option NodeId) (child : NodeId) :
    (t.attach parent child).root = if parent = none then some child else t.root := by
  cases parent <;> rfl

theorem active_attach (t : ParseTree) (parent : Option NodeId) (child : NodeId) :
    (t.attach parent child).active = t.active := by
  cases parent <;> rfl

/-- The node that is put at the end of the array. -/
theorem node?_push {n : Node} (inside : ∀ p, t.attachPoint = some p → p < t.nodes.size)
    (j : NodeId) : (t.push n).2.node? j =
      if j = t.nodes.size then
        some { n with parent := t.attachPoint, level := t.levelUnder t.attachPoint }
      else if t.attachPoint = some j then (t.node? j).map (Node.adopt [t.nodes.size])
      else t.node? j := by
  rw [push, node?_attach, node?, Array.getElem?_push]
  by_cases last : j = t.nodes.size
  · have apart : ¬ t.attachPoint = some j := fun here => Nat.ne_of_lt (inside j here) last
    rw [if_neg apart, if_pos last, if_pos last]
  · rw [if_neg last, if_neg last]
    rfl

/-- The node of a merged tree, where its root goes under a parent. -/
def grafted (parent : Option NodeId) (isTop : Bool) (n : Node) : Node :=
  match parent, isTop with
  | some p, true => { n with parent := some p }
  | _, _ => n

@[simp] theorem grafted_inner (parent : Option NodeId) (n : Node) : grafted parent false n = n := by
  cases parent <;> rfl

theorem grafted_shut (parent : Option NodeId) (isTop : Bool) (n : Node) :
    (grafted parent isTop n).shut = grafted parent isTop n.shut := by
  unfold grafted
  split <;> rfl

theorem Gone.shifted {n : Node} (gone : Gone n) (offset base : Nat) :
    Gone (ParseTree.shifted offset base n) := by
  refine ⟨gone.detached, gone.closed, ?_, ?_⟩
  · rw [ParseTree.shifted, gone.children]
    rfl
  · rw [ParseTree.shifted, gone.parent]
    rfl

/-- The nodes of a merged tree stand after the others, in their order. -/
theorem node?_merge {other : ParseTree} {top : NodeId} (root : other.root = some top)
    (inside : ∀ p, t.attachPoint = some p → p < t.nodes.size) (j : NodeId) :
    (t.merge other).node? j =
      if j < t.nodes.size then
        if t.attachPoint = some j then (t.node? j).map (Node.adopt [top + t.nodes.size])
        else t.node? j
      else (other.node? (j - t.nodes.size)).map fun n =>
        grafted t.attachPoint (j == top + t.nodes.size)
          (shifted t.nodes.size (t.levelUnder t.attachPoint) n) := by
  have placed : ∀ j, ({ t with nodes := t.nodes ++ other.nodes.map (shifted t.nodes.size
      (t.levelUnder t.attachPoint)) } : ParseTree).node? j =
        if j < t.nodes.size then t.node? j
        else (other.node? (j - t.nodes.size)).map
          (shifted t.nodes.size (t.levelUnder t.attachPoint)) := by
    intro j
    rw [node?, Array.getElem?_append, Array.getElem?_map]
    rfl
  have late : ¬ top + t.nodes.size < t.nodes.size := Nat.not_lt.2 (Nat.le_add_left _ _)
  unfold merge
  rw [root]
  dsimp only
  cases point : t.attachPoint with
  | none =>
    rw [point] at placed
    have apart : ¬ none = some j := (Option.some_ne_none j).symm
    dsimp only
    rw [node?_attach, if_neg apart, if_neg apart, placed]
    rfl
  | some p =>
    rw [point] at placed
    dsimp only
    rw [node?_modify, node?_attach, placed]
    by_cases old : j < t.nodes.size
    · have other : ¬ top + t.nodes.size = j := fun here => late (here ▸ old)
      rw [if_pos old, if_pos old, if_neg other]
    · have apart : ¬ some p = some j := fun here => old (Option.some.inj here ▸ inside p point)
      rw [if_neg old, if_neg old, if_neg apart]
      by_cases here : top + t.nodes.size = j
      · rw [if_pos here, here, beq_self_eq_true, Option.map_map]
        rfl
      · rw [if_neg here, beq_false_of_ne (Ne.symm here)]
        rfl

/-- The nodes of the other tree stand at their new places. -/
theorem node?_shut_merge {other : ParseTree} {top : NodeId} (root : other.root = some top)
    (inside : ∀ p, t.attachPoint = some p → p < t.nodes.size) (j : NodeId) :
    (t.merge other).shut.node? (j + t.nodes.size) = (other.shut.node? j).map fun n =>
      grafted t.attachPoint (j == top)
        (shifted t.nodes.size (t.levelUnder t.attachPoint) n) := by
  have same : (j + t.nodes.size == top + t.nodes.size) = (j == top) := by
    rw [Bool.eq_iff_iff, beq_iff_eq, beq_iff_eq, Nat.add_right_cancel_iff]
  rw [node?_shut, node?_shut, node?_merge root inside,
    if_neg (Nat.not_lt.2 (Nat.le_add_left _ _)), Nat.add_sub_cancel, Option.map_map, Option.map_map,
    same]
  congr 1
  funext n
  exact grafted_shut _ _ _

theorem root_merge {other : ParseTree} {top : NodeId} (root : other.root = some top) :
    (t.merge other).root =
      if t.attachPoint = none then some (top + t.nodes.size) else t.root := by
  unfold merge
  rw [root]
  cases point : t.attachPoint with
  | none => rfl
  | some p =>
    rw [if_neg (Option.some_ne_none p)]
    rfl

theorem active_merge (t other : ParseTree) : (t.merge other).active = t.active := by
  unfold merge
  cases other.root with
  | none => rfl
  | some top => cases t.attachPoint <;> rfl

namespace Carries

variable {f g : Planted}

theorem attachPoint_lt (carries : t.Carries f) : ∀ p, t.attachPoint = some p → p < t.nodes.size := by
  intro p point
  rcases carries.attachPoint_cases with ⟨q, member, same⟩ | ⟨detached, _⟩
  · cases point.symm.trans same
    exact carries.lt_size p member
  · cases point.symm.trans detached

/-- A node that is pushed, of which the rest is in the label `l`. -/
theorem push (carries : t.Carries f) {n : Node} {l : Label} (new : n.shut = l.toNode [] none 0) :
    (t.push n).2.Carries (hangAt t.attachPoint f (tree (t.nodes.size, l) nil)) := by
  have found := node?_push (n := n) carries.attachPoint_lt
  refine carries.attach (g := tree (t.nodes.size, l) nil) rfl ?_ (List.pairwise_singleton _ _)
    ⟨?_, trivial, trivial⟩ (fun j old => ?_) (fun j m late here outside => ?_) (root_attach ..)
    (active_attach ..)
  · intro id member
    exact Nat.le_of_eq (List.mem_singleton.1 member).symm
  · have shut : ({ n with parent := t.attachPoint, level := t.levelUnder t.attachPoint } :
        Node).shut = { n.shut with
          parent := t.attachPoint, level := t.levelUnder t.attachPoint } := rfl
    rw [node?_shut, found, if_pos rfl, Option.map_some, shut, new]
    rfl
  · rw [found, if_neg (Nat.ne_of_lt old)]
    rfl
  · have other : ¬ j = t.nodes.size := fun same => outside (same ▸ List.mem_singleton_self _)
    have apart : ¬ t.attachPoint = some j := fun point =>
      Nat.not_lt.2 late (carries.attachPoint_lt j point)
    rw [found, if_neg other, if_neg apart] at here
    have inside := (Array.getElem?_eq_some_iff.1 here).1
    exact absurd inside (Nat.not_lt.2 late)

/-- The active node may be any in the forest. -/
theorem activate (carries : t.Carries f) {active : Option NodeId}
    (inside : ∀ id, active = some id → id ∈ f.places) :
    ({ t with active } : ParseTree).Carries f :=
  ⟨carries.held.congr fun _ _ => rfl, carries.distinct, carries.root, carries.single, inside,
    carries.gone⟩

theorem enter (carries : t.Carries f) (name : String) (kind : RuleKind) :
    (t.enter name kind).2.Carries
      (hangAt t.attachPoint f (tree (t.nodes.size, .inner name kind) nil)) := by
  have pushed := carries.push (n := .inner name kind) (l := .inner name kind) rfl
  refine pushed.activate fun id same => ?_
  cases same
  have found := node?_push (n := .inner name kind) carries.attachPoint_lt t.nodes.size
  rw [if_pos rfl] at found
  refine Decidable.byContradiction fun outside => ?_
  cases (pushed.gone _ _ found outside).detached

theorem leaf (carries : t.Carries f) (token : Token) (kind : RuleKind) :
    (t.leaf token kind).2.Carries
      (hangAt t.attachPoint f (tree (t.nodes.size, .ofToken token kind) nil)) :=
  carries.push rfl

theorem close (carries : t.Carries f) : t.close.2.Carries f := by
  unfold ParseTree.close
  cases active : t.active with
  | none => exact carries
  | some id =>
    have member := carries.active id active
    have found : ∀ j, (t.modify id fun n => { n with isOpen := false }).node? j =
        if id = j then (t.node? j).map Node.shut else t.node? j :=
      fun j => node?_modify t id j Node.shut
    have same : ∀ j, (t.modify id fun n => { n with isOpen := false }).shut.node? j =
        t.shut.node? j := by
      intro j
      rw [node?_shut, node?_shut, found]
      split
      · rw [Option.map_map]
        rfl
      · rfl
    refine ⟨carries.held.congr fun j _ => same j, carries.distinct, carries.root, carries.single,
      fun p above => ?_, fun j n here outside => ?_⟩
    · obtain ⟨n, known, -⟩ := carries.held.found member
      have above : t.parent? id = some p := above
      rw [← parent?_shut, parent?, known] at above
      rcases carries.held.parent_cases carries.distinct member known with
        ⟨_, outermost, _⟩ | ⟨_, q, listed, other⟩
      · cases outermost.symm.trans above
      · cases other.symm.trans above
        exact listed
    · have apart : ¬ id = j := fun same => outside (same ▸ member)
      have here : (t.modify id fun n => { n with isOpen := false }).node? j = some n := here
      rw [found, if_neg apart] at here
      exact carries.gone j n here outside

/-- Attributes are in the labels. -/
theorem sameShape (carries : t.Carries f) (same : t.SameShape t') :
    t'.Carries (t'.shut.relabel f) := by
  have shut : t.shut.SameShape t'.shut := by
    refine ⟨?_, same.root, same.active, fun id => ?_⟩
    · rw [size_shut, size_shut, same.size]
    · rw [bareNode?, bareNode?, node?_shut, node?_shut]
      rcases same.cases id with ⟨here, there⟩ | ⟨n, attrs, here, there⟩ <;> rw [here, there]
      rfl
  refine ⟨shut.holds carries.held, ?_, ?_, ?_, ?_, fun id n found outside => ?_⟩
  · rw [places_relabel]
    exact carries.distinct
  · rw [tops_relabel, same.root, carries.root]
  · rw [tops_relabel]
    exact carries.single
  · rw [places_relabel, same.active]
    exact carries.active
  · rw [places_relabel] at outside
    rcases same.cases id with ⟨_, there⟩ | ⟨n, attrs, here, there⟩
    · cases there.symm.trans found
    · cases there.symm.trans found
      have gone := carries.gone id n here outside
      exact ⟨gone.detached, gone.closed, gone.children, gone.parent⟩

theorem merge {other : ParseTree} (carries : t.Carries f) (others : other.Carries g) :
    ∃ h, (t.merge other).Carries h := by
  cases root : other.root with
  | none =>
    refine ⟨f, ?_⟩
    unfold ParseTree.merge
    rw [root]
    exact carries
  | some top =>
    have tops : g.tops = [top] := by
      rw [others.tops_eq, root]
      rfl
    obtain ⟨l, children, rfl⟩ := exists_tree_of_tops tops
    obtain ⟨⟨notInside, _⟩, distinct, _⟩ := distinct_node others.distinct
    dsimp only at notInside
    have found := node?_merge (t := t) root carries.attachPoint_lt
    have copied := node?_shut_merge (t := t) root carries.attachPoint_lt
    have single : ((tree (top, l) children).moved t.nodes.size).tops =
        [top + t.nodes.size] := by
      rw [tops_moved, tops]
      rfl
    refine ⟨_, carries.attach single ?_ ?_ ⟨?_, ?_, trivial⟩ (fun j old => ?_)
      (fun j m late here outside => ?_) (root_merge root) (active_merge t other)⟩
    · rw [places_moved, List.forall_mem_map]
      exact fun id _ => Nat.le_add_left _ _
    · rw [places_moved]
      exact List.Pairwise.map _ (fun a b other same => other (Nat.add_right_cancel same))
        others.distinct
    · rw [copied, others.held.1, beq_self_eq_true]
      change some _ = some (l.toNode (children.moved t.nodes.size).tops _ _)
      rw [tops_moved]
      cases t.attachPoint <;> simp [grafted, shifted, Label.toNode]
    · have plain : ∀ j ∈ children.places, (t.merge other).shut.node? (j + t.nodes.size) =
          (other.shut.node? j).map (shifted t.nodes.size (t.levelUnder t.attachPoint)) := by
        intro j inside
        have apart : ¬ j = top := fun same => notInside (same ▸ inside)
        simp only [copied, beq_false_of_ne apart, grafted_inner]
      have below := others.held.2.1.moved t.nodes.size (t.levelUnder t.attachPoint) plain
      rwa [Nat.add_comm, Nat.zero_add] at below
    · rw [found, if_pos old, tops_moved, tops]
      rfl
    · rw [found, if_neg (Nat.not_lt.2 late), Option.map_eq_some_iff] at here
      obtain ⟨n, known, rfl⟩ := here
      have absent : j - t.nodes.size ∉ (tree (top, l) children).places := by
        intro member
        rw [places_moved] at outside
        refine outside (List.mem_map.2 ⟨_, member, ?_⟩)
        exact Nat.sub_add_cancel late
      have apart : ¬ j = top + t.nodes.size := by
        rintro rfl
        rw [Nat.add_sub_cancel] at absent
        exact absent List.mem_cons_self
      have gone := others.gone _ n known absent
      rw [beq_false_of_ne apart]
      rw [grafted_inner]
      exact gone.shifted _ _

end Carries

end ParseTree

end AttrGrammar
