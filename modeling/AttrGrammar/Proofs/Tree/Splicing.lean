import AttrGrammar.Proofs.Tree.Arena
import AttrGrammar.Proofs.Tree.Without
import AttrGrammar.Tree.Splice

/-!
Cutting nodes out of trees that are held by arrays.

Cutting out a node changes the node, its parent and what is under it, and leaves an array that holds
the forest without the node. The main statements are about the cuts of all matching nodes: after
them the array holds the forest from which they are taken out.
-/

namespace AttrGrammar

open Forest

namespace ParseTree

variable {t t' : ParseTree} {parent : Option NodeId} {level : Nat}

theorem node?_modify (t : ParseTree) (id j : NodeId) (change : Node → Node) :
    (t.modify id change).node? j = if id = j then (t.node? j).map change else t.node? j := by
  rw [modify, node?, Array.getElem?_modify]
  rfl

/-- A tree that differs from another one in the nodes at some places only. -/
structure Keeps (t t' : ParseTree) (places : List NodeId) : Prop where
  size : t'.nodes.size = t.nodes.size
  root : t'.root = t.root
  active : t'.active = t.active
  node : ∀ id, id ∉ places → t'.node? id = t.node? id

theorem Keeps.refl (t : ParseTree) (places : List NodeId) : t.Keeps t places :=
  ⟨rfl, rfl, rfl, fun _ _ => rfl⟩

theorem Keeps.trans {s t u : ParseTree} {places more : List NodeId} (first : s.Keeps t places)
    (second : t.Keeps u more) : s.Keeps u (places ++ more) := by
  refine ⟨second.size.trans first.size, second.root.trans first.root,
    second.active.trans first.active, fun id outside => ?_⟩
  rw [List.mem_append, not_or] at outside
  rw [second.node id outside.2, first.node id outside.1]

theorem Keeps.mono {places more : List NodeId} (kept : t.Keeps t' places)
    (covers : ∀ id ∈ places, id ∈ more) : t.Keeps t' more :=
  ⟨kept.size, kept.root, kept.active, fun id outside =>
    kept.node id fun member => outside (covers id member)⟩

theorem keeps_modify (t : ParseTree) (id : NodeId) (change : Node → Node) :
    t.Keeps (t.modify id change) [id] := by
  refine ⟨Array.size_modify, rfl, rfl, fun j outside => ?_⟩
  rw [node?_modify, if_neg fun same => outside (by simp [same])]

/-- What an array holds it still holds after a change elsewhere. -/
theorem Holds.congr {f : Planted} (held : t.Holds parent level f)
    (same : ∀ id ∈ f.places, t'.node? id = t.node? id) : t'.Holds parent level f := by
  induction f generalizing parent level with
  | nil => trivial
  | node entry children rest ihChildren ihRest =>
    obtain ⟨k, l⟩ := entry
    rw [places_node] at same
    refine ⟨(same k List.mem_cons_self).trans held.1, ?_, ?_⟩
    · exact ihChildren held.2.1 fun id member =>
        same id (List.mem_cons_of_mem _ (List.mem_append_left _ member))
    · exact ihRest held.2.2 fun id member =>
        same id (List.mem_cons_of_mem _ (List.mem_append_right _ member))

theorem Holds.keeps {f : Planted} {places : List NodeId} (held : t.Holds parent level f)
    (kept : t.Keeps t' places) (apart : ∀ id ∈ f.places, id ∉ places) :
    t'.Holds parent level f :=
  held.congr fun id member => kept.node id (apart id member)

theorem Holds.lt_size {f : Planted} (held : t.Holds parent level f) :
    ∀ id ∈ f.places, id < t.nodes.size := by
  intro id member
  obtain ⟨⟨_, l⟩, listed, rfl⟩ := List.mem_map.1 member
  obtain ⟨children, above, depth, found⟩ := held.node? listed
  exact (Array.getElem?_eq_some_iff.1 found).1

/-- Distinct places of an array are no more than it has. -/
theorem Holds.size_le {f : Planted} (held : t.Holds parent level f) (distinct : f.places.Nodup) :
    f.size ≤ t.nodes.size := by
  rw [← length_places, ← List.length_range (n := t.nodes.size)]
  exact distinct.length_le_of_subset fun id member => List.mem_range.2 (held.lt_size id member)

@[simp] theorem relevelFrom_nil (fuel : Nat) (t : ParseTree) : relevelFrom fuel [] t = t := by
  cases fuel <;> rfl

/-- Setting the levels of the trees on top of the stack comes first. -/
theorem relevelFrom_holds {f : Planted} (held : t.Holds parent level f)
    (distinct : f.places.Nodup) (next : Nat) (fuel : Nat) (stack : List (NodeId × Nat)) :
    ∃ t', t'.Holds parent next f ∧ t.Keeps t' f.places ∧
      relevelFrom (f.size + fuel) (f.tops.map (·, next) ++ stack) t =
        relevelFrom fuel stack t' := by
  induction f generalizing t parent level next fuel stack with
  | nil => exact ⟨t, trivial, .refl t _, by simp⟩
  | node entry children rest ihChildren ihRest =>
    obtain ⟨k, l⟩ := entry
    obtain ⟨⟨notInside, notBeside⟩, inside, beside, apart⟩ := distinct_node distinct
    dsimp only at notInside notBeside
    have first := keeps_modify t k fun n => { n with level := next }
    have below := held.2.1.keeps first fun id member same =>
      notInside (List.mem_singleton.1 same ▸ member)
    obtain ⟨t₁, heldChildren, keptChildren, walkChildren⟩ := ihChildren below inside (next + 1)
      (rest.size + fuel) (rest.tops.map (·, next) ++ stack)
    have other := (held.2.2.keeps first fun id member same =>
      notBeside (List.mem_singleton.1 same ▸ member)).keeps keptChildren
        fun id member also => apart id also member
    obtain ⟨t₂, heldRest, keptRest, walkRest⟩ := ihRest other beside next fuel stack
    refine ⟨t₂, ⟨?_, ?_, heldRest⟩, ?_, ?_⟩
    · rw [keptRest.node k notBeside, keptChildren.node k notInside, node?_modify, if_pos rfl,
        held.1]
      rfl
    · exact heldChildren.keeps keptRest apart
    · rw [places_node]
      exact (first.trans keptChildren).trans keptRest
    · have steps : (Forest.node (k, l) children rest).size + fuel =
          (children.size + (rest.size + fuel)) + 1 := by
        rw [size_node]
        omega
      rw [steps, tops_node, List.map_cons, List.cons_append, relevelFrom, held.children_eq,
        walkChildren, walkRest]

/-- Setting the level of a single tree. -/
theorem relevel_holds {k : NodeId} {l : Label} {children : Planted}
    (held : t.Holds parent level (tree (k, l) children))
    (distinct : (tree (k, l) children).places.Nodup) (next : Nat) :
    (t.relevel k next).Holds parent next (tree (k, l) children) ∧
      t.Keeps (t.relevel k next) (tree (k, l) children).places := by
  obtain ⟨t', held', kept, walk⟩ := relevelFrom_holds held distinct next
    (t.nodes.size - (tree (k, l) children).size) []
  rw [Nat.add_sub_cancel' (held.size_le distinct), relevelFrom_nil] at walk
  have same : t.relevel k next = t' := walk
  rw [same]
  exact ⟨held', kept⟩

/-- Hands trees over to another parent, one after the other. -/
def handOver (parent : Option NodeId) (level : Nat) (ids : List NodeId) (t : ParseTree) :
    ParseTree :=
  ids.foldl (fun t id => (t.modify id fun n => { n with parent }).relevel id level) t

theorem handOver_holds {f : Planted} (above : Option NodeId) (depth : Nat)
    (held : t.Holds parent level f) (distinct : f.places.Nodup) :
    (handOver above depth f.tops t).Holds above depth f ∧
      t.Keeps (handOver above depth f.tops t) f.places := by
  induction f generalizing t parent level with
  | nil => exact ⟨trivial, .refl t _⟩
  | node entry children rest _ ih =>
    obtain ⟨k, l⟩ := entry
    obtain ⟨⟨notInside, notBeside⟩, inside, beside, apart⟩ := distinct_node distinct
    dsimp only at notInside notBeside
    have first := keeps_modify t k fun n => { n with parent := above }
    have single : (t.modify k fun n => { n with parent := above }).Holds above level
        (tree (k, l) children) := by
      refine ⟨?_, ?_, trivial⟩
      · rw [node?_modify, if_pos rfl, held.1]
        rfl
      · exact held.2.1.keeps first fun id member same =>
          notInside (List.mem_singleton.1 same ▸ member)
    have distinctTree : (tree (k, l) children).places.Nodup := by
      rw [tree, places_node, places_nil, List.append_nil]
      exact List.nodup_cons.2 ⟨notInside, inside⟩
    obtain ⟨heldTree, keptTree⟩ := relevel_holds single distinctTree depth
    have both := first.trans keptTree
    have away : ∀ id ∈ rest.places, id ∉ [k] ++ (tree (k, l) children).places := by
      intro id member also
      simp only [tree, places_node, places_nil, List.append_nil, List.cons_append,
        List.nil_append, List.mem_cons] at also
      rcases also with rfl | rfl | below
      · exact notBeside member
      · exact notBeside member
      · exact apart id below member
    obtain ⟨heldRest, keptRest⟩ := ih (held.2.2.keeps both away) beside
    refine ⟨⟨?_, ?_, heldRest⟩, ?_⟩
    · exact (keptRest.node k notBeside).trans heldTree.1
    · exact heldTree.2.1.keeps keptRest apart
    · refine (both.trans keptRest).mono fun id member => ?_
      simp only [tree, places_node, places_nil, List.append_nil, List.cons_append,
        List.nil_append, List.mem_cons, List.mem_append] at member ⊢
      rcases member with here | here | below | beside
      · exact Or.inl here
      · exact Or.inl here
      · exact Or.inr (Or.inl below)
      · exact Or.inr (Or.inr beside)

/-- A node lists the trees under its place, and the array holds these. -/
theorem Holds.subtree {f : Planted} (held : t.Holds parent level f) {id : NodeId} {n : Node}
    (member : id ∈ f.places) (found : t.node? id = some n) :
    n.children = (f.under id).tops ∧ t.Holds (some id) (n.level + 1) (f.under id) := by
  induction f generalizing parent level with
  | nil => cases member
  | node entry children rest ihChildren ihRest =>
    obtain ⟨k, l⟩ := entry
    rw [places_node] at member
    rw [Forest.under]
    by_cases here : k = id
    · subst here
      rw [if_pos rfl]
      cases held.1.symm.trans found
      exact ⟨rfl, held.2.1⟩
    · rw [if_neg here]
      by_cases inside : id ∈ children.places
      · rw [if_pos inside]
        exact ihChildren held.2.1 inside
      · rw [if_neg inside]
        have later := (List.mem_cons.1 member).resolve_left (Ne.symm here)
        exact ihRest held.2.2 ((List.mem_append.1 later).resolve_left inside)

theorem Holds.children_under {f : Planted} (held : t.Holds parent level f) {id : NodeId} {n : Node}
    (member : id ∈ f.places) (found : t.node? id = some n) : n.children = (f.under id).tops :=
  (held.subtree member found).1

theorem Holds.under {f : Planted} (held : t.Holds parent level f) {id : NodeId} {n : Node}
    (member : id ∈ f.places) (found : t.node? id = some n) :
    t.Holds (some id) (n.level + 1) (f.under id) :=
  (held.subtree member found).2

/-- The parent of a node is the parent of the forest or in the forest. -/
theorem Holds.parent_cases {f : Planted} (held : t.Holds parent level f)
    (distinct : f.places.Nodup) {id : NodeId} {n : Node} (member : id ∈ f.places)
    (found : t.node? id = some n) :
    id ∈ f.tops ∧ n.parent = parent ∧ n.level = level ∨
      id ∉ f.tops ∧ ∃ q ∈ f.places, n.parent = some q := by
  induction f generalizing parent level with
  | nil => cases member
  | node entry children rest ihChildren ihRest =>
    obtain ⟨k, l⟩ := entry
    obtain ⟨⟨notInside, notBeside⟩, inside, beside, apart⟩ := distinct_node distinct
    dsimp only at notInside notBeside
    rw [places_node] at member ⊢
    rw [tops_node]
    rcases List.mem_cons.1 member with rfl | later
    · cases held.1.symm.trans found
      exact Or.inl ⟨List.mem_cons_self, rfl, rfl⟩
    · rcases List.mem_append.1 later with below | next
      · right
        constructor
        · intro top
          rcases List.mem_cons.1 top with rfl | top
          · exact notInside below
          · exact apart id below (tops_subset_places _ _ top)
        · rcases ihChildren held.2.1 inside below with ⟨_, above, _⟩ | ⟨_, q, listed, above⟩
          · exact ⟨k, List.mem_cons_self, above⟩
          · exact ⟨q, List.mem_cons_of_mem _ (List.mem_append_left _ listed), above⟩
      · have other : id ≠ k := fun same => notBeside (same ▸ next)
        rcases ihRest held.2.2 beside next with ⟨top, above⟩ | ⟨top, q, listed, above⟩
        · exact Or.inl ⟨List.mem_cons_of_mem _ top, above⟩
        · refine Or.inr ⟨fun also => ?_, q,
            List.mem_cons_of_mem _ (List.mem_append_right _ listed), above⟩
          exact (List.mem_cons.1 also).elim other top

theorem replaceOne_of_notMem {id : NodeId} {others ids : List NodeId} (absent : id ∉ ids) :
    replaceOne id others ids = ids := by
  induction ids with
  | nil => rfl
  | cons x rest ih =>
    rw [List.mem_cons, not_or] at absent
    rw [replaceOne, if_neg (Ne.symm absent.1), ih absent.2]

/-- Taking out a node puts what is under it among the trees, if it is one of them. -/
theorem tops_without {f : Planted} (distinct : f.places.Nodup) (id : NodeId) :
    (f.without (· == id)).tops = replaceOne id (f.under id).tops f.tops := by
  induction f with
  | nil => rfl
  | node entry children rest _ ih =>
    obtain ⟨k, l⟩ := entry
    obtain ⟨⟨notInside, notBeside⟩, inside, beside, apart⟩ := distinct_node distinct
    dsimp only at notInside notBeside
    rw [without_node, under, tops_node, replaceOne]
    by_cases here : k = id
    · subst here
      rw [if_pos (by simp), if_pos rfl, if_pos rfl, tops_append,
        without_absent notInside, without_absent notBeside]
    · rw [if_neg (by simpa using here), if_neg here, if_neg here, tops_node, ih beside]
      by_cases below : id ∈ children.places
      · have away : id ∉ rest.tops := fun top => apart id below (tops_subset_places _ _ top)
        rw [replaceOne_of_notMem away, replaceOne_of_notMem away]
      · rw [if_neg below]

/-- A place outside the forest is the parent of no node in it, unless it is the parent of the
forest. -/
theorem Holds.parent_ne_of_absent {f : Planted} (held : t.Holds parent level f)
    (distinct : f.places.Nodup) {id : NodeId} {n : Node} (member : id ∈ f.places)
    (found : t.node? id = some n) {j : NodeId} (absent : j ∉ f.places) (other : parent ≠ some j) :
    n.parent ≠ some j := by
  intro same
  rcases held.parent_cases distinct member found with ⟨_, above, _⟩ | ⟨_, q, listed, above⟩
  · exact other (above.symm.trans same)
  · cases above.symm.trans same
    exact absent listed

/-- Among some places, all but a node and those under it are kept, and the parent of the node lists
the children of the node in its place. -/
def Relists (t t' : ParseTree) (id : NodeId) (n : Node) (below : Planted) (ids : List NodeId) : Prop :=
  ∀ j ∈ ids, j ≠ id → j ∉ below.places → t'.node? j =
    if n.parent = some j then
      (t.node? j).map fun q => { q with children := replaceOne id n.children q.children }
    else t.node? j

theorem Relists.keeps {f : Planted} {id j : NodeId} {n : Node} {ids : List NodeId}
    (relists : t.Relists t' id n (f.under id) ids) (listed : j ∈ ids) (member : id ∈ f.places)
    (absent : j ∉ f.places) (other : n.parent ≠ some j) : t'.node? j = t.node? j := by
  rw [relists j listed (fun same => absent (same ▸ member)) fun under =>
    absent (under_subset j under), if_neg other]

/-- Where what is under a node was handed to its parent, and the parent lists it in place of the
node, the array holds the forest without the node. -/
theorem holds_without {f : Planted} (held : t.Holds parent level f) (distinct : f.places.Nodup)
    {id : NodeId} {n : Node} (member : id ∈ f.places) (found : t.node? id = some n)
    (outside : ∀ p, parent = some p → p ∉ f.places)
    (moved : t'.Holds n.parent n.level (f.under id))
    (relists : t.Relists t' id n (f.under id) f.places) :
    t'.Holds parent level (f.without (· == id)) := by
  have listed := held.children_under member found
  induction f generalizing parent level with
  | nil => cases member
  | node entry children rest ihChildren ihRest =>
    obtain ⟨k, l⟩ := entry
    obtain ⟨⟨notInside, notBeside⟩, inside, beside, apart⟩ := distinct_node distinct
    dsimp only at notInside notBeside
    rw [places_node] at member relists outside
    rw [without_node]
    have front : ∀ j ∈ children.places, j ∈ k :: (children.places ++ rest.places) := fun _ first =>
      List.mem_cons_of_mem _ (List.mem_append_left _ first)
    have back : ∀ j ∈ rest.places, j ∈ k :: (children.places ++ rest.places) := fun _ next =>
      List.mem_cons_of_mem _ (List.mem_append_right _ next)
    by_cases here : k = id
    · subst here
      rw [if_pos (by simp)]
      rw [under, if_pos rfl] at moved relists
      have above : n.parent = parent ∧ n.level = level := by
        cases held.1.symm.trans found
        exact ⟨rfl, rfl⟩
      rw [without_absent notInside, without_absent notBeside]
      refine (holds_append _ _).2 ⟨above.1 ▸ above.2 ▸ moved, held.2.2.congr fun j next => ?_⟩
      rw [relists j (back j next) (fun same => notBeside (same ▸ next)) fun below =>
        apart j below next, if_neg fun same => outside j (above.1 ▸ same) (back j next)]
    · rw [if_neg (by simpa using here)]
      by_cases below : id ∈ children.places
      · rw [under, if_neg here, if_pos below] at moved relists listed
        refine ⟨?_, ?_, ?_⟩
        · rw [relists k List.mem_cons_self here fun under => notInside (under_subset k under),
            held.1, tops_without inside id, ← listed]
          rcases held.2.1.parent_cases inside below found with ⟨_, above, _⟩ | ⟨away, q, inQ, above⟩
          · rw [if_pos above]
            rfl
          · have other : n.parent ≠ some k := by
              intro same
              cases above.symm.trans same
              exact notInside inQ
            rw [if_neg other, replaceOne_of_notMem away]
        · refine ihChildren held.2.1 inside below ?_ moved (fun j first => ?_) listed
          · intro p same
            cases same
            exact notInside
          · exact relists j (front j first)
        · rw [without_absent (apart id below)]
          refine held.2.2.congr fun j next => ?_
          have absent : j ∉ children.places := fun first => apart j first next
          refine relists.keeps (back j next) below absent ?_
          exact held.2.1.parent_ne_of_absent inside below found absent
            fun same => notBeside (Option.some.inj same ▸ next)
      · rw [under, if_neg here, if_neg below] at moved relists listed
        have later := (List.mem_cons.1 member).resolve_left (Ne.symm here)
        have later := (List.mem_append.1 later).resolve_left below
        have keeps : ∀ j ∈ k :: (children.places ++ rest.places), j ∉ rest.places →
            t'.node? j = t.node? j := fun j among absent =>
          relists.keeps among later absent (held.2.2.parent_ne_of_absent beside later found absent
            fun same => outside j same among)
        refine ⟨?_, ?_, ?_⟩
        · rw [keeps k List.mem_cons_self notBeside, held.1, without_absent below]
        · rw [without_absent below]
          exact held.2.1.congr fun j first => keeps j (front j first) (apart j first)
        · refine ihRest held.2.2 beside later ?_ moved (fun j next => ?_) listed
          · exact fun p same next => outside p same (back p next)
          · exact relists j (back j next)

/-- No node is under one of its children. -/
theorem Holds.parent_not_under {f : Planted} (held : t.Holds parent level f)
    (distinct : f.places.Nodup) (outside : ∀ p, parent = some p → p ∉ f.places) {id : NodeId}
    {n : Node} (member : id ∈ f.places) (found : t.node? id = some n) {p : NodeId}
    (above : n.parent = some p) : p ∉ (f.under id).places := by
  induction f generalizing parent level with
  | nil => cases member
  | node entry children rest ihChildren ihRest =>
    obtain ⟨k, l⟩ := entry
    obtain ⟨⟨notInside, _⟩, inside, beside, _⟩ := distinct_node distinct
    rw [places_node] at member outside
    rw [Forest.under]
    by_cases here : k = id
    · subst here
      rw [if_pos rfl]
      cases held.1.symm.trans found
      exact fun below => outside p above
        (List.mem_cons_of_mem _ (List.mem_append_left _ below))
    · rw [if_neg here]
      by_cases below : id ∈ children.places
      · rw [if_pos below]
        refine ihChildren held.2.1 inside (fun q same => ?_) below
        cases same
        exact notInside
      · rw [if_neg below]
        have later := (List.mem_cons.1 member).resolve_left (Ne.symm here)
        exact ihRest held.2.2 beside (fun q same also =>
          outside q same (List.mem_cons_of_mem _ (List.mem_append_right _ also)))
          ((List.mem_append.1 later).resolve_left below)

/-- A finished tree that holds a forest of at most one tree, whose places are distinct. -/
structure Rooted (t : ParseTree) (f : Planted) : Prop where
  held : t.Holds none 0 f
  distinct : f.places.Nodup
  root : t.root = f.tops.head?
  single : f.tops.length ≤ 1
  idle : t.active = none

theorem Holds.found {f : Planted} (held : t.Holds parent level f) {id : NodeId}
    (member : id ∈ f.places) : ∃ n, t.node? id = some n ∧ n.detached = false := by
  obtain ⟨⟨_, l⟩, listed, rfl⟩ := List.mem_map.1 member
  obtain ⟨children, above, depth, found⟩ := held.node? listed
  exact ⟨_, found, rfl⟩

/-- A node that is to be cut out, marked so, with what was under it handed to its parent. -/
def release (t : ParseTree) (id : NodeId) (n : Node) : ParseTree :=
  handOver n.parent n.level n.children
    (t.modify id fun n => { n with children := [], parent := none, detached := true })

theorem spliceOut_eq {id : NodeId} {n : Node} (found : t.node? id = some n) :
    t.spliceOut id = match n.parent with
      | some p => (t.release id n).modify p fun q =>
        { q with children := replaceOne id n.children q.children }
      | none => { t.release id n with root := n.children.head? } := by
  rw [ParseTree.spliceOut, found]
  rfl

/-- What a release leaves: the trees under the node with their new parent, a detached node, and
everything else as it was. -/
theorem Rooted.release {f : Planted} (rooted : t.Rooted f) {id : NodeId} {n : Node}
    (member : id ∈ f.places) (found : t.node? id = some n) :
    (t.release id n).Holds n.parent n.level (f.under id) ∧
      t.Keeps (t.release id n) (id :: (f.under id).places) ∧
        (t.release id n).node? id =
          some { n with children := [], parent := none, detached := true } := by
  have first := keeps_modify t id fun n =>
    { n with children := [], parent := none, detached := true }
  have apart : id ∉ (f.under id).places := not_mem_under_self rooted.distinct
  have below := (rooted.held.under member found).keeps first fun j under same =>
    apart (List.mem_singleton.1 same ▸ under)
  have distinct := (places_under_sublist f id).nodup rooted.distinct
  obtain ⟨moved, kept⟩ := handOver_holds n.parent n.level below distinct
  rw [ParseTree.release, rooted.held.children_under member found]
  refine ⟨moved, first.trans kept, ?_⟩
  rw [kept.node id apart, node?_modify, if_pos rfl, found]
  rfl

/-- Cutting out a node leaves the forest without it, if that is still one tree. -/
theorem Rooted.spliceOut {f : Planted} (rooted : t.Rooted f) {id : NodeId}
    (member : id ∈ f.places) (single : (f.without (· == id)).tops.length ≤ 1) :
    (t.spliceOut id).Rooted (f.without (· == id)) := by
  obtain ⟨n, found, _⟩ := rooted.held.found member
  obtain ⟨moved, kept, _⟩ := rooted.release member found
  have distinct := (places_without_sublist f (· == id)).nodup rooted.distinct
  have tops := tops_without rooted.distinct id
  have outside : ∀ p, none = some p → p ∉ f.places := fun p same => by cases same
  have listed := rooted.held.children_under member found
  cases above : n.parent with
  | none =>
    have cut := spliceOut_eq found
    rw [above] at cut
    dsimp only at cut
    have held : (t.spliceOut id).Holds none 0 (f.without (· == id)) := by
      refine holds_without rooted.held rooted.distinct member found outside ?_ ?_
      · rw [cut]
        exact moved.congr fun _ _ => rfl
      · intro j _ other free
        rw [cut, above, if_neg (by simp)]
        exact kept.node j (by simp [other, free])
    rcases rooted.held.parent_cases rooted.distinct member found with ⟨top, _⟩ | ⟨_, q, _, above'⟩
    · refine ⟨held, distinct, ?_, single, ?_⟩
      · have alone : f.tops = [id] := by
          have few := rooted.single
          cases all : f.tops with
          | nil => simp [all] at top
          | cons first others =>
            rw [all, List.length_cons] at few
            cases others with
            | nil => rw [all, List.mem_singleton] at top; rw [top]
            | cons => simp at few
        rw [cut, tops, alone, replaceOne, if_pos rfl, List.append_nil, ← listed]
      · rw [cut]
        exact kept.active.trans rooted.idle
    · cases above.symm.trans above'
  | some p =>
    have cut := spliceOut_eq found
    rw [above] at cut
    dsimp only at cut
    have away := rooted.held.parent_not_under rooted.distinct outside member found above
    have held : (t.spliceOut id).Holds none 0 (f.without (· == id)) := by
      refine holds_without rooted.held rooted.distinct member found outside ?_ ?_
      · rw [cut]
        refine moved.keeps (keeps_modify _ p _) fun j under same => ?_
        exact away (List.mem_singleton.1 same ▸ under)
      · intro j _ other free
        rw [cut, node?_modify, kept.node j (by simp [other, free]), above]
        simp only [Option.some.injEq]
    rcases rooted.held.parent_cases rooted.distinct member found with ⟨_, parentless, _⟩ | ⟨top, _⟩
    · cases above.symm.trans parentless
    · refine ⟨held, distinct, ?_, single, ?_⟩
      · rw [tops, replaceOne_of_notMem top, ← rooted.root, cut]
        exact kept.root
      · rw [cut]
        exact kept.active.trans rooted.idle

theorem Rooted.tops_eq {f : Planted} (rooted : t.Rooted f) : t.root.toList = f.tops := by
  have few := rooted.single
  rw [rooted.root]
  cases all : f.tops with
  | nil => rfl
  | cons first others =>
    rw [all, List.length_cons] at few
    have single : others = [] := List.length_eq_zero_iff.1 (by omega)
    rw [single]
    rfl

theorem Rooted.preOrder_eq {f : Planted} (rooted : t.Rooted f) : t.preOrder = f.places := by
  rw [preOrder, rooted.tops_eq]
  exact preOrderFrom_tops rooted.held _ (rooted.held.size_le rooted.distinct)

theorem Rooted.isClosed {f : Planted} (rooted : t.Rooted f) : t.isClosed = true :=
  isClosed_of_holds rooted.idle rooted.preOrder_eq rooted.held

theorem Rooted.isDetached {f : Planted} (rooted : t.Rooted f) {id : NodeId}
    (member : id ∈ f.places) : t.isDetached id = false := by
  obtain ⟨n, found, attached⟩ := rooted.held.found member
  rw [ParseTree.isDetached, found]
  exact attached

theorem Rooted.children_eq {f : Planted} (rooted : t.Rooted f) {id : NodeId}
    (member : id ∈ f.places) : t.children id = (f.under id).tops := by
  obtain ⟨n, found, _⟩ := rooted.held.found member
  rw [ParseTree.children, found]
  exact rooted.held.children_under member found

/-- The nodes of a list can still be cut out one after the other: none of them and nothing under
them is gone, and none comes after one that it is under. -/
structure Pending (f : Planted) (out : NodeId → Bool) (ids : List NodeId) : Prop where
  inside : ∀ id ∈ ids, id ∈ f.places
  kept : ∀ id ∈ ids, out id = false
  under : ∀ id ∈ ids, ∀ j ∈ (f.under id).places, out j = false
  order : ids.Pairwise fun i j => i ≠ j ∧ i ∉ (f.under j).places

theorem Pending.tail {f : Planted} {out : NodeId → Bool} {id : NodeId} {ids : List NodeId}
    (pending : Pending f out (id :: ids)) : Pending f out ids :=
  ⟨fun j member => pending.inside j (List.mem_cons_of_mem _ member),
    fun j member => pending.kept j (List.mem_cons_of_mem _ member),
    fun j member => pending.under j (List.mem_cons_of_mem _ member),
    (List.pairwise_cons.1 pending.order).2⟩

/-- They still can once the first of them is gone. -/
theorem Pending.next {f : Planted} {out : NodeId → Bool} {id : NodeId} {ids : List NodeId}
    (pending : Pending f out (id :: ids)) : Pending f (fun j => out j || j == id) ids := by
  have first := (List.pairwise_cons.1 pending.order).1
  refine ⟨pending.tail.inside, fun j member => ?_, fun j member i below => ?_,
    pending.tail.order⟩
  · have other := (first j member).1
    simp [pending.tail.kept j member, Ne.symm other]
  · have other : i ≠ id := fun same => (first j member).2 (same ▸ below)
    simp [pending.tail.under j member i below, other]

/-- All places of a forest that pass a test are pending. -/
theorem pending_filter {f : Planted} (distinct : f.places.Nodup) (test : NodeId → Bool) :
    Pending f (fun _ => false) (f.places.filter test) := by
  refine ⟨fun id member => (List.mem_filter.1 member).1, fun _ _ => rfl, fun _ _ _ _ => rfl, ?_⟩
  exact (List.Pairwise.and distinct (pairwise_not_under distinct)).filter test

theorem Rooted.children_of_pending {f : Planted} {out : NodeId → Bool} {id : NodeId}
    {ids : List NodeId} (rooted : t.Rooted (f.without out))
    (pending : Pending f out (id :: ids)) : t.children id = (f.under id).tops := by
  have kept := pending.kept id List.mem_cons_self
  have member : id ∈ (f.without out).places :=
    mem_places_without.2 ⟨pending.inside id List.mem_cons_self, kept⟩
  rw [rooted.children_eq member, under_without kept,
    without_none (pending.under id List.mem_cons_self)]

/-- Reducing nodes in turn takes out those that had one child, and counts them. -/
theorem collapseEach_rooted {f : Planted} (distinct : f.places.Nodup)
    (few : f.tops.length ≤ 1) {ids : List NodeId} {out : NodeId → Bool} (count : Nat)
    (rooted : t.Rooted (f.without out)) (pending : Pending f out ids)
    (single : ∀ id ∈ f.places, out id = true → (f.under id).tops.length = 1) :
    ∃ t', collapseEach ids (count, t) =
        (count + (ids.filter fun id => (f.under id).tops.length = 1).length, t') ∧
      t'.Rooted (f.without fun id =>
        out id || decide (id ∈ ids) && decide ((f.under id).tops.length = 1)) := by
  induction ids generalizing out count t with
  | nil => exact ⟨t, rfl, by simpa using rooted⟩
  | cons id rest ih =>
    have kept := pending.kept id List.mem_cons_self
    have member : id ∈ (f.without out).places :=
      mem_places_without.2 ⟨pending.inside id List.mem_cons_self, kept⟩
    rw [collapseEach, if_neg (by simp [rooted.isDetached member]), collapseAt,
      rooted.children_of_pending pending]
    by_cases one : (f.under id).tops.length = 1
    · have counted : ((id :: rest).filter fun id => (f.under id).tops.length = 1) =
          id :: rest.filter fun id => (f.under id).tops.length = 1 :=
        List.filter_cons_of_pos (by simpa using one)
      rw [if_pos one, counted, List.length_cons]
      have more : ∀ j ∈ f.places, (out j || j == id) = true → (f.under j).tops.length = 1 := by
        intro j listed gone
        rcases Bool.or_eq_true_iff.1 gone with gone | same
        · exact single j listed gone
        · exact beq_iff_eq.1 same ▸ one
      have cut := rooted.spliceOut member (by
        rw [without_without, length_tops_without distinct more]
        exact few)
      rw [without_without] at cut
      obtain ⟨t', done, result⟩ := ih (count + 1) cut pending.next more
      refine ⟨t', ?_, without_congr (fun j _ => ?_) ▸ result⟩
      · rw [Nat.add_right_comm] at done
        exact done
      · by_cases same : j = id
        · simp [same, one]
        · simp [same, beq_eq_false_iff_ne.2 same]
    · have counted : ((id :: rest).filter fun id => (f.under id).tops.length = 1) =
          rest.filter fun id => (f.under id).tops.length = 1 :=
        List.filter_cons_of_neg (by simpa using one)
      rw [if_neg one, counted]
      obtain ⟨t', done, result⟩ := ih count rooted pending.tail single
      refine ⟨t', done, without_congr (fun j _ => ?_) ▸ result⟩
      by_cases same : j = id
      · simp [same, one, kept]
      · simp [same]

/-- A node whose children are no more roots than there may be can be removed. -/
theorem Rooted.dissolveAt {f : Planted} (rooted : t.Rooted f) {id : NodeId}
    (member : id ∈ f.places) (single : (f.without (· == id)).tops.length ≤ 1) :
    t.dissolveAt id = .ok (t.spliceOut id) := by
  obtain ⟨n, found, _⟩ := rooted.held.found member
  rw [ParseTree.dissolveAt, if_neg]
  rw [Bool.and_eq_true, decide_eq_true_eq, not_and, Nat.not_lt, parent?, found, Option.bind_some,
    Option.isNone_iff_eq_none, rooted.children_eq member]
  intro noParent
  rcases rooted.held.parent_cases rooted.distinct member found with ⟨top, _⟩ | ⟨_, q, _, above⟩
  · have alone : f.tops = [id] := by
      rw [← rooted.tops_eq] at top ⊢
      rw [Option.mem_toList.1 top]
      rfl
    rwa [tops_without rooted.distinct, alone, replaceOne, if_pos rfl, List.append_nil] at single
  · cases noParent.symm.trans above

/-- Removing nodes in turn takes them out and counts them, if at no point several roots are left. -/
theorem dissolveEach_rooted {f : Planted} {ids : List NodeId} {out : NodeId → Bool} (count : Nat)
    (rooted : t.Rooted (f.without out)) (pending : Pending f out ids)
    (single : ∀ gone : NodeId → Bool,
      (∀ id ∈ f.places, gone id = true → out id = true ∨ id ∈ ids) →
        (f.without gone).tops.length ≤ 1) :
    ∃ t', dissolveEach ids (count, t) = .ok (count + ids.length, t') ∧
      t'.Rooted (f.without fun id => out id || decide (id ∈ ids)) := by
  induction ids generalizing out count t with
  | nil => exact ⟨t, rfl, by simpa using rooted⟩
  | cons id rest ih =>
    have member : id ∈ (f.without out).places :=
      mem_places_without.2 ⟨pending.inside id List.mem_cons_self, pending.kept id List.mem_cons_self⟩
    have one : ((f.without out).without (· == id)).tops.length ≤ 1 := by
      rw [without_without]
      refine single _ fun j _ gone => ?_
      rcases Bool.or_eq_true_iff.1 gone with gone | same
      · exact Or.inl gone
      · exact Or.inr (List.mem_cons.2 (Or.inl (beq_iff_eq.1 same)))
    have cut := rooted.spliceOut member one
    rw [without_without] at cut
    obtain ⟨t', done, result⟩ := ih (count + 1) cut pending.next fun gone within =>
      single gone fun j listed out => (within j listed out).elim
        (fun before => (Bool.or_eq_true_iff.1 before).imp_right fun same =>
          List.mem_cons.2 (Or.inl (beq_iff_eq.1 same)))
        fun later => Or.inr (List.mem_cons_of_mem _ later)
    refine ⟨t', ?_, without_congr (fun j _ => ?_) ▸ result⟩
    · rw [Nat.add_right_comm] at done
      rw [dissolveEach, if_neg (by simp [rooted.isDetached member]), rooted.dissolveAt member one]
      exact done
    · by_cases same : j = id
      · simp [same]
      · simp [same, beq_eq_false_iff_ne.2 same]

end ParseTree

/-- The nodes that a match selects, by their labels. -/
def NodeMatch.selects (m : NodeMatch) (l : Label) : Bool := m.accepts (l.toNode [] none 0)

theorem NodeMatch.accepts_toNode (m : NodeMatch) (l : Label) (children : List NodeId)
    (parent : Option NodeId) (level : Nat) :
    m.accepts (l.toNode children parent level) = m.selects l := by
  cases m <;> rfl

namespace ParseTree

variable {t : ParseTree} {parent : Option NodeId} {level : Nat}

theorem Holds.isMatch {f : Planted} (held : t.Holds parent level f) (m : NodeMatch) {id : NodeId}
    {l : Label} (member : (id, l) ∈ f.preorder) : t.isMatch m id = m.selects l := by
  obtain ⟨children, above, depth, found⟩ := held.node? member
  rw [ParseTree.isMatch, found]
  exact m.accepts_toNode l children above depth

/-- Tests on the node and on what is under its place are tests on its label and its children. -/
theorem Holds.agrees {f : Planted} (held : t.Holds parent level f) (distinct : f.places.Nodup)
    (m : NodeMatch) (test : Planted → Bool) (below : NodeId → Planted)
    (same : ∀ id ∈ f.places, below id = f.under id) :
    Agrees (fun id => t.isMatch m id && test (below id))
      (fun entry children => m.selects entry.2 && test children) f := by
  induction f generalizing parent level with
  | nil => trivial
  | node entry children rest ihChildren ihRest =>
    obtain ⟨k, l⟩ := entry
    obtain ⟨⟨notInside, notBeside⟩, inside, beside, apart⟩ := distinct_node distinct
    dsimp only at notInside notBeside
    rw [places_node] at same
    refine ⟨?_, ihChildren held.2.1 inside fun id member => ?_,
      ihRest held.2.2 beside fun id member => ?_⟩
    · dsimp only
      rw [held.isMatch m List.mem_cons_self, same k List.mem_cons_self, Forest.under, if_pos rfl]
    · rw [same id (List.mem_cons_of_mem _ (List.mem_append_left _ member)), Forest.under,
        if_neg (fun same : k = id => notInside (same ▸ member)), if_pos member]
    · rw [same id (List.mem_cons_of_mem _ (List.mem_append_right _ member)), Forest.under,
        if_neg (fun same : k = id => notBeside (same ▸ member)),
        if_neg fun also => apart id also member]

/-- Reducing all matches takes out those that had one child, and counts them. -/
theorem Rooted.collapsed {f : Planted} (rooted : t.Rooted f) (m : NodeMatch) :
    ∃ t', t.collapseAll m =
        .ok (((t.findAll m).filter fun id => (t.children id).length = 1).length, t') ∧
      t'.Rooted (f.without fun id => t.isMatch m id && decide ((t.children id).length = 1)) := by
  have start : t.Rooted (f.without fun _ => false) := by
    rwa [without_none fun _ _ => rfl]
  obtain ⟨t', done, result⟩ := collapseEach_rooted rooted.distinct rooted.single 0 start
    (pending_filter rooted.distinct (t.isMatch m)) (by simp)
  have counted : ((f.places.filter (t.isMatch m)).filter fun id => (f.under id).tops.length = 1) =
      (t.findAll m).filter fun id => (t.children id).length = 1 := by
    rw [findAll, rooted.preOrder_eq]
    refine List.filter_congr fun id listed => ?_
    rw [rooted.children_eq (List.mem_filter.1 listed).1]
  rw [counted, Nat.zero_add, ← rooted.preOrder_eq] at done
  refine ⟨t', ?_, without_congr (fun j member => ?_) ▸ result⟩
  · rw [ParseTree.collapseAll, checkClosed, if_pos rooted.isClosed]
    exact congrArg Except.ok done
  · rw [rooted.children_eq member]
    simp [List.mem_filter, member]

/-- The nodes that are left are those that a cut by labels and children leaves. -/
theorem Rooted.collapseAll {f : Planted} (rooted : t.Rooted f) (m : NodeMatch) :
    ∃ count t', t.collapseAll m = .ok (count, t') ∧
      t'.Rooted (f.cut fun entry children =>
        m.selects entry.2 && decide (children.tops.length = 1)) := by
  obtain ⟨t', done, result⟩ := rooted.collapsed m
  refine ⟨_, t', done, ?_⟩
  rw [← without_eq_cut (rooted.held.agrees rooted.distinct m
    (fun children => decide (children.tops.length = 1)) f.under fun _ _ => rfl)]
  refine without_congr (fun j member => ?_) ▸ result
  rw [rooted.children_eq member]

/-- Removing all matches takes them out and counts them, if the check finds no fault and at no point
several roots are left. -/
theorem Rooted.dissolved {f : Planted} (rooted : t.Rooted f) (m : NodeMatch)
    (chain : t.checkChainFrom m t.nodes.size t.root = .ok ())
    (single : ∀ gone : NodeId → Bool, (∀ id ∈ f.places, gone id = true → t.isMatch m id = true) →
      (f.without gone).tops.length ≤ 1) :
    ∃ t', t.dissolveAll m = .ok ((t.findAll m).length, t') ∧
      t'.Rooted (f.without (t.isMatch m)) := by
  have start : t.Rooted (f.without fun _ => false) := by
    rwa [without_none fun _ _ => rfl]
  obtain ⟨t', done, result⟩ := dissolveEach_rooted 0 start
    (pending_filter rooted.distinct (t.isMatch m)) fun gone within => single gone
      fun id member out =>
        (within id member out).elim nofun fun listed => (List.mem_filter.1 listed).2
  rw [Nat.zero_add, ← rooted.preOrder_eq] at done
  refine ⟨t', ?_, without_congr (fun j member => ?_) ▸ result⟩
  · rw [ParseTree.dissolveAll, checkClosed, if_pos rooted.isClosed, chain]
    exact done
  · simp [List.mem_filter, member]

/-- Where the root is no match, the nodes that are left are those that a cut by labels leaves. -/
theorem Rooted.dissolveAll {f : Planted} (rooted : t.Rooted f) (m : NodeMatch)
    (stays : ∀ entry ∈ f.roots, m.selects entry.2 = false) :
    ∃ count t', t.dissolveAll m = .ok (count, t') ∧
      t'.Rooted (f.cut fun entry _ => m.selects entry.2) := by
  have unmatched : ∀ id ∈ f.tops, t.isMatch m id = false := by
    intro id top
    obtain ⟨⟨_, l⟩, listed, rfl⟩ := List.mem_map.1 top
    rw [rooted.held.isMatch m (roots_subset_preorder f _ listed)]
    exact stays _ listed
  have chain : t.checkChainFrom m t.nodes.size t.root = .ok () := by
    cases size : t.nodes.size with
    | zero => rfl
    | succ fuel =>
      have tops := rooted.tops_eq
      cases root : t.root with
      | none => rfl
      | some id =>
        rw [root, Option.toList_some] at tops
        have unmatched := unmatched id (tops ▸ List.mem_cons_self)
        rw [checkChainFrom, if_neg (by simp [unmatched])]
  obtain ⟨t', done, result⟩ := rooted.dissolved m chain fun gone within => by
    rw [tops_without_kept fun id top => ?_]
    · exact rooted.single
    · have other := unmatched id top
      cases out : gone id with
      | false => rfl
      | true =>
        rw [within id (tops_subset_places f id top) out] at other
        cases other
  have selected := rooted.held.agrees rooted.distinct m (fun _ => true) f.under fun _ _ => rfl
  simp only [Bool.and_true] at selected
  rw [without_eq_cut selected] at result
  exact ⟨_, t', done, result⟩

end ParseTree

end AttrGrammar
