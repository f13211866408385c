import AttrGrammar.Proofs.Tree.Growth
import Mathlib.Logic.Relation

/-!
The representation of parse trees, after any steps.

Steps that add nodes are taken at any time, cuts when a tree is closed. Either way the array goes on
to carry a forest, from which all links between nodes are read. The other invariant is about open
nodes: they stand above the active one, as long as only closed trees are merged.
-/

namespace AttrGrammar

open Forest

namespace ParseTree

variable {t t' : ParseTree} {parent : Option NodeId} {level : Nat} {f g : Planted}

theorem Carries.preOrder_eq (carries : t.Carries f) : t.preOrder = f.places := by
  rw [← preOrder_shut, preOrder]
  have tops : t.shut.root.toList = f.tops := carries.tops_eq.symm
  rw [tops]
  exact preOrderFrom_tops carries.held _ (carries.held.size_le carries.distinct)

theorem Carries.mem_places_iff (carries : t.Carries f) {id : NodeId} :
    id ∈ f.places ↔ t.isDetached id = false := by
  unfold isDetached
  constructor
  · intro member
    obtain ⟨n, found, attached⟩ := carries.held.found member
    rw [node?_shut, Option.map_eq_some_iff] at found
    obtain ⟨n, found, rfl⟩ := found
    rw [found]
    exact attached
  · intro attached
    cases found : t.node? id with
    | none =>
      rw [found] at attached
      cases attached
    | some n =>
      rw [found] at attached
      refine Decidable.byContradiction fun outside => ?_
      cases attached.symm.trans (carries.gone id n found outside).detached

/-- A closed tree has no open node at all. -/
theorem Carries.none_open (carries : t.Carries f) (closed : t.isClosed = true) {id : NodeId} {n : Node}
    (found : t.node? id = some n) : n.isOpen = false := by
  by_cases member : id ∈ f.places
  · have all := (Bool.and_eq_true_iff.1 closed).2
    rw [carries.preOrder_eq, List.all_eq_true] at all
    have shut := all id member
    rw [found] at shut
    exact Bool.not_eq_true' _ ▸ shut
  · exact (carries.gone id n found member).closed

theorem Carries.rooted (carries : t.Carries f) (closed : t.isClosed = true) : t.Rooted f := by
  refine ⟨carries.held.congr fun id _ => ?_, carries.distinct, carries.root, carries.single,
    Option.isNone_iff_eq_none.1 (Bool.and_eq_true_iff.1 closed).1⟩
  rw [node?_shut]
  cases found : t.node? id with
  | none => rfl
  | some n =>
    have shut := carries.none_open closed found
    cases n
    cases shut
    rfl

theorem Rooted.carries (rooted : t.Rooted f)
    (gone : ∀ id n, t.node? id = some n → id ∉ f.places → Gone n) : t.Carries f := by
  refine ⟨rooted.held.congr fun id member => ?_, rooted.distinct, rooted.root, rooted.single,
    fun id active => ?_, gone⟩
  · obtain ⟨⟨_, l⟩, listed, rfl⟩ := List.mem_map.1 member
    obtain ⟨children, above, depth, found⟩ := rooted.held.node? listed
    rw [node?_shut, found]
    rfl
  · cases rooted.idle.symm.trans active

/-- What a cut leaves of the node, and that it does not touch nodes outside the forest. -/
theorem Rooted.node?_spliceOut (rooted : t.Rooted f) {id : NodeId} {n : Node}
    (member : id ∈ f.places) (found : t.node? id = some n) :
    (t.spliceOut id).node? id = some { n with children := [], parent := none, detached := true } ∧
      ∀ j, j ∉ f.places → (t.spliceOut id).node? j = t.node? j := by
  have outside : ∀ p, none = some p → p ∉ f.places := fun p same => by cases same
  obtain ⟨_, kept, here⟩ := rooted.release member found
  have away : ∀ j, j ∉ f.places → (t.release id n).node? j = t.node? j := by
    intro j absent
    refine kept.node j fun listed => ?_
    rcases List.mem_cons.1 listed with rfl | under
    · exact absent member
    · exact absent (under_subset j under)
  rw [spliceOut_eq found]
  cases above : n.parent with
  | none => exact ⟨here, away⟩
  | some p =>
    dsimp only
    have other : ¬ p = id := by
      rintro rfl
      refine rooted.held.parent_ne rooted.distinct outside member ?_
      rw [parent?, found]
      exact above
    have inside : p ∈ f.places := by
      rcases rooted.held.parent_cases rooted.distinct member found with
        ⟨_, outermost, _⟩ | ⟨_, q, listed, same⟩
      · cases above.symm.trans outermost
      · cases above.symm.trans same
        exact listed
    refine ⟨?_, fun j absent => ?_⟩
    · rw [node?_modify, if_neg other]
      exact here
    · rw [node?_modify, if_neg fun same : p = j => absent (same ▸ inside)]
      exact away j absent

theorem Carries.spliceOut (carries : t.Carries f) (closed : t.isClosed = true) {id : NodeId}
    (member : id ∈ f.places) (single : (f.without (· == id)).tops.length ≤ 1) :
    (t.spliceOut id).Carries (f.without (· == id)) ∧ (t.spliceOut id).isClosed = true := by
  have rooted := carries.rooted closed
  have after := rooted.spliceOut member single
  obtain ⟨n, found, -⟩ := rooted.held.found member
  obtain ⟨here, away⟩ := rooted.node?_spliceOut member found
  refine ⟨after.carries fun j m now outside => ?_, after.isClosed⟩
  by_cases same : j = id
  · subst same
    have shut := carries.none_open closed found
    cases here.symm.trans now
    exact ⟨rfl, shut, rfl, rfl⟩
  · have absent : j ∉ f.places := fun listed =>
      outside (mem_places_without.2 ⟨listed, beq_false_of_ne same⟩)
    exact carries.gone j m ((away j absent).symm.trans now) absent

/-- A tree that carries a forest and is closed. -/
def Finished (t : ParseTree) : Prop := (∃ f, t.Carries f) ∧ t.isClosed = true

theorem Finished.collapseAt (finished : t.Finished) {id : NodeId}
    (attached : t.isDetached id = false) : (t.collapseAt id).2.Finished := by
  obtain ⟨⟨f, carries⟩, closed⟩ := finished
  have member := carries.mem_places_iff.2 attached
  unfold ParseTree.collapseAt
  split
  · next one =>
    rw [(carries.rooted closed).children_eq member] at one
    have ones : ∀ j ∈ f.places, (j == id) = true → (f.under j).tops.length = 1 := by
      intro j _ same
      rw [beq_iff_eq.1 same]
      exact one
    have single : (f.without (· == id)).tops.length ≤ 1 := by
      rw [length_tops_without carries.distinct ones]
      exact carries.single
    obtain ⟨after, still⟩ := carries.spliceOut closed member single
    exact ⟨⟨_, after⟩, still⟩
  · exact ⟨⟨f, carries⟩, closed⟩

theorem Finished.dissolveAt (finished : t.Finished) {id : NodeId}
    (attached : t.isDetached id = false) (done : t.dissolveAt id = .ok t') : t'.Finished := by
  obtain ⟨⟨f, carries⟩, closed⟩ := finished
  have member := carries.mem_places_iff.2 attached
  have rooted := carries.rooted closed
  unfold ParseTree.dissolveAt at done
  split at done
  · cases done
  · next allowed =>
    cases done
    have single : (f.without (· == id)).tops.length ≤ 1 := by
      obtain ⟨n, found, -⟩ := rooted.held.found member
      rcases rooted.held.parent_cases rooted.distinct member found with
        ⟨top, above, _⟩ | ⟨low, _⟩
      · have few : ¬ (t.children id).length > 1 := by
          intro many
          refine allowed (Bool.and_eq_true_iff.2 ⟨?_, decide_eq_true many⟩)
          rw [parent?, found, Option.bind_some, above]
          rfl
        have alone : f.tops = [id] := by
          rw [carries.tops_eq] at top ⊢
          cases root : t.root with
          | none =>
            rw [root] at top
            cases top
          | some r =>
            rw [root] at top
            rw [List.mem_singleton.1 top]
            rfl
        rw [tops_without carries.distinct, alone, replaceOne, if_pos rfl, List.append_nil,
          ← rooted.children_eq member]
        exact Nat.le_of_not_lt few
      · have kept : ∀ j ∈ f.tops, (j == id) = false := fun j top =>
          beq_false_of_ne fun same => low (same ▸ top)
        rw [tops_without_kept kept]
        exact carries.single
    obtain ⟨after, still⟩ := carries.spliceOut closed member single
    exact ⟨⟨_, after⟩, still⟩

theorem Finished.collapseEach (finished : t.Finished) (ids : List NodeId) (count : Nat) :
    (ParseTree.collapseEach ids (count, t)).2.Finished := by
  induction ids generalizing t count with
  | nil => exact finished
  | cons id rest ih =>
    rw [ParseTree.collapseEach]
    split
    · exact ih finished count
    · next attached => exact ih (finished.collapseAt (Bool.eq_false_iff.2 attached)) _

theorem Finished.dissolveEach (finished : t.Finished) {ids : List NodeId} {count total : Nat}
    (done : ParseTree.dissolveEach ids (count, t) = .ok (total, t')) : t'.Finished := by
  induction ids generalizing t count with
  | nil =>
    cases done
    exact finished
  | cons id rest ih =>
    rw [ParseTree.dissolveEach] at done
    split at done
    · exact ih finished done
    · next attached =>
      cases cut : t.dissolveAt id with
      | error e =>
        rw [cut] at done
        cases done
      | ok u =>
        rw [cut] at done
        exact ih (finished.dissolveAt (Bool.eq_false_iff.2 attached) cut) done

theorem tops_sublist_places (f : Planted) : f.tops.Sublist f.places := by
  induction f with
  | nil => exact List.Sublist.refl _
  | node entry children rest _ ih =>
    obtain ⟨k, l⟩ := entry
    rw [tops_node, places_node]
    exact (ih.trans (List.sublist_append_right _ _)).cons_cons k

theorem Holds.found_tops (held : t.Holds parent level f) :
    ∀ id ∈ f.tops, ∃ n, t.node? id = some n ∧ n.parent = parent ∧ n.level = level := by
  induction f generalizing parent level with
  | nil => exact nofun
  | node entry children rest _ ih =>
    obtain ⟨k, l⟩ := entry
    intro id member
    rcases List.mem_cons.1 member with rfl | member
    · exact ⟨_, held.1, rfl, rfl⟩
    · exact ih held.2.2 id member

/-- A node is under its parent. -/
theorem Holds.mem_under (held : t.Holds parent level f) (distinct : f.places.Nodup) {c p : NodeId}
    (member : c ∈ f.places) (above : t.parent? c = some p) :
    parent = some p ∨ p ∈ f.places ∧ c ∈ (f.under p).tops := by
  induction f generalizing parent level with
  | nil => cases member
  | node entry children rest ihChildren ihRest =>
    obtain ⟨k, l⟩ := entry
    obtain ⟨⟨notInside, notBeside⟩, inside, beside, apart⟩ := distinct_node distinct
    dsimp only at notInside notBeside
    rw [places_node] at member ⊢
    rcases List.mem_cons.1 member with rfl | member
    · rw [parent?, held.1] at above
      exact Or.inl above
    · rcases List.mem_append.1 member with below | later
      · refine Or.inr ?_
        by_cases here : k = p
        · refine ⟨here ▸ List.mem_cons_self, ?_⟩
          rw [Forest.under, if_pos here]
          obtain ⟨n, found, -⟩ := held.2.1.found below
          rw [parent?, found, Option.bind_some] at above
          rcases held.2.1.parent_cases inside below found with ⟨top, _⟩ | ⟨_, q, listed, same⟩
          · exact top
          · cases same.symm.trans above
            exact absurd (here ▸ listed) notInside
        · obtain ⟨listed, under⟩ := (ihChildren held.2.1 inside below).resolve_left
            fun same => here (Option.some.inj same)
          refine ⟨List.mem_cons_of_mem _ (List.mem_append_left _ listed), ?_⟩
          rwa [Forest.under, if_neg here, if_pos listed]
      · rcases ihRest held.2.2 beside later with same | ⟨listed, under⟩
        · exact Or.inl same
        · refine Or.inr ⟨List.mem_cons_of_mem _ (List.mem_append_right _ listed), ?_⟩
          have other : ¬ k = p := fun same => notBeside (same ▸ listed)
          have away : ¬ p ∈ children.places := fun below => apart p below listed
          rwa [Forest.under, if_neg other, if_neg away]

/-- Every node can be reached from one of the trees. -/
theorem Holds.reached (held : t.Holds parent level f) : ∀ id ∈ f.places,
    ∃ top ∈ f.tops, Relation.ReflTransGen (fun p c => c ∈ t.children p) top id := by
  induction f generalizing parent level with
  | nil => exact fun _ member => absurd member List.not_mem_nil
  | node entry children rest ihChildren ihRest =>
    obtain ⟨k, l⟩ := entry
    intro id member
    rw [places_node] at member
    rcases List.mem_cons.1 member with rfl | member
    · exact ⟨id, List.mem_cons_self, .refl⟩
    · rcases List.mem_append.1 member with below | later
      · obtain ⟨top, listed, path⟩ := ihChildren held.2.1 id below
        exact ⟨k, List.mem_cons_self, .head (held.children_eq ▸ listed) path⟩
      · obtain ⟨top, listed, path⟩ := ihRest held.2.2 id later
        exact ⟨top, List.mem_cons_of_mem _ listed, path⟩

/-- How the nodes of a tree are linked. -/
structure Represents (t : ParseTree) : Prop where
  /-- The nodes that are not detached are those that can be reached from the root. -/
  reached : ∀ id, t.isDetached id = false ↔
    ∃ root, t.root = some root ∧ Relation.ReflTransGen (fun p c => c ∈ t.children p) root id
  /-- The walk from the root comes to each of them once. -/
  once : t.preOrder.Nodup ∧ ∀ id, id ∈ t.preOrder ↔ t.isDetached id = false
  siblings : ∀ id, (t.children id).Nodup
  links : ∀ p c, c ∈ t.children p ↔ t.parent? c = some p
  root : ∀ root, t.root = some root →
    ∃ n, t.node? root = some n ∧ n.parent = none ∧ n.level = 0
  levels : ∀ c n p, t.node? c = some n → n.parent = some p →
    ∃ m, t.node? p = some m ∧ n.level = m.level + 1
  detached : ∀ id n, t.node? id = some n → n.detached = true → n.parent = none ∧ n.children = []

namespace Carries

theorem children_eq (carries : t.Carries f) {id : NodeId} (member : id ∈ f.places) :
    t.children id = (f.under id).tops := by
  obtain ⟨n, found, -⟩ := carries.held.found member
  rw [← children_shut, ParseTree.children, found]
  exact carries.held.children_under member found

/-- A node with children or a parent is in the forest. -/
theorem mem_places_of_child (carries : t.Carries f) {p c : NodeId} (child : c ∈ t.children p) :
    p ∈ f.places := by
  refine Decidable.byContradiction fun outside => ?_
  rw [ParseTree.children] at child
  cases found : t.node? p with
  | none =>
    rw [found] at child
    cases child
  | some n =>
    rw [found] at child
    dsimp only at child
    rw [(carries.gone p n found outside).children] at child
    cases child

theorem mem_places_of_parent (carries : t.Carries f) {p c : NodeId} (above : t.parent? c = some p) :
    c ∈ f.places := by
  refine Decidable.byContradiction fun outside => ?_
  obtain ⟨n, found, same⟩ := Option.bind_eq_some_iff.1 above
  cases (carries.gone c n found outside).parent.symm.trans same

theorem found_child (carries : t.Carries f) {p c : NodeId} (child : c ∈ t.children p) :
    ∃ m n, t.node? p = some m ∧ t.node? c = some n ∧ n.parent = some p ∧ n.level = m.level + 1 := by
  have member := carries.mem_places_of_child child
  obtain ⟨m, found, -⟩ := carries.held.found member
  rw [carries.children_eq member] at child
  obtain ⟨n, known, above, depth⟩ := (carries.held.under member found).found_tops c child
  rw [node?_shut, Option.map_eq_some_iff] at found known
  obtain ⟨m, found, rfl⟩ := found
  obtain ⟨n, known, rfl⟩ := known
  exact ⟨m, n, found, known, above, depth⟩

theorem child_iff (carries : t.Carries f) (p c : NodeId) :
    c ∈ t.children p ↔ t.parent? c = some p := by
  constructor
  · intro child
    obtain ⟨m, n, -, found, above, -⟩ := carries.found_child child
    rw [parent?, found]
    exact above
  · intro above
    have member := carries.mem_places_of_parent above
    rw [← parent?_shut] at above
    rcases carries.held.mem_under carries.distinct member above with same | ⟨listed, under⟩
    · cases same
    · rwa [carries.children_eq listed]

theorem represents (carries : t.Carries f) : t.Represents where
  reached id := by
    rw [← carries.mem_places_iff]
    constructor
    · intro member
      obtain ⟨top, listed, path⟩ := carries.held.reached id member
      rw [carries.tops_eq, Option.mem_toList] at listed
      simp only [children_shut] at path
      exact ⟨top, listed, path⟩
    · rintro ⟨root, same, path⟩
      cases path with
      | refl =>
        refine tops_subset_places f id ?_
        rw [carries.tops_eq, same]
        exact List.mem_singleton_self id
      | tail _ child => exact carries.mem_places_of_parent ((carries.child_iff _ _).1 child)
  once := by
    rw [carries.preOrder_eq]
    exact ⟨carries.distinct, fun id => carries.mem_places_iff⟩
  siblings id := by
    by_cases member : id ∈ f.places
    · rw [carries.children_eq member]
      exact ((tops_sublist_places _).trans (places_under_sublist f id)).nodup carries.distinct
    · rw [List.eq_nil_iff_forall_not_mem.2 fun c child => member (carries.mem_places_of_child child)]
      exact List.Pairwise.nil
  links := carries.child_iff
  root root same := by
    have top : root ∈ f.tops := by
      rw [carries.tops_eq, same]
      exact List.mem_singleton_self root
    obtain ⟨n, found, above, depth⟩ := carries.held.found_tops root top
    rw [node?_shut, Option.map_eq_some_iff] at found
    obtain ⟨n, found, rfl⟩ := found
    exact ⟨n, found, above, depth⟩
  levels c n p found above := by
    have child := (carries.child_iff p c).2 ((congrArg (·.bind Node.parent) found).trans above)
    obtain ⟨m, n', known, found', -, depth⟩ := carries.found_child child
    cases found.symm.trans found'
    exact ⟨m, known, depth⟩
  detached id n found gone := by
    have outside : id ∉ f.places := by
      intro member
      have attached := carries.mem_places_iff.1 member
      rw [isDetached, found] at attached
      cases gone.symm.trans attached
    have gone := carries.gone id n found outside
    exact ⟨gone.parent, gone.children⟩

end Carries

/-- Every open node is the active node or above it. -/
def OpenAbove (t : ParseTree) : Prop :=
  ∀ id n, t.node? id = some n → n.isOpen = true →
    ∃ active, t.active = some active ∧
      Relation.ReflTransGen (fun c p => t.parent? c = some p) active id

theorem Carries.openAbove (carries : t.Carries f) (closed : t.isClosed = true) : t.OpenAbove := by
  intro id n found isOpen
  cases isOpen.symm.trans (carries.none_open closed found)

/-- A tree is closed as soon as no node is active. -/
theorem OpenAbove.isClosed_iff (above : t.OpenAbove) : t.isClosed = true ↔ t.active = none := by
  constructor
  · exact fun closed => Option.isNone_iff_eq_none.1 (Bool.and_eq_true_iff.1 closed).1
  · intro idle
    rw [isClosed, idle, Option.isNone_none, Bool.true_and, List.all_eq_true]
    intro id _
    cases found : t.node? id with
    | none => rfl
    | some n =>
      dsimp only
      rw [Bool.not_eq_true', Bool.eq_false_iff]
      intro isOpen
      obtain ⟨active, same, _⟩ := above id n found isOpen
      cases idle.symm.trans same

/-- Old nodes keep their parents. -/
theorem Carries.parent?_push (carries : t.Carries f) (n : Node) {j : NodeId} (old : j < t.nodes.size) :
    (t.push n).2.parent? j = t.parent? j := by
  rw [parent?, parent?, node?_push carries.attachPoint_lt, if_neg (Nat.ne_of_lt old)]
  split
  · cases t.node? j <;> rfl
  · rfl

theorem lt_size_of_parent {c p : NodeId} (above : t.parent? c = some p) : c < t.nodes.size := by
  obtain ⟨n, found, _⟩ := Option.bind_eq_some_iff.1 above
  exact (Array.getElem?_eq_some_iff.1 found).1

theorem Carries.push_parents (carries : t.Carries f) (n : Node) :
    ∀ c p, t.parent? c = some p → (t.push n).2.parent? c = some p := fun _ _ above =>
  (carries.parent?_push n (lt_size_of_parent above)).trans above

/-- Nodes before the last are as open as they were. -/
theorem Carries.open_push (carries : t.Carries f) (n : Node) {j : NodeId} {m : Node}
    (other : j ≠ t.nodes.size) (found : (t.push n).2.node? j = some m) (isOpen : m.isOpen = true) :
    ∃ old, t.node? j = some old ∧ old.isOpen = true := by
  rw [node?_push carries.attachPoint_lt, if_neg other] at found
  split at found
  · obtain ⟨old, known, rfl⟩ := Option.map_eq_some_iff.1 found
    exact ⟨old, known, isOpen⟩
  · exact ⟨m, found, isOpen⟩

theorem OpenAbove.enter (above : t.OpenAbove) (carries : t.Carries f) (name : String)
    (kind : RuleKind) : (t.enter name kind).2.OpenAbove := by
  intro j m found isOpen
  refine ⟨t.nodes.size, rfl, ?_⟩
  by_cases last : j = t.nodes.size
  · rw [last]
  · obtain ⟨old, known, wasOpen⟩ := carries.open_push (.inner name kind) last found isOpen
    obtain ⟨active, same, path⟩ := above j old known wasOpen
    refine .head ?_ (Relation.ReflTransGen.mono (carries.push_parents (.inner name kind)) _ _ path)
    have here := node?_push (n := .inner name kind) carries.attachPoint_lt t.nodes.size
    rw [if_pos rfl] at here
    change (t.push (.inner name kind)).2.parent? t.nodes.size = some active
    rw [parent?, here, Option.bind_some, attachPoint, same]
    rfl

theorem OpenAbove.leaf (above : t.OpenAbove) (carries : t.Carries f) (token : Token)
    (kind : RuleKind) : (t.leaf token kind).2.OpenAbove := by
  intro j m found isOpen
  have idle : (t.leaf token kind).2.active = t.active := active_attach ..
  rw [idle]
  by_cases last : j = t.nodes.size
  · have here := node?_push (n := .ofToken token kind) carries.attachPoint_lt j
    rw [if_pos last] at here
    cases here.symm.trans found
    cases isOpen
  · obtain ⟨old, known, wasOpen⟩ := carries.open_push (.ofToken token kind) last found isOpen
    obtain ⟨active, same, path⟩ := above j old known wasOpen
    exact ⟨active, same,
      Relation.ReflTransGen.mono (carries.push_parents (.ofToken token kind)) _ _ path⟩

theorem OpenAbove.close (above : t.OpenAbove) : t.close.2.OpenAbove := by
  unfold ParseTree.close
  cases active : t.active with
  | none => exact above
  | some id =>
    have found : ∀ j, (t.modify id fun n => { n with isOpen := false }).node? j =
        if id = j then (t.node? j).map Node.shut else t.node? j :=
      fun j => node?_modify t id j Node.shut
    have parents : ∀ j, (t.modify id fun n => { n with isOpen := false }).parent? j =
        t.parent? j := by
      intro j
      rw [parent?, parent?, found]
      split
      · cases t.node? j <;> rfl
      · rfl
    intro j m here isOpen
    have here : (t.modify id fun n => { n with isOpen := false }).node? j = some m := here
    rw [found] at here
    split at here
    · obtain ⟨old, known, rfl⟩ := Option.map_eq_some_iff.1 here
      cases isOpen
    · next other =>
      obtain ⟨a, same, path⟩ := above j m here isOpen
      cases active.symm.trans same
      rcases path.cases_head with same | ⟨p, up, rest⟩
      · exact absurd same other
      · exact ⟨p, up, Relation.ReflTransGen.mono (fun c _ => (parents c).trans) _ _ rest⟩

theorem OpenAbove.sameShape (above : t.OpenAbove) (same : t.SameShape t') : t'.OpenAbove := by
  intro id n found isOpen
  rw [same.active]
  rcases same.cases id with ⟨_, there⟩ | ⟨n, attrs, here, there⟩
  · cases there.symm.trans found
  · cases there.symm.trans found
    obtain ⟨active, now, path⟩ := above id n here isOpen
    exact ⟨active, now, Relation.ReflTransGen.mono (fun c _ => (same.parent? c).trans) _ _ path⟩

theorem OpenAbove.merge {other : ParseTree} (above : t.OpenAbove) (carries : t.Carries f)
    (others : other.Carries g) (closed : other.isClosed = true) : (t.merge other).OpenAbove := by
  cases root : other.root with
  | none =>
    unfold ParseTree.merge
    rw [root]
    exact above
  | some top =>
    have placed := node?_merge (t := t) root carries.attachPoint_lt
    have parents : ∀ c p, t.parent? c = some p → (t.merge other).parent? c = some p := by
      intro c p above
      rw [parent?, placed, if_pos (lt_size_of_parent above)]
      split
      · rw [parent?] at above
        rw [Option.bind_map]
        exact above
      · exact above
    intro j m found isOpen
    rw [placed] at found
    rw [active_merge]
    split at found
    · obtain ⟨old, known, wasOpen⟩ : ∃ old, t.node? j = some old ∧ old.isOpen = true := by
        split at found
        · obtain ⟨old, known, rfl⟩ := Option.map_eq_some_iff.1 found
          exact ⟨old, known, isOpen⟩
        · exact ⟨m, found, isOpen⟩
      obtain ⟨active, same, path⟩ := above j old known wasOpen
      exact ⟨active, same, Relation.ReflTransGen.mono parents _ _ path⟩
    · obtain ⟨n, known, rfl⟩ := Option.map_eq_some_iff.1 found
      have shut := others.none_open closed known
      have same : (grafted t.attachPoint (j == top + t.nodes.size)
          (shifted t.nodes.size (t.levelUnder t.attachPoint) n)).isOpen = n.isOpen := by
        unfold grafted
        split <;> rfl
      cases isOpen.symm.trans (same.trans shut)

/-- The trees that are built from the empty one, where trees that `graft` allows are merged. A step
that fails leaves a tree as it is, but where nodes are removed one after the other, those before the
one that cannot be removed are gone. -/
inductive Built (graft : ParseTree → Prop) : ParseTree → Prop
  | empty : Built graft {}
  | enter {t : ParseTree} (built : Built graft t) (name : String) (kind : RuleKind) :
      Built graft (t.enter name kind).2
  | leaf {t : ParseTree} (built : Built graft t) (token : Token) (kind : RuleKind) :
      Built graft (t.leaf token kind).2
  | close {t : ParseTree} (built : Built graft t) : Built graft t.close.2
  | setAttr {t : ParseTree} (built : Built graft t) (id : NodeId) (kind : AttrKind) (a : Attr)
      (v : AttrValue) : Built graft (t.setAttr id kind a v)
  | merge {t other : ParseTree} (built : Built graft t) (others : Built graft other)
      (allowed : graft other) : Built graft (t.merge other)
  | collapse {t t' : ParseTree} (built : Built graft t) {id : NodeId} {reduced : Bool}
      (done : t.collapse id = .ok (reduced, t')) : Built graft t'
  | collapseAll {t t' : ParseTree} (built : Built graft t) {m : NodeMatch} {count : Nat}
      (done : t.collapseAll m = .ok (count, t')) : Built graft t'
  | dissolve {t t' : ParseTree} (built : Built graft t) {id : NodeId}
      (done : t.dissolve id = .ok t') : Built graft t'
  | dissolveSome {t t' : ParseTree} (built : Built graft t) (closed : t.isClosed = true)
      {m : NodeMatch} {ids : List NodeId} (among : ids <+: t.findAll m) {count : Nat}
      (done : dissolveEach ids (0, t) = .ok (count, t')) : Built graft t'
  | dissolveAll {t t' : ParseTree} (built : Built graft t) {m : NodeMatch} {count : Nat}
      (done : t.dissolveAll m = .ok (count, t')) : Built graft t'

variable {graft : ParseTree → Prop}

theorem closed_of_check {u : Unit} (done : t.checkClosed = .ok u) : t.isClosed = true := by
  unfold checkClosed at done
  split at done
  · assumption
  · cases done

theorem checkAttached_eq_ok_iff {id : NodeId} :
    t.checkAttached id = .ok () ↔ t.isClosed = true ∧ t.isDetached id = false := by
  unfold checkAttached checkClosed
  cases t.isClosed <;> cases t.isDetached id <;> simp [bind, Except.bind]

theorem collapse_eq_ok {id : NodeId} (closed : t.isClosed = true)
    (attached : t.isDetached id = false) :
    t.collapse id = .ok ((t.collapseAt id).1, (t.collapseAt id).2) := by
  rw [ParseTree.collapse, checkAttached_eq_ok_iff.2 ⟨closed, attached⟩]
  rfl

/-- A cut succeeds on closed trees only, and leaves a closed tree. -/
theorem Built.finished_of_collapse (carried : ∃ f, t.Carries f) {id : NodeId} {reduced : Bool}
    (done : t.collapse id = .ok (reduced, t')) : t'.Finished := by
  unfold ParseTree.collapse at done
  cases checked : t.checkAttached id with
  | error e =>
    rw [checked] at done
    cases done
  | ok =>
    obtain ⟨closed, attached⟩ := checkAttached_eq_ok_iff.1 checked
    have finished : t.Finished := ⟨carried, closed⟩
    rw [checked] at done
    have same : t.collapseAt id = (reduced, t') := Except.ok.inj done
    have after := finished.collapseAt attached
    rwa [same] at after

theorem Built.finished_of_collapseAll (carried : ∃ f, t.Carries f) {m : NodeMatch} {count : Nat}
    (done : t.collapseAll m = .ok (count, t')) : t'.Finished := by
  unfold ParseTree.collapseAll at done
  cases checked : t.checkClosed with
  | error e =>
    rw [checked] at done
    cases done
  | ok =>
    have finished : t.Finished := ⟨carried, closed_of_check checked⟩
    rw [checked] at done
    have same : ParseTree.collapseEach (t.findAll m) (0, t) = (count, t') := Except.ok.inj done
    have after := finished.collapseEach (t.findAll m) 0
    rwa [same] at after

theorem Built.finished_of_dissolve (carried : ∃ f, t.Carries f) {id : NodeId}
    (done : t.dissolve id = .ok t') : t'.Finished := by
  unfold ParseTree.dissolve at done
  cases checked : t.checkAttached id with
  | error e =>
    rw [checked] at done
    cases done
  | ok =>
    obtain ⟨closed, attached⟩ := checkAttached_eq_ok_iff.1 checked
    rw [checked] at done
    exact Finished.dissolveAt ⟨carried, closed⟩ attached done

theorem Built.finished_of_dissolveAll (carried : ∃ f, t.Carries f) {m : NodeMatch} {count : Nat}
    (done : t.dissolveAll m = .ok (count, t')) : t'.Finished := by
  unfold ParseTree.dissolveAll at done
  cases checked : t.checkClosed with
  | error e =>
    rw [checked] at done
    cases done
  | ok =>
    have finished : t.Finished := ⟨carried, closed_of_check checked⟩
    rw [checked] at done
    change ((t.checkChainFrom m t.nodes.size t.root).bind fun _ =>
      ParseTree.dissolveEach (t.findAll m) (0, t)) = _ at done
    cases chain : t.checkChainFrom m t.nodes.size t.root with
    | error e =>
      rw [chain] at done
      cases done
    | ok =>
      rw [chain] at done
      exact finished.dissolveEach done

/-- What every step keeps. -/
theorem Built.invariant (built : Built graft t) : (∃ f, t.Carries f) ∧
    ((∀ other, graft other → other.isClosed = true) → t.OpenAbove) := by
  have cut : ∀ {t' : ParseTree}, t'.Finished → (∃ f, t'.Carries f) ∧
      ((∀ other, graft other → other.isClosed = true) → t'.OpenAbove) :=
    fun ⟨⟨f, carries⟩, closed⟩ => ⟨⟨f, carries⟩, fun _ => carries.openAbove closed⟩
  induction built with
  | empty => exact ⟨⟨nil, carries_empty⟩, fun _ id n found => by cases found⟩
  | enter _ name kind ih =>
    obtain ⟨⟨f, carries⟩, above⟩ := ih
    exact ⟨⟨_, carries.enter name kind⟩, fun shut => (above shut).enter carries name kind⟩
  | leaf _ token kind ih =>
    obtain ⟨⟨f, carries⟩, above⟩ := ih
    exact ⟨⟨_, carries.leaf token kind⟩, fun shut => (above shut).leaf carries token kind⟩
  | close _ ih =>
    obtain ⟨⟨f, carries⟩, above⟩ := ih
    exact ⟨⟨f, carries.close⟩, fun shut => (above shut).close⟩
  | @setAttr u _ id kind a v ih =>
    obtain ⟨⟨f, carries⟩, above⟩ := ih
    have same := sameShape_setAttr u id kind a v
    exact ⟨⟨_, carries.sameShape same⟩, fun shut => (above shut).sameShape same⟩
  | merge _ _ allowed ih ihOther =>
    obtain ⟨⟨f, carries⟩, above⟩ := ih
    obtain ⟨⟨g, others⟩, _⟩ := ihOther
    exact ⟨carries.merge others,
      fun shut => (above shut).merge carries others (shut _ allowed)⟩
  | collapse _ done ih => exact cut (finished_of_collapse ih.1 done)
  | collapseAll _ done ih => exact cut (finished_of_collapseAll ih.1 done)
  | dissolve _ done ih => exact cut (finished_of_dissolve ih.1 done)
  | dissolveSome _ closed _ done ih => exact cut (Finished.dissolveEach ⟨ih.1, closed⟩ done)
  | dissolveAll _ done ih => exact cut (finished_of_dissolveAll ih.1 done)

/-- Trees are represented as they should be after any steps. If closed trees only were merged, every
open node is the active one or above it, so a tree is closed as soon as no node is active. -/
theorem represents_of_built (built : Built graft t) : t.Represents ∧
    ((∀ other, graft other → other.isClosed = true) →
      t.OpenAbove ∧ (t.isClosed = true ↔ t.active = none)) := by
  obtain ⟨⟨f, carries⟩, above⟩ := built.invariant
  exact ⟨carries.represents, fun shut => ⟨above shut, (above shut).isClosed_iff⟩⟩

/-- An item is merged into a list, which is cut out then, and a further node is open in its place. -/
theorem represents_of_built_list : ∃ t : ParseTree, t.outline = "(item word more)" ∧
    t.nodes.size = 4 ∧ t.Represents ∧ t.OpenAbove ∧ (t.isClosed = true ↔ t.active = none) := by
  let word : Token := { name := "word", lexeme := "x", attrs := {} }
  let item := (((({} : ParseTree).enter "item" .concatenation).2.leaf word .terminal).2.close).2
  let list := ((({} : ParseTree).enter "list" .repetition).2.merge item).close.2
  have ofItem : Built (fun other => other.isClosed = true) item :=
    ((Built.empty.enter "item" .concatenation).leaf word .terminal).close
  have ofList : Built (fun other => other.isClosed = true) list :=
    ((Built.empty.enter "list" .repetition).merge ofItem (by decide +kernel)).close
  have closed : list.isClosed = true := by decide +kernel
  have attached : list.isDetached 0 = false := by decide +kernel
  have built := (ofList.collapse (collapse_eq_ok closed attached)).enter "more" .option
  obtain ⟨represents, above⟩ := represents_of_built built
  obtain ⟨opened, idle⟩ := above fun _ shut => shut
  exact ⟨_, by decide +kernel, by decide +kernel, represents, opened, idle⟩

end ParseTree

end AttrGrammar
