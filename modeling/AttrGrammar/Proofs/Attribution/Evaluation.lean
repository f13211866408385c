import AttrGrammar.Attribution
import AttrGrammar.Proofs.Tree.Bare
import AttrGrammar.Proofs.Tree.Splicing

/-!
Evaluating attributes on trees.

Hooks change attributes of the node that they run on and nothing else. A pass runs them on one node
after the other. If a hook reads attributes only of nodes that come before, its value is the same
on the tree as it is in the end.
-/

namespace AttrGrammar

/-- Attributes are told apart by their values. -/
theorem Attributes.ext_get? {attrs attrs' : Attributes}
    (same : ∀ kind a, attrs.get? kind a = attrs'.get? kind a) : attrs = attrs' := by
  obtain ⟨⟨line, indent, render, scope⟩, ⟨line', indent', render', scope'⟩⟩ := attrs
  obtain ⟨⟨_, _, _, _⟩, ⟨_, _, _, _⟩⟩ := attrs'
  cases same .synthesized .line
  cases same .synthesized .indent
  cases same .synthesized .render
  cases same .synthesized .scope
  cases same .inherited .line
  cases same .inherited .indent
  cases same .inherited .render
  cases same .inherited .scope
  rfl

namespace ParseTree

/-- A node without its attributes. -/
def bareNode? (t : ParseTree) (id : NodeId) : Option Node :=
  (t.node? id).map fun n => { n with attrs := {} }

/-- Trees that differ in attributes only. -/
structure SameShape (t t' : ParseTree) : Prop where
  size : t'.nodes.size = t.nodes.size
  root : t'.root = t.root
  active : t'.active = t.active
  node : ∀ id, t'.bareNode? id = t.bareNode? id

namespace SameShape

variable {t t' u : ParseTree}

theorem refl (t : ParseTree) : t.SameShape t := ⟨rfl, rfl, rfl, fun _ => rfl⟩

theorem symm (same : t.SameShape t') : t'.SameShape t :=
  ⟨same.size.symm, same.root.symm, same.active.symm, fun id => (same.node id).symm⟩

theorem trans (first : t.SameShape t') (second : t'.SameShape u) : t.SameShape u :=
  ⟨second.size.trans first.size, second.root.trans first.root, second.active.trans first.active,
    fun id => (second.node id).trans (first.node id)⟩

/-- At each place both trees have no node, or nodes that differ in attributes only. -/
theorem cases (same : t.SameShape t') (id : NodeId) :
    t.node? id = none ∧ t'.node? id = none ∨
      ∃ n attrs, t.node? id = some n ∧ t'.node? id = some { n with attrs } := by
  have bare := same.node id
  unfold bareNode? at bare
  cases here : t.node? id with
  | none =>
    rw [here, Option.map_none, Option.map_eq_none_iff] at bare
    exact Or.inl ⟨rfl, bare⟩
  | some n =>
    rw [here, Option.map_some, Option.map_eq_some_iff] at bare
    obtain ⟨n', found, equal⟩ := bare
    refine Or.inr ⟨n, n'.attrs, rfl, found.trans (congrArg some ?_)⟩
    simp only [Node.mk.injEq] at equal
    obtain ⟨name, kind, token, _, children, parent, isOpen, level, detached⟩ := equal
    cases n'
    cases n
    simp_all

theorem children (same : t.SameShape t') (id : NodeId) : t'.children id = t.children id := by
  unfold ParseTree.children
  rcases same.cases id with ⟨here, there⟩ | ⟨n, attrs, here, there⟩ <;> rw [here, there]

theorem parent? (same : t.SameShape t') (id : NodeId) : t'.parent? id = t.parent? id := by
  unfold ParseTree.parent?
  rcases same.cases id with ⟨here, there⟩ | ⟨n, attrs, here, there⟩ <;> rw [here, there]
  rfl

theorem isLeaf (same : t.SameShape t') (id : NodeId) : t'.isLeaf id = t.isLeaf id := by
  unfold ParseTree.isLeaf
  rcases same.cases id with ⟨here, there⟩ | ⟨n, attrs, here, there⟩ <;> rw [here, there]
  rfl

theorem lexemeOf (same : t.SameShape t') (id : NodeId) : t'.lexemeOf id = t.lexemeOf id := by
  unfold ParseTree.lexemeOf
  rcases same.cases id with ⟨here, there⟩ | ⟨n, attrs, here, there⟩ <;> rw [here, there]
  rfl

theorem preOrderFrom (same : t.SameShape t') (fuel : Nat) (stack : List NodeId) :
    t'.preOrderFrom fuel stack = t.preOrderFrom fuel stack := by
  induction fuel generalizing stack with
  | zero => rfl
  | succ fuel ih =>
    cases stack with
    | nil => rfl
    | cons id rest => rw [ParseTree.preOrderFrom, ParseTree.preOrderFrom, same.children, ih]

theorem preOrder (same : t.SameShape t') : t'.preOrder = t.preOrder := by
  rw [ParseTree.preOrder, ParseTree.preOrder, same.size, same.root, same.preOrderFrom]

theorem postOrderFrom (same : t.SameShape t') (fuel : Nat) (stack : List (NodeId × Bool)) :
    t'.postOrderFrom fuel stack = t.postOrderFrom fuel stack := by
  induction fuel generalizing stack with
  | zero => rfl
  | succ fuel ih =>
    match stack with
    | [] => rfl
    | (id, true) :: rest => rw [ParseTree.postOrderFrom, ParseTree.postOrderFrom, ih]
    | (id, false) :: rest =>
      rw [ParseTree.postOrderFrom, ParseTree.postOrderFrom, same.children, ih]

theorem postOrder (same : t.SameShape t') : t'.postOrder = t.postOrder := by
  rw [ParseTree.postOrder, ParseTree.postOrder, same.size, same.root, same.postOrderFrom]

theorem firstLeaf? (same : t.SameShape t') (id : NodeId) : t'.firstLeaf? id = t.firstLeaf? id := by
  have walk : ∀ (fuel : Nat) (id : NodeId),
      t'.firstLeafFrom fuel id = t.firstLeafFrom fuel id := by
    intro fuel
    induction fuel with
    | zero => intro id; rfl
    | succ fuel ih =>
      intro id
      rw [firstLeafFrom, firstLeafFrom, same.isLeaf, same.children, funext ih]
  rw [ParseTree.firstLeaf?, ParseTree.firstLeaf?, same.size, walk]

end SameShape

section

open Forest

variable {t u : ParseTree} {parent : Option NodeId} {level : Nat}

/-- A planted forest with the attributes that a tree has. -/
def relabel (u : ParseTree) (f : Planted) : Planted :=
  f.map fun (id, l) => (id, { l with attrs := ((u.node? id).map (·.attrs)).getD {} })

@[simp] theorem tops_relabel (u : ParseTree) (f : Planted) : (u.relabel f).tops = f.tops := by
  rw [tops, relabel, roots_map, List.map_map]
  rfl

@[simp] theorem places_relabel (u : ParseTree) (f : Planted) :
    (u.relabel f).places = f.places := by
  rw [places, relabel, preorder_map, List.map_map]
  rfl

theorem bare_relabel (u : ParseTree) (f : Planted) :
    (u.relabel f).bare = (f.map Prod.snd).map Label.bare := by
  induction f with
  | nil => rfl
  | node entry children rest ihChildren ihRest =>
    simp only [Forest.bare, relabel, Forest.map] at ihChildren ihRest ⊢
    rw [ihChildren, ihRest]
    rfl

theorem SameShape.holds (same : t.SameShape u) {f : Planted} (held : t.Holds parent level f) :
    u.Holds parent level (u.relabel f) := by
  induction f generalizing parent level with
  | nil => trivial
  | node entry children rest ihChildren ihRest =>
    obtain ⟨k, l⟩ := entry
    obtain ⟨found, below, beside⟩ := held
    refine ⟨?_, ihChildren below, ihRest beside⟩
    have tops := u.tops_relabel children
    rw [relabel] at tops
    rcases same.cases k with ⟨absent, _⟩ | ⟨n, attrs, here, there⟩
    · rw [found] at absent
      cases absent
    · rw [found] at here
      cases here
      rw [there, tops]
      rfl

theorem SameShape.rooted (same : t.SameShape u) {f : Planted} (rooted : t.Rooted f) :
    u.Rooted (u.relabel f) :=
  ⟨same.holds rooted.held, by rw [places_relabel]; exact rooted.distinct,
    by rw [tops_relabel, same.root, rooted.root], by rw [tops_relabel]; exact rooted.single,
    same.active.trans rooted.idle⟩

end

/-- An attribute of the node at a place. -/
def attr? (t : ParseTree) (id : NodeId) (kind : AttrKind) (a : Attr) : Option AttrValue :=
  (t.node? id).bind fun n => n.attrs.get? kind a

/-- Nodes of trees of one shape that agree in all attributes are the same. -/
theorem SameShape.node?_eq {t t' : ParseTree} (same : t.SameShape t') {id : NodeId}
    (agree : ∀ kind a, t'.attr? id kind a = t.attr? id kind a) : t'.node? id = t.node? id := by
  rcases same.cases id with ⟨here, there⟩ | ⟨n, attrs, here, there⟩
  · rw [here, there]
  · have equal : attrs = n.attrs := by
      refine Attributes.ext_get? fun kind a => ?_
      have value := agree kind a
      rwa [attr?, attr?, here, there] at value
    rw [here, there, equal]

theorem node?_setAttr (t : ParseTree) (id j : NodeId) (kind : AttrKind) (a : Attr)
    (v : AttrValue) (other : j ≠ id) : (t.setAttr id kind a v).node? j = t.node? j := by
  rw [setAttr, node?_modify, if_neg (Ne.symm other)]

theorem sameShape_setAttr (t : ParseTree) (id : NodeId) (kind : AttrKind) (a : Attr)
    (v : AttrValue) : t.SameShape (t.setAttr id kind a v) := by
  refine ⟨Array.size_modify, rfl, rfl, fun j => ?_⟩
  rw [bareNode?, bareNode?, setAttr, node?_modify]
  split
  · rw [Option.map_map]
    rfl
  · rfl

theorem attr?_setAttr {t : ParseTree} {id : NodeId} {n : Node} (found : t.node? id = some n)
    (kind kind' : AttrKind) (a b : Attr) (v : AttrValue) :
    (t.setAttr id kind a v).attr? id kind' b =
      if kind' = kind ∧ b = a then some v else t.attr? id kind' b := by
  rw [attr?, attr?, setAttr, node?_modify, if_pos rfl, found, Option.map_some, Option.bind_some,
    Option.bind_some, Attributes.get?_set]

theorem attr?_setAttr_other (t : ParseTree) (id j : NodeId) {kind kind' : AttrKind} {a b : Attr}
    (v : AttrValue) (other : ¬ (kind' = kind ∧ b = a)) :
    (t.setAttr id kind a v).attr? j kind' b = t.attr? j kind' b := by
  rw [attr?, attr?, setAttr, node?_modify]
  split
  · cases t.node? j with
    | none => rfl
    | some n => rw [Option.map_some, Option.bind_some, Option.bind_some, Attributes.get?_set,
        if_neg other]
  · rfl

/-- Setting an attribute to the value that it has changes nothing. -/
theorem setAttr_of_attr? {t : ParseTree} {id : NodeId} {kind : AttrKind} {a : Attr} {v : AttrValue}
    (set : t.attr? id kind a = some v) : t.setAttr id kind a v = t := by
  obtain ⟨n, found, value⟩ := Option.bind_eq_some_iff.1 set
  have attrs : n.attrs.set kind a v = n.attrs := by
    refine Attributes.ext_get? fun k b => ?_
    rw [Attributes.get?_set]
    split
    · next both => rw [both.1, both.2, value]
    · rfl
  have nodes : ∀ j, (t.setAttr id kind a v).node? j = t.node? j := by
    intro j
    rw [setAttr, node?_modify]
    split
    · next same =>
      rw [← same, found, Option.map_some, attrs]
    · rfl
  cases t
  exact congrArg (ParseTree.mk · _ _) (Array.ext_getElem? nodes)

end ParseTree

namespace Attribution

/-- One step of running hooks on a node. -/
def applyHook (tree : ParseTree) (id : NodeId) (entry : AttrDecl × NodeHook) : ParseTree :=
  match tree.node? id with
  | none => tree
  | some node =>
    if entry.1.appliesTo.contains node.name then
      match entry.2 tree id with
      | some v => tree.setAttr id entry.1.kind entry.1.attr v
      | none => tree
    else tree

theorem applyHooks_eq (hooks : List (AttrDecl × NodeHook)) (tree : ParseTree) (id : NodeId) :
    applyHooks hooks tree id = hooks.foldl (fun tree entry => applyHook tree id entry) tree := rfl

/-- A hook sets an attribute of its declaration, or changes nothing. -/
theorem applyHook_cases (tree : ParseTree) (id : NodeId) (entry : AttrDecl × NodeHook) :
    applyHook tree id entry = tree ∨
      ∃ v, applyHook tree id entry = tree.setAttr id entry.1.kind entry.1.attr v := by
  unfold applyHook
  split
  · exact Or.inl rfl
  · split
    · split
      · exact Or.inr ⟨_, rfl⟩
      · exact Or.inl rfl
    · exact Or.inl rfl

theorem sameShape_applyHook (tree : ParseTree) (id : NodeId) (entry : AttrDecl × NodeHook) :
    tree.SameShape (applyHook tree id entry) := by
  rcases applyHook_cases tree id entry with same | ⟨v, set⟩
  · rw [same]
    exact .refl tree
  · rw [set]
    exact tree.sameShape_setAttr ..

theorem node?_applyHook (tree : ParseTree) {id j : NodeId} (other : j ≠ id)
    (entry : AttrDecl × NodeHook) : (applyHook tree id entry).node? j = tree.node? j := by
  rcases applyHook_cases tree id entry with same | ⟨v, set⟩
  · rw [same]
  · rw [set, ParseTree.node?_setAttr _ _ _ _ _ _ other]

theorem sameShape_applyHooks (hooks : List (AttrDecl × NodeHook)) (tree : ParseTree)
    (id : NodeId) : tree.SameShape (applyHooks hooks tree id) := by
  rw [applyHooks_eq]
  induction hooks generalizing tree with
  | nil => exact .refl tree
  | cons entry rest ih => exact (sameShape_applyHook tree id entry).trans (ih _)

theorem node?_applyHooks (hooks : List (AttrDecl × NodeHook)) (tree : ParseTree) {id j : NodeId}
    (other : j ≠ id) : (applyHooks hooks tree id).node? j = tree.node? j := by
  rw [applyHooks_eq]
  induction hooks generalizing tree with
  | nil => rfl
  | cons entry rest ih => exact (ih _).trans (node?_applyHook tree other entry)

/-- What changes a tree when hooks run at some places: attributes of one kind, and there only. -/
structure Changes (kind : AttrKind) (places : NodeId → Prop) (u u' : ParseTree) : Prop where
  shape : u.SameShape u'
  node : ∀ j, ¬ places j → u'.node? j = u.node? j
  attr : ∀ j k a, k ≠ kind → u'.attr? j k a = u.attr? j k a

variable {hooks : List (AttrDecl × NodeHook)} {kind : AttrKind} {a : Attr} {rules : RuleSet}
  {hook : NodeHook} {t u u' : ParseTree} {id : NodeId} {places more : NodeId → Prop}

namespace Changes

theorem refl (u : ParseTree) : Changes kind places u u := ⟨.refl u, fun _ _ => rfl, fun _ _ _ _ => rfl⟩

theorem trans {w : ParseTree} (first : Changes kind places u u') (second : Changes kind places u' w) :
    Changes kind places u w :=
  ⟨first.shape.trans second.shape,
    fun j away => (second.node j away).trans (first.node j away),
    fun j k a other => (second.attr j k a other).trans (first.attr j k a other)⟩

theorem mono (changes : Changes kind places u u') (wider : ∀ j, places j → more j) :
    Changes kind more u u' :=
  ⟨changes.shape, fun j away => changes.node j fun here => away (wider j here), changes.attr⟩

end Changes

theorem changes_applyHook {entry : AttrDecl × NodeHook} (ofKind : entry.1.kind = kind)
    (u : ParseTree) (id : NodeId) : Changes kind (· = id) u (applyHook u id entry) := by
  refine ⟨sameShape_applyHook u id entry, fun j other => node?_applyHook u other entry,
    fun j k a other => ?_⟩
  rcases applyHook_cases u id entry with same | ⟨v, set⟩
  · rw [same]
  · rw [set, ParseTree.attr?_setAttr_other _ _ _ _ fun both => other (both.1.trans ofKind)]

theorem changes_applyHooks (ofKind : ∀ entry ∈ hooks, entry.1.kind = kind) (u : ParseTree)
    (id : NodeId) : Changes kind (· = id) u (applyHooks hooks u id) := by
  rw [applyHooks_eq]
  induction hooks generalizing u with
  | nil => exact .refl u
  | cons entry rest ih =>
    exact (changes_applyHook (ofKind entry List.mem_cons_self) u id).trans
      (ih (fun e member => ofKind e (List.mem_cons_of_mem _ member)) _)

/-- The declarations of an attribute among some hooks: there is one, and all of them run the same
hook on the nodes of the same rules. -/
structure Defines (hooks : List (AttrDecl × NodeHook)) (kind : AttrKind) (a : Attr)
    (rules : RuleSet) (hook : NodeHook) : Prop where
  listed : ∃ entry ∈ hooks, entry.1.kind = kind ∧ entry.1.attr = a
  same : ∀ entry ∈ hooks, entry.1.kind = kind → entry.1.attr = a →
    entry.1.appliesTo = rules ∧ entry.2 = hook

/-- On trees of a shape, a hook looks only at attributes of the kinds and at the nodes that `reads`
gives for the node that it runs on. -/
def ReadsOnly (hook : NodeHook) (t : ParseTree) (reads : NodeId → NodeId → AttrKind → Prop) : Prop :=
  ∀ {u u' : ParseTree}, t.SameShape u → t.SameShape u' → ∀ id ∈ t.preOrder,
    (∀ j kind, reads id j kind → ∀ a, u'.attr? j kind a = u.attr? j kind a) → hook u' id = hook u id

variable {reads : NodeId → NodeId → AttrKind → Prop}

/-- Changes where a hook does not look leave its value alone. -/
theorem ReadsOnly.unchanged (only : ReadsOnly hook t reads) (same : t.SameShape u)
    (changes : Changes kind places u u') (reached : id ∈ t.preOrder)
    (apart : ∀ j, reads id j kind → ¬ places j) : hook u' id = hook u id := by
  refine only same (same.trans changes.shape) id reached fun j k looked b => ?_
  by_cases here : k = kind
  · subst here
    rw [ParseTree.attr?, ParseTree.attr?, changes.node j (apart j looked)]
  · exact changes.attr j k b here

/-- A declared hook sets its attribute to its value, if it has one. -/
theorem attr?_applyHook {entry : AttrDecl × NodeHook} {n : Node} (found : u.node? id = some n)
    (applies : rules.contains n.name = true)
    (same : entry.1.kind = kind → entry.1.attr = a →
      entry.1.appliesTo = rules ∧ entry.2 = hook) :
    (applyHook u id entry).attr? id kind a =
      if entry.1.kind = kind ∧ entry.1.attr = a then (hook u id).or (u.attr? id kind a)
      else u.attr? id kind a := by
  by_cases declared : entry.1.kind = kind ∧ entry.1.attr = a
  · obtain ⟨ofRules, runs⟩ := same declared.1 declared.2
    rw [if_pos declared, applyHook, found]
    dsimp only
    rw [if_pos (ofRules ▸ applies), runs]
    cases value : hook u id with
    | none => rfl
    | some v =>
      dsimp only
      rw [ParseTree.attr?_setAttr found, if_pos ⟨declared.1.symm, declared.2.symm⟩, Option.some_or]
  · rw [if_neg declared]
    rcases applyHook_cases u id entry with same | ⟨w, set⟩
    · rw [same]
    · rw [set, ParseTree.attr?_setAttr found,
        if_neg fun both => declared ⟨both.1.symm, both.2.symm⟩]

/-- After all hooks of a node the attribute has the value that its hook had before, if the hook does
not look at attributes of the kind at the node itself. -/
theorem attr?_applyHooks (only : ReadsOnly hook t reads) (same : t.SameShape u)
    (reached : id ∈ t.preOrder) (apart : ¬ reads id id kind) {n : Node}
    (found : u.node? id = some n) (applies : rules.contains n.name = true)
    (ofKind : ∀ entry ∈ hooks, entry.1.kind = kind)
    (defines : ∀ entry ∈ hooks, entry.1.kind = kind → entry.1.attr = a →
      entry.1.appliesTo = rules ∧ entry.2 = hook) :
    (applyHooks hooks u id).attr? id kind a =
      if ∃ entry ∈ hooks, entry.1.kind = kind ∧ entry.1.attr = a then
        (hook u id).or (u.attr? id kind a)
      else u.attr? id kind a := by
  rw [applyHooks_eq]
  induction hooks generalizing u n with
  | nil => simp
  | cons entry rest ih =>
    have step := changes_applyHook (ofKind entry List.mem_cons_self) u id
    obtain ⟨attrs, found'⟩ : ∃ attrs, (applyHook u id entry).node? id = some { n with attrs } := by
      rcases step.shape.cases id with ⟨absent, _⟩ | ⟨n', attrs, here, there⟩
      · rw [found] at absent
        cases absent
      · cases found.symm.trans here
        exact ⟨attrs, there⟩
    have value : hook (applyHook u id entry) id = hook u id :=
      only.unchanged same step reached fun j looked here => apart (here ▸ looked)
    have later := ih (same.trans step.shape) found' applies
      (fun e member => ofKind e (List.mem_cons_of_mem _ member))
      fun e member => defines e (List.mem_cons_of_mem _ member)
    rw [List.foldl_cons, later, value,
      attr?_applyHook found applies (defines entry List.mem_cons_self)]
    by_cases inRest : ∃ e ∈ rest, e.1.kind = kind ∧ e.1.attr = a
    · obtain ⟨e, member, declared⟩ := inRest
      have among : ∃ e ∈ entry :: rest, e.1.kind = kind ∧ e.1.attr = a :=
        ⟨e, List.mem_cons_of_mem _ member, declared⟩
      rw [if_pos ⟨e, member, declared⟩, if_pos among]
      -- Where the attribute is declared twice, it is set to the same value again.
      split <;> cases hook u id <;> rfl
    · rw [if_neg inRest]
      by_cases here : entry.1.kind = kind ∧ entry.1.attr = a
      · rw [if_pos here, if_pos ⟨entry, List.mem_cons_self, here⟩]
      · rw [if_neg here, if_neg]
        rintro ⟨e, member, declared⟩
        rcases List.mem_cons.1 member with rfl | member
        · exact here declared
        · exact inRest ⟨e, member, declared⟩

theorem sameShape_pass (ids : List NodeId) (u : ParseTree) :
    u.SameShape (ids.foldl (applyHooks hooks) u) := by
  induction ids generalizing u with
  | nil => exact .refl u
  | cons id rest ih => exact (sameShape_applyHooks hooks u id).trans (ih _)

theorem node?_pass {ids : List NodeId} (u : ParseTree) {j : NodeId} (outside : j ∉ ids) :
    (ids.foldl (applyHooks hooks) u).node? j = u.node? j := by
  induction ids generalizing u with
  | nil => rfl
  | cons id rest ih =>
    rw [List.mem_cons, not_or] at outside
    exact (ih _ outside.2).trans (node?_applyHooks hooks u outside.1)

theorem changes_pass (ofKind : ∀ entry ∈ hooks, entry.1.kind = kind) (ids : List NodeId)
    (u : ParseTree) : Changes kind (· ∈ ids) u (ids.foldl (applyHooks hooks) u) := by
  induction ids generalizing u with
  | nil => exact .refl u
  | cons id rest ih =>
    refine ((changes_applyHooks ofKind u id).mono fun j same => ?_).trans
      ((ih _).mono fun j member => List.mem_cons_of_mem _ member)
    exact same ▸ List.mem_cons_self

/-- Where each node comes after those that its hook looks at, a pass solves the equations of the
attribute: each node has the value that the hook has on the final tree, or the value from before if
the hook has none. -/
theorem attr?_pass (only : ReadsOnly hook t reads) (defines : Defines hooks kind a rules hook)
    (ofKind : ∀ entry ∈ hooks, entry.1.kind = kind) {ids : List NodeId} (distinct : ids.Nodup)
    (reached : ∀ i ∈ ids, i ∈ t.preOrder) (order : ids.Pairwise fun i j => ¬ reads i j kind)
    (apart : ∀ i ∈ ids, ¬ reads i i kind) (same : t.SameShape u) {n : Node}
    (member : id ∈ ids) (found : u.node? id = some n) (applies : rules.contains n.name = true) :
    (ids.foldl (applyHooks hooks) u).attr? id kind a =
      (hook (ids.foldl (applyHooks hooks) u) id).or (u.attr? id kind a) := by
  induction ids generalizing u with
  | nil => cases member
  | cons i rest ih =>
    obtain ⟨absent, distinctRest⟩ := List.nodup_cons.1 distinct
    obtain ⟨later, orderRest⟩ := List.pairwise_cons.1 order
    have step := changes_applyHooks ofKind u i
    rw [List.foldl_cons]
    by_cases here : id = i
    · subst here
      have set := attr?_applyHooks only same (reached id List.mem_cons_self)
        (apart id List.mem_cons_self) found applies ofKind defines.same
      rw [if_pos defines.listed] at set
      have stays : (rest.foldl (applyHooks hooks) (applyHooks hooks u id)).attr? id kind a =
          (applyHooks hooks u id).attr? id kind a := by
        rw [ParseTree.attr?, node?_pass _ absent, ParseTree.attr?]
      have unchanged : hook (rest.foldl (applyHooks hooks) (applyHooks hooks u id)) id =
          hook u id := by
        refine only.unchanged same (changes_pass ofKind (id :: rest) u)
          (reached id List.mem_cons_self) fun j looked listed => ?_
        rcases List.mem_cons.1 listed with rfl | listed
        · exact apart j List.mem_cons_self looked
        · exact later j listed looked
      rw [stays, set, unchanged]
    · have untouched := step.node id here
      rw [ih distinctRest (fun j listed => reached j (List.mem_cons_of_mem _ listed)) orderRest
        (fun j listed => apart j (List.mem_cons_of_mem _ listed)) (same.trans step.shape)
        (List.mem_of_ne_of_mem here member) (untouched.trans found)]
      rw [ParseTree.attr?, ParseTree.attr?, untouched]

/-- No hook among some is declared for an attribute of a node. -/
def Away (hooks : List (AttrDecl × NodeHook)) (t : ParseTree) (id : NodeId) (kind : AttrKind)
    (a : Attr) : Prop :=
  ∀ entry ∈ hooks, entry.1.kind = kind → entry.1.attr = a →
    ∀ n, t.node? id = some n → entry.1.appliesTo.contains n.name = false

theorem attr?_applyHook_of_away (away : Away hooks t id kind a) (same : t.SameShape u) (i : NodeId)
    {entry : AttrDecl × NodeHook} (listed : entry ∈ hooks) :
    (applyHook u i entry).attr? id kind a = u.attr? id kind a := by
  by_cases declared : entry.1.kind = kind ∧ entry.1.attr = a
  · by_cases here : id = i
    · subst here
      rw [applyHook]
      rcases same.cases id with ⟨_, there⟩ | ⟨n, attrs, before, there⟩
      · rw [there]
      · rw [there]
        dsimp only
        rw [away entry listed declared.1 declared.2 n before]
        rfl
    · rw [ParseTree.attr?, ParseTree.attr?, node?_applyHook u here]
  · rcases applyHook_cases u i entry with same | ⟨v, set⟩
    · rw [same]
    · rw [set, ParseTree.attr?_setAttr_other _ _ _ _
        fun both => declared ⟨both.1.symm, both.2.symm⟩]

theorem attr?_applyHooks_of_away (away : Away hooks t id kind a) (same : t.SameShape u)
    (i : NodeId) : (applyHooks hooks u i).attr? id kind a = u.attr? id kind a := by
  rw [applyHooks_eq]
  induction hooks generalizing u with
  | nil => rfl
  | cons entry rest ih =>
    have later := ih (fun e member => away e (List.mem_cons_of_mem _ member))
      (same.trans (sameShape_applyHook u i entry))
    exact later.trans (attr?_applyHook_of_away away same i List.mem_cons_self)

/-- What no hook is declared for stays as it is. -/
theorem attr?_pass_of_away (away : Away hooks t id kind a) (same : t.SameShape u)
    (ids : List NodeId) : (ids.foldl (applyHooks hooks) u).attr? id kind a = u.attr? id kind a := by
  induction ids generalizing u with
  | nil => rfl
  | cons i rest ih =>
    have later := ih (same.trans (sameShape_applyHooks hooks u i))
    exact later.trans (attr?_applyHooks_of_away away same i)

/-- The nodes that synthesized values are found for, in the order in which they are. -/
def inner (t : ParseTree) : List NodeId := t.postOrder.filter fun id => !t.isLeaf id

theorem isLeaf_of_mem_inner {t : ParseTree} {id : NodeId} (listed : id ∈ inner t) :
    t.isLeaf id = false := by
  simpa using (List.mem_filter.1 listed).2

/-- A tree after the first pass, which finds inherited values. -/
def inherit (g : Attribution) (t : ParseTree) : ParseTree :=
  t.preOrder.foldl (applyHooks (g.hooked .inherited)) t

theorem sameShape_inherit (g : Attribution) (t : ParseTree) : t.SameShape (g.inherit t) :=
  sameShape_pass _ t

theorem evaluate_eq (g : Attribution) (t : ParseTree) :
    g.evaluate t = (inner t).foldl (applyHooks (g.hooked .synthesized)) (g.inherit t) := by
  rw [evaluate, inner, ← inherit, (g.sameShape_inherit t).postOrder,
    funext (g.sameShape_inherit t).isLeaf]

/-- Evaluation changes attributes only. -/
theorem sameShape_evaluate (g : Attribution) (t : ParseTree) : t.SameShape (g.evaluate t) := by
  rw [evaluate_eq]
  exact (g.sameShape_inherit t).trans (sameShape_pass _ _)

theorem hooked_kind (g : Attribution) (kind : AttrKind) :
    ∀ entry ∈ g.hooked kind, entry.1 ∈ g.decls ∧ entry.1.kind = kind ∧
      entry.1.nodeHook = some entry.2 := by
  intro entry member
  obtain ⟨decl, listed, made⟩ := List.mem_filterMap.1 member
  obtain ⟨hook, runs, rfl⟩ := Option.map_eq_some_iff.1 made
  obtain ⟨declared, ofKind⟩ := List.mem_filter.1 listed
  exact ⟨declared, eq_of_beq ofKind, runs⟩

theorem mem_hooked {g : Attribution} {kind : AttrKind} {decl : AttrDecl} {hook : NodeHook}
    (declared : decl ∈ g.decls) (ofKind : decl.kind = kind) (runs : decl.nodeHook = some hook) :
    (decl, hook) ∈ g.hooked kind := by
  refine List.mem_filterMap.2 ⟨decl, List.mem_filter.2 ⟨declared, ?_⟩, ?_⟩
  · rw [ofKind]
    exact beq_self_eq_true _
  · rw [runs]
    rfl

theorem changes_inherit (g : Attribution) (t : ParseTree) :
    Changes .inherited (· ∈ t.preOrder) t (g.inherit t) :=
  changes_pass (fun entry member => (g.hooked_kind .inherited entry member).2.1) _ t

theorem changes_synthesize (g : Attribution) (t : ParseTree) :
    Changes .synthesized (· ∈ inner t) (g.inherit t) (g.evaluate t) := by
  rw [evaluate_eq]
  exact changes_pass (fun entry member => (g.hooked_kind .synthesized entry member).2.1) _ _

/-- The inherited values of a final tree are those that the first pass found. -/
theorem attr?_evaluate_inherited (g : Attribution) (t : ParseTree) (j : NodeId) (a : Attr) :
    (g.evaluate t).attr? j .inherited a = (g.inherit t).attr? j .inherited a :=
  (g.changes_synthesize t).attr j .inherited a (by decide)

/-- The synthesized values of nodes that the second pass leaves out are those from before. -/
theorem attr?_evaluate_of_notMem (g : Attribution) {t : ParseTree} {j : NodeId}
    (outside : j ∉ inner t) (a : Attr) :
    (g.evaluate t).attr? j .synthesized a = t.attr? j .synthesized a := by
  rw [← (g.changes_inherit t).attr j .synthesized a (by decide), ParseTree.attr?,
    (g.changes_synthesize t).node j outside, ParseTree.attr?]

/-- The synthesized values of leaves are those of their tokens. -/
theorem attr?_evaluate_leaf (g : Attribution) {t : ParseTree} {j : NodeId}
    (leaf : t.isLeaf j = true) (a : Attr) :
    (g.evaluate t).attr? j .synthesized a = t.attr? j .synthesized a := by
  refine g.attr?_evaluate_of_notMem (fun listed => ?_) a
  cases leaf.symm.trans (isLeaf_of_mem_inner listed)

end Attribution

end AttrGrammar
