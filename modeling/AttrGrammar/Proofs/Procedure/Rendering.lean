import AttrGrammar.Proofs.Procedure.Symbols

/-!
What evaluated trees render as.

If rendering is declared as `printer` declares it, every inner node of an evaluated tree renders as
its hook says on that tree itself, and every leaf as its token. So the text of a tree can be read off
its labels, one node after the other.
-/

namespace AttrGrammar

open Forest

/-- What a token renders as when it is a leaf. -/
def Token.shown (t : Token) : String := t.attrs.render?.getD t.lexeme

/-- The depth that a token brings along. -/
def Token.depth (t : Token) : Nat := t.attrs.indent?.getD 0

namespace Procedure

variable {l : Layout} {t u u' : ParseTree} {id : NodeId}

/-- The depth that the first token of a node brings along. -/
def indentOf (t : ParseTree) (id : NodeId) : Option Nat :=
  (t.firstLeaf? id).bind fun leaf => (t.node? leaf).bind (·.attrs.indent?)

/-- The depth of the first token of a node. -/
def depthOf (t : ParseTree) (id : NodeId) : Nat :=
  ((t.firstLeaf? id).bind fun leaf => (t.node? leaf).bind (·.attrs.indent?)).getD 0

/-- What a node with a name renders as, from what its children render as and its depth. -/
def shownNode (l : Layout) (name : String) (texts : List String) (depth : Nat) : String :=
  match Construct.ofName? name with
  | some .document => texts[0]?.getD "" ++ (if l.trailingNewline then "\n" else "")
  | some .program | some .object =>
    "\x7b\n" ++ texts[1]?.getD "" ++ "\n" ++ l.indent depth ++ "\x7d"
  | some .bind | some .letMember | some .refMember | some .docMember =>
    l.indent depth ++ texts[0]?.getD "" ++ ": " ++ texts[2]?.getD ""
  | some .nextMember => ",\n" ++ texts[1]?.getD ""
  | _ => String.join texts

theorem renderedChild_eq (u : ParseTree) (id : NodeId) (index : Nat) :
    renderedChild u id index = (((u.children id).map (rendered u))[index]?).getD "" := by
  rw [renderedChild, List.getElem?_map]
  cases (u.children id)[index]? <;> rfl

theorem renderNode_eq {n : Node} (found : u.node? id = some n) :
    renderNode l u id = shownNode l n.name ((u.children id).map (rendered u)) (depthOf u id) := by
  rw [renderNode, found, Option.bind_some]
  simp only [renderedChild_eq]
  rfl

/-- The nodes whose attributes rendering a node looks at. -/
def looked (t : ParseTree) (id : NodeId) : List NodeId :=
  t.children id ++ (t.firstLeaf? id).toList

theorem rendered_congr (same : u'.node? id = u.node? id) : rendered u' id = rendered u id := by
  rw [rendered, rendered, ParseTree.lexemeOf, ParseTree.lexemeOf, same]

theorem renderNode_congr (same : u.SameShape u') (agree : ∀ j ∈ looked u id, u'.node? j = u.node? j) :
    renderNode l u' id = renderNode l u id := by
  have inside : (u'.children id).map (rendered u') = (u.children id).map (rendered u) := by
    rw [same.children]
    exact List.map_congr_left fun j member => rendered_congr (agree j (List.mem_append_left _ member))
  have depth : depthOf u' id = depthOf u id := by
    rw [depthOf, depthOf, same.firstLeaf?]
    cases first : u.firstLeaf? id with
    | none => rfl
    | some leaf =>
      have here := agree leaf (List.mem_append_right _ (by rw [first]; exact List.mem_cons_self))
      rw [Option.bind_some, Option.bind_some, here]
  rcases same.cases id with ⟨here, there⟩ | ⟨n, attrs, here, there⟩
  · have nothing : ∀ {v : ParseTree}, v.node? id = none → renderNode l v id =
        String.join ((v.children id).map (rendered v)) := fun absent => by rw [renderNode, absent]; rfl
    rw [nothing here, nothing there, inside]
  · rw [renderNode_eq here, renderNode_eq there, inside, depth]

theorem isLeaf_of_firstLeafFrom : ∀ {fuel : Nat} {id leaf : NodeId},
    t.firstLeafFrom fuel id = some leaf → t.isLeaf leaf = true
  | 0, _, _, found => by cases found
  | fuel + 1, id, leaf, found => by
    rw [ParseTree.firstLeafFrom] at found
    split at found
    · next isLeaf =>
      cases found
      exact isLeaf
    · obtain ⟨child, _, found⟩ := Option.bind_eq_some_iff.1 found
      exact isLeaf_of_firstLeafFrom found

/-- The hook that `printer` declares. -/
def renderHook (l : Layout) : NodeHook := fun tree id => some (.text (renderNode l tree id))

/-- Rendering looks at the children and at the first leaf. -/
theorem readsOnly_render (l : Layout) {f : Planted} (rooted : t.Rooted f) :
    Attribution.ReadsOnly (renderHook l) t t.ReadsBelow := by
  intro u u' shape shape' id member agree
  have between := shape.symm.trans shape'
  refine congrArg (fun text => some (AttrValue.text text)) (renderNode_congr between fun j listed => ?_)
  have below : t.isLeaf j = true ∨ t.Above id j := by
    rw [looked, shape.children, shape.firstLeaf?] at listed
    rcases List.mem_append.1 listed with child | first
    · rw [rooted.preOrder_eq] at member
      exact Or.inr (.single (rooted.parent_of_child member child))
    · exact Or.inl (isLeaf_of_firstLeafFrom (Option.mem_toList.1 first))
  exact between.node?_eq fun kind a => agree j kind (Or.inr below) a

section

variable {g : Attribution} {f : Planted}

/-- An inner node has what it renders as for its value. -/
theorem render?_evaluate
    (declared : Attribution.Defines (g.hooked .synthesized) .synthesized .render .all (renderHook l))
    (rooted : t.Rooted f) (member : id ∈ f.places) (inner : t.isLeaf id = false) :
    ((g.evaluate t).node? id).bind (·.attrs.render?) =
      some (renderNode l (g.evaluate t) id) := by
  obtain ⟨n, found, _⟩ := rooted.held.found member
  have solved := Attribution.attr?_evaluate_below rooted declared (readsOnly_render l rooted)
    (by rw [rooted.preOrder_eq]; exact member) inner found rfl
  obtain ⟨n, found, value⟩ := Option.bind_eq_some_iff.1 solved
  rw [found]
  exact congrArg (·.bind AttrValue.text?) value

/-- A leaf keeps the attributes that its token brought along. -/
theorem attr?_evaluate_token (g : Attribution) (rooted : t.Rooted f)
    (faithful : Faithful (f.map Prod.snd)) {label : Label} (listed : (id, label) ∈ f.preorder)
    {token : Token} (isLeaf : label.token = some token) (a : Attr) :
    ∃ n, (g.evaluate t).node? id = some n ∧ n.token = some token ∧
      n.attrs.synthesized.get? a = token.attrs.synthesized.get? a := by
  obtain ⟨children, above, depth, here⟩ := rooted.held.node? listed
  have leaf : t.isLeaf id = true := by
    rw [ParseTree.isLeaf, here]
    change label.token.isSome = true
    rw [isLeaf]
    rfl
  have kept := Attribution.attr?_evaluate_leaf g leaf a
  have attrs := faithful label (by rw [preorder_map]; exact List.mem_map_of_mem listed) token isLeaf
  rcases (Attribution.sameShape_evaluate g t).cases id with ⟨absent, _⟩ | ⟨n, more, before, after⟩
  · rw [here] at absent
    cases absent
  · rw [here] at before
    cases before
    refine ⟨_, after, isLeaf, ?_⟩
    rw [ParseTree.attr?, ParseTree.attr?, after, here, Option.bind_some, Option.bind_some] at kept
    rw [← attrs]
    exact kept

end

/-- What the trees of a forest render as, each with the depth of its first token. -/
def shown (l : Layout) : Forest Label → List (String × Nat)
  | .nil => []
  | .node label children rest =>
    let inside := shown l children
    let depth := (inside.map Prod.snd).headD 0
    (match label.token with
      | some token => (token.shown, token.depth)
      | none => (shownNode l label.name (inside.map Prod.fst) depth, depth)) :: shown l rest

theorem shown_append (f g : Forest Label) : shown l (f ++ g) = shown l f ++ shown l g := by
  induction f with
  | nil => rfl
  | node label children rest _ ih => rw [node_append, shown, shown, ih, List.cons_append]

section

variable {g : Attribution} {f : Planted} {label : Label} {parent : Option NodeId} {level : Nat}

/-- The first token of a leaf is its own. -/
theorem indentOf_token (rooted : t.Rooted f) (faithful : Faithful (f.map Prod.snd))
    (listed : (id, label) ∈ f.preorder) {token : Token} (isLeaf : label.token = some token) :
    indentOf (g.evaluate t) id = token.attrs.indent? := by
  obtain ⟨n, found, leaf, indent⟩ := attr?_evaluate_token g rooted faithful listed isLeaf .indent
  have first : (g.evaluate t).firstLeaf? id = some id := by
    have inside := (Array.getElem?_eq_some_iff.1 found).1
    have here : (g.evaluate t).isLeaf id = true := by
      rw [ParseTree.isLeaf, found]
      exact congrArg Option.isSome leaf
    obtain ⟨size, same⟩ : ∃ n, (g.evaluate t).nodes.size = n + 1 :=
      Nat.exists_eq_succ_of_ne_zero (Nat.ne_of_gt (Nat.zero_lt_of_lt inside))
    rw [ParseTree.firstLeaf?, same, ParseTree.firstLeafFrom, here]
    rfl
  rw [indentOf, first, Option.bind_some, found, Option.bind_some]
  exact congrArg (·.bind AttrValue.int?) indent

/-- A leaf renders as its token, and has its depth. -/
theorem shown_token (rooted : t.Rooted f) (faithful : Faithful (f.map Prod.snd))
    (listed : (id, label) ∈ f.preorder) {token : Token} (isLeaf : label.token = some token) :
    rendered (g.evaluate t) id = token.shown ∧ depthOf (g.evaluate t) id = token.depth := by
  obtain ⟨n, found, leaf, render⟩ := attr?_evaluate_token g rooted faithful listed isLeaf .render
  have render? : n.attrs.render? = token.attrs.render? := congrArg (·.bind AttrValue.text?) render
  constructor
  · have lexeme : n.lexeme = token.lexeme := by
      unfold Node.lexeme
      rw [leaf]
    rw [rendered, ParseTree.lexemeOf, found, Option.bind_some, render?, Token.shown, ← lexeme]
    cases token.attrs.render? <;> rfl
  · exact congrArg (·.getD 0) (indentOf_token (g := g) rooted faithful listed isLeaf)

/-- The first token of an inner node is that of its first child. -/
theorem indentOf_inner (g : Attribution) {children rest : Planted}
    (held : t.Holds parent level (node (id, label) children rest))
    (fits : (node (id, label) children rest).size ≤ t.nodes.size) (inner : label.isLeaf = false) :
    indentOf (g.evaluate t) id = children.tops.head?.bind (indentOf (g.evaluate t)) := by
  have small : children.size ≤ t.nodes.size := by
    rw [Forest.size] at fits
    omega
  have whole : t.firstLeaf? id = ParseTree.firstLeafOf (node (id, label) children rest) :=
    ParseTree.firstLeafFrom_holds held fits
  have inside : children.tops.head?.bind t.firstLeaf? = ParseTree.firstLeafOf children :=
    ParseTree.firstLeafFrom_holds held.2.1 small
  rw [ParseTree.firstLeafOf, inner, if_neg Bool.false_ne_true, ← inside] at whole
  have shape := Attribution.sameShape_evaluate g t
  rw [indentOf, shape.firstLeaf?, whole]
  cases children.tops with
  | nil => rfl
  | cons child others =>
    rw [List.head?_cons, Option.bind_some, ← shape.firstLeaf?]
    rfl

/-- An inner node has the depth of its first child. -/
theorem depthOf_inner (g : Attribution) {children rest : Planted}
    (held : t.Holds parent level (node (id, label) children rest))
    (fits : (node (id, label) children rest).size ≤ t.nodes.size) (inner : label.isLeaf = false) :
    depthOf (g.evaluate t) id = (children.tops.map (depthOf (g.evaluate t))).headD 0 := by
  have first := congrArg (·.getD 0) (indentOf_inner g held fits inner)
  cases tops : children.tops <;> rw [tops] at first <;> exact first

/-- The evaluated tree renders as its labels say. -/
theorem shown_part
    (declared : Attribution.Defines (g.hooked .synthesized) .synthesized .render .all (renderHook l))
    (rooted : t.Rooted f) (faithful : Faithful (f.map Prod.snd)) :
    ∀ {part : Planted} {parent : Option NodeId} {level : Nat}, t.Holds parent level part →
      part.size ≤ t.nodes.size → (∀ entry ∈ part.preorder, entry ∈ f.preorder) →
        part.tops.map (fun id => (rendered (g.evaluate t) id, depthOf (g.evaluate t) id)) =
          shown l (part.map Prod.snd) := by
  intro part
  induction part with
  | nil => intros; rfl
  | node entry children rest ihChildren ihRest =>
    intro parent level held fits within
    obtain ⟨id, label⟩ := entry
    have sizes : children.size ≤ t.nodes.size ∧ rest.size ≤ t.nodes.size := by
      rw [Forest.size] at fits
      omega
    have here := within _ List.mem_cons_self
    have later := ihRest held.2.2 sizes.2 fun entry listed =>
      within entry (List.mem_cons_of_mem _ (List.mem_append_right _ listed))
    have below := ihChildren held.2.1 sizes.1 fun entry listed =>
      within entry (List.mem_cons_of_mem _ (List.mem_append_left _ listed))
    rw [tops_node, List.map_cons, later, Forest.map, shown]
    refine congrArg (· :: _) ?_
    dsimp only
    cases isLeaf : label.token with
    | some token =>
      obtain ⟨text, depth⟩ := shown_token (g := g) rooted faithful here isLeaf
      rw [text, depth]
    | none =>
      have inner : label.isLeaf = false := by rw [Label.isLeaf, isLeaf]; rfl
      have notLeaf : t.isLeaf id = false := by
        rw [ParseTree.isLeaf, held.1]
        exact inner
      have depths := depthOf_inner g held fits inner
      have texts := render?_evaluate declared rooted (List.mem_map_of_mem here) notLeaf
      rcases (Attribution.sameShape_evaluate g t).cases id with ⟨absent, _⟩ | ⟨n, attrs, before, after⟩
      · rw [held.1] at absent
        cases absent
      rw [held.1] at before
      cases before
      have tops := (Attribution.sameShape_evaluate g t).children id
      rw [held.children_eq] at tops
      rw [rendered, texts]
      dsimp only
      rw [renderNode_eq after, tops, depths, ← below, List.map_map, List.map_map]
      rfl

theorem shown_evaluate
    (declared : Attribution.Defines (g.hooked .synthesized) .synthesized .render .all (renderHook l))
    (rooted : t.Rooted f) (faithful : Faithful (f.map Prod.snd)) :
    f.tops.map (fun id => (rendered (g.evaluate t) id, depthOf (g.evaluate t) id)) =
      shown l (f.map Prod.snd) :=
  shown_part declared rooted faithful rooted.held (rooted.held.size_le rooted.distinct)
    fun _ listed => listed

end

end Procedure

end AttrGrammar
