import AttrGrammar.Proofs.Procedure.Simplified
import AttrGrammar.Proofs.Procedure.Standard
import AttrGrammar.Proofs.Tree.Ancestry

/-!
Abstract syntax, as it stands in the array of a simplified tree.

An object stands over its members and a member over two parts, its key or form and its value, which
is a leaf or an object again. The main statement says that simplifying makes such a tree out of
every parse tree, with the tokens that are no punctuation as its leaves.
-/

namespace AttrGrammar.Procedure

open Construct Forest

variable {t : ParseTree} {parent : Option NodeId} {level : Nat}

/-- A leaf for a construct. -/
def IsLeaf (t : ParseTree) (c : Construct) (id : NodeId) : Prop :=
  ∃ token, token.name = c.name ∧ t.label? id = some (.ofToken token (leafKind c.name)) ∧
    t.children id = []

/-- A node for a construct that stands over others. -/
def IsNode (t : ParseTree) (c : Construct) (id : NodeId) (children : List NodeId) : Prop :=
  t.label? id = some (.inner c.name .attrProduction) ∧ t.children id = children

/-- What a kind of member can have as its first part: keys, or its form. -/
def pairHeads : Construct → List Construct
  | .bind => [.string, .emptyString]
  | .letMember => [.letForm]
  | .refMember => [.refForm]
  | .docMember => [.docForm]
  | _ => []

/-- What a kind of member can have as its value, apart from objects with members. -/
def pairValues : Construct → List Construct
  | .bind => [.string, .emptyString, .number, .boolean, .null, .array, .emptyArray, .emptyObject]
  | .letMember => [.array, .emptyArray]
  | .refMember => [.string]
  | .docMember => [.string]
  | _ => []

mutual

/-- A program or an object with members. -/
inductive IsBody (t : ParseTree) : Construct → NodeId → Prop
  | mk {c : Construct} {id : NodeId} {members : List NodeId} (node : IsNode t c id members)
      (nonempty : members ≠ []) (each : ∀ m ∈ members, IsMember t m) : IsBody t c id

/-- A member with its two parts. -/
inductive IsMember (t : ParseTree) : NodeId → Prop
  | plain {pair head value : Construct} {id first second : NodeId}
      (node : IsNode t pair id [first, second]) (heads : head ∈ pairHeads pair)
      (front : IsLeaf t head first) (values : value ∈ pairValues pair)
      (back : IsLeaf t value second) : IsMember t id
  | nested {key : Construct} {id first second : NodeId} (node : IsNode t .bind id [first, second])
      (heads : key ∈ pairHeads .bind) (front : IsLeaf t key first)
      (back : IsBody t .object second) : IsMember t id

end

/-- The nodes that abstract syntax has, apart from the one for the program. -/
def IsPart (t : ParseTree) (id : NodeId) : Prop :=
  (∃ c, IsLeaf t c id) ∨ IsMember t id ∨ IsBody t .object id

theorem isLeaf_of_holds {k : NodeId} {token : Token} {rest : Planted}
    (held : t.Holds parent level (.node (k, .ofToken token (leafKind token.name)) .nil rest))
    {c : Construct} (named : token.name = c.name) : IsLeaf t c k := by
  refine ⟨token, named, ?_, held.children_eq⟩
  rw [ParseTree.Holds.label? held List.mem_cons_self, named]

theorem isNode_of_holds {k : NodeId} {c : Construct} {children rest : Planted}
    (held : t.Holds parent level (.node (k, .inner c.name .attrProduction) children rest)) :
    IsNode t c k children.tops :=
  ⟨ParseTree.Holds.label? held List.mem_cons_self, held.children_eq⟩

theorem exists_of_isKey {name : String} (key : isKey name = true) :
    ∃ c ∈ pairHeads .bind, name = c.name := by
  rcases isKey_iff.1 key with rfl | rfl
  · exact ⟨.string, by decide, rfl⟩
  · exact ⟨.emptyString, by decide, rfl⟩

theorem exists_of_isArray {name : String} (list : isArray name = true) :
    ∃ c ∈ pairValues .letMember, name = c.name := by
  rcases isArray_iff.1 list with rfl | rfl
  · exact ⟨.array, by decide, rfl⟩
  · exact ⟨.emptyArray, by decide, rfl⟩

/-- The tokens that are paired are those that the kind of member can have. -/
theorem parts_of_pairOf? {head value : String} {pair : Construct}
    (paired : pairOf? head value = some pair) :
    (∃ c ∈ pairHeads pair, head = c.name) ∧ ∃ c ∈ pairValues pair, value = c.name := by
  rcases pairOf?_cases paired with ⟨rfl, key, fits⟩ | ⟨rfl, rfl, list⟩ | ⟨rfl, rfl, rfl⟩ |
    ⟨rfl, rfl, rfl⟩
  · refine ⟨exists_of_isKey key, ?_⟩
    rcases fits with literal | container
    · rcases isLiteral_iff.1 literal with rfl | rfl | rfl | rfl | rfl
      · exact ⟨.string, by decide, rfl⟩
      · exact ⟨.emptyString, by decide, rfl⟩
      · exact ⟨.number, by decide, rfl⟩
      · exact ⟨.boolean, by decide, rfl⟩
      · exact ⟨.null, by decide, rfl⟩
    · rcases isContainer_iff.1 container with rfl | rfl | rfl
      · exact ⟨.array, by decide, rfl⟩
      · exact ⟨.emptyArray, by decide, rfl⟩
      · exact ⟨.emptyObject, by decide, rfl⟩
  · exact ⟨⟨.letForm, by decide, rfl⟩, exists_of_isArray list⟩
  · exact ⟨⟨.refForm, by decide, rfl⟩, .string, by decide, rfl⟩
  · exact ⟨⟨.docForm, by decide, rfl⟩, .string, by decide, rfl⟩

/-- A member in a forest: its node stands over the leaf of its first token and one more tree. -/
theorem pair_of_map {f : Planted} {name : String} {head : Token} {value : Forest Label}
    (same : f.map Prod.snd = tree (.inner name .attrProduction) (leaf head ++ value)) :
    ∃ i j rest, rest.map Prod.snd = value ∧
      f = tree (i, .inner name .attrProduction)
        (.node (j, .ofToken head (leafKind head.name)) .nil rest) := by
  obtain ⟨⟨i, _⟩, children, rfl, rfl, inside⟩ := tree_of_map same
  obtain ⟨⟨j, _⟩, below, rest, rfl, rfl, bare, after⟩ := node_of_map inside
  exact ⟨i, j, rest, after, by rw [nil_of_map bare]⟩

theorem leaf_of_map {f : Planted} {token : Token} (same : f.map Prod.snd = leaf token) :
    ∃ i, f = tree (i, .ofToken token (leafKind token.name)) .nil := by
  obtain ⟨⟨i, _⟩, children, rfl, rfl, inside⟩ := tree_of_map same
  exact ⟨i, by rw [nil_of_map inside]⟩

/-- A node over a first member and others. -/
theorem isBody_of_holds {k : NodeId} {c : Construct} {first others rest : Planted}
    (held : t.Holds parent level (.node (k, .inner c.name .attrProduction) (first ++ others) rest))
    (one : ∃ id, first.tops = [id] ∧ IsMember t id) (more : ∀ id ∈ others.tops, IsMember t id) :
    IsBody t c k := by
  obtain ⟨id, alone, member⟩ := one
  have node := isNode_of_holds held
  rw [tops_append, alone, List.singleton_append] at node
  exact .mk node (List.cons_ne_nil _ _) (List.forall_mem_cons.2 ⟨member, more⟩)

mutual

/-- A member of a program stands as one in the array, with its parts below it. -/
theorem Member.isMember : ∀ {m : Member} {f : Planted} {parent : Option NodeId} {level : Nat},
    m.WellFormed → t.Holds parent level f → f.map Prod.snd = m.abstract →
    (∃ id, f.tops = [id] ∧ IsMember t id) ∧ ∀ id ∈ f.places, IsPart t id
  | .plain head _ value, f, parent, level, wellFormed, held, same => by
    rw [Member.abstract] at same
    obtain ⟨i, j, rest, after, rfl⟩ := pair_of_map same
    obtain ⟨k, rfl⟩ := leaf_of_map after
    obtain ⟨pair, paired⟩ := Option.isSome_iff_exists.1 wellFormed.2
    rw [paired] at held
    obtain ⟨⟨first, heads, namedHead⟩, second, values, namedValue⟩ := parts_of_pairOf? paired
    have front := isLeaf_of_holds held.2.1 namedHead
    have back := isLeaf_of_holds held.2.1.2.2 namedValue
    have member := IsMember.plain (isNode_of_holds held) heads front values back
    refine ⟨⟨i, rfl, member⟩, fun id listed => ?_⟩
    simp only [tree, places_node, places_nil, List.append_nil, List.nil_append, List.mem_cons,
      List.not_mem_nil, or_false] at listed
    rcases listed with rfl | rfl | rfl
    · exact Or.inr (Or.inl member)
    · exact Or.inl ⟨first, front⟩
    · exact Or.inl ⟨second, back⟩
  | .nested head _ _ first others _, f, parent, level, wellFormed, held, same => by
    obtain ⟨key, _, _, wellFirst, wellOthers, _⟩ := wellFormed
    rw [Member.abstract] at same
    obtain ⟨i, j, rest, after, rfl⟩ := pair_of_map same
    obtain ⟨⟨k, _⟩, body, rfl, rfl, inside⟩ := tree_of_map after
    obtain ⟨g, h, rfl, sameFirst, sameOthers⟩ := append_of_map inside
    obtain ⟨c, heads, namedHead⟩ := exists_of_isKey key
    have below := (ParseTree.holds_append g h).1 held.2.1.2.2.2.1
    obtain ⟨one, partsFirst⟩ := Member.isMember wellFirst below.1 sameFirst
    obtain ⟨more, partsOthers⟩ := MemberTail.areMembers wellOthers below.2 sameOthers
    have front := isLeaf_of_holds held.2.1 namedHead
    have object := isBody_of_holds (c := .object) held.2.1.2.2 one more
    have member := IsMember.nested (isNode_of_holds (c := .bind) held) heads front object
    refine ⟨⟨i, rfl, member⟩, fun id listed => ?_⟩
    simp only [tree, places_node, places_nil, places_append, List.append_nil, List.nil_append,
      List.mem_cons, List.mem_append] at listed
    rcases listed with rfl | rfl | rfl | listed | listed
    · exact Or.inr (Or.inl member)
    · exact Or.inl ⟨c, front⟩
    · exact Or.inr (Or.inr object)
    · exact partsFirst id listed
    · exact partsOthers id listed

theorem MemberTail.areMembers : ∀ {o : MemberTail} {f : Planted} {parent : Option NodeId}
    {level : Nat}, o.WellFormed → t.Holds parent level f → f.map Prod.snd = o.abstract →
    (∀ id ∈ f.tops, IsMember t id) ∧ ∀ id ∈ f.places, IsPart t id
  | .nil, f, _, _, _, _, same => by
    rw [nil_of_map same]
    exact ⟨nofun, nofun⟩
  | .cons _ m others, f, parent, level, wellFormed, held, same => by
    obtain ⟨_, wellMember, wellOthers⟩ := wellFormed
    obtain ⟨g, h, rfl, sameMember, sameOthers⟩ := append_of_map same
    rw [ParseTree.holds_append] at held
    obtain ⟨⟨id, alone, member⟩, parts⟩ := Member.isMember wellMember held.1 sameMember
    obtain ⟨more, partsOthers⟩ := MemberTail.areMembers wellOthers held.2 sameOthers
    rw [tops_append, alone, List.singleton_append, places_append]
    exact ⟨List.forall_mem_cons.2 ⟨member, more⟩, List.forall_mem_append.2 ⟨parts, partsOthers⟩⟩

end

/-- The leaves at the places of a forest hold what it has there. -/
theorem labels_of_holds {f : Planted} (held : t.Holds parent level f) :
    (f.places.filter t.isLeaf).map t.label? =
      ((f.map Prod.snd).preorder.filter Label.isLeaf).map some := by
  have known : ∀ entry ∈ f.preorder, t.label? entry.1 = some entry.2 :=
    fun _ listed => ParseTree.Holds.label? held listed
  have leaves : ∀ entry ∈ f.preorder, t.isLeaf entry.1 = entry.2.isLeaf := by
    intro entry listed
    obtain ⟨children, above, depth, found⟩ := held.node? listed
    rw [ParseTree.isLeaf, found]
    rfl
  rw [preorder_map, places, List.filter_map, List.filter_map, List.map_map, List.map_map]
  have same : f.preorder.filter (t.isLeaf ∘ Prod.fst) =
      f.preorder.filter (Label.isLeaf ∘ Prod.snd) := List.filter_congr leaves
  rw [same]
  exact List.map_congr_left fun entry listed => known entry (List.mem_filter.1 listed).1

/-- The tokens that are no punctuation, as leaves. -/
def leavesOf (tokens : List Token) : List Label :=
  (tokens.filter fun token => !isPunctuation token.name).map fun token =>
    .ofToken token (leafKind token.name)

theorem leavesOf_append (xs ys : List Token) : leavesOf (xs ++ ys) = leavesOf xs ++ leavesOf ys := by
  rw [leavesOf, List.filter_append, List.map_append]
  rfl

theorem leavesOf_punctuation {token : Token} (framed : isPunctuation token.name = true)
    (rest : List Token) : leavesOf (token :: rest) = leavesOf rest := by
  rw [leavesOf, List.filter_cons_of_neg (by simp [framed])]
  rfl

theorem leavesOf_other {token : Token} (free : isPunctuation token.name = false)
    (rest : List Token) :
    leavesOf (token :: rest) = .ofToken token (leafKind token.name) :: leavesOf rest := by
  rw [leavesOf, List.filter_cons_of_pos (by simp [free])]
  rfl

theorem leaves_inner (name : String) (kind : RuleKind) (f : Forest Label) :
    (tree (.inner name kind) f).preorder.filter Label.isLeaf = f.preorder.filter Label.isLeaf := by
  rw [tree, preorder, preorder, List.append_nil]
  rfl

mutual

theorem Member.leaves_abstract : ∀ {m : Member}, m.Framed →
    m.abstract.preorder.filter Label.isLeaf = leavesOf m.tokens
  | .plain head middle value, ⟨front, named, back⟩ => by
    rw [Member.tokens, leavesOf_other front, leavesOf_punctuation (by rw [named]; decide),
      leavesOf_other back]
    rfl
  | .nested head middle opening first others closing,
      ⟨front, named, opens, framedFirst, framedOthers, closes⟩ => by
    rw [Member.tokens, leavesOf_other front, leavesOf_punctuation (by rw [named]; decide),
      leavesOf_punctuation (by rw [opens]; decide), leavesOf_append, leavesOf_append,
      leavesOf_punctuation (by rw [closes]; decide), ← first.leaves_abstract framedFirst,
      ← others.leaves_abstract framedOthers, Member.abstract, leaves_inner, preorder_append,
      List.filter_append, leaves_inner, preorder_append, List.filter_append]
    rw [leavesOf, List.filter_nil, List.map_nil, List.append_nil]
    rfl

theorem MemberTail.leaves_abstract : ∀ {o : MemberTail}, o.Framed →
    o.abstract.preorder.filter Label.isLeaf = leavesOf o.tokens
  | .nil, _ => rfl
  | .cons divider m others, ⟨named, framed, framedOthers⟩ => by
    rw [MemberTail.tokens, leavesOf_punctuation (by rw [named]; decide), leavesOf_append,
      ← m.leaves_abstract framed, ← others.leaves_abstract framedOthers, MemberTail.abstract,
      preorder_append, List.filter_append]

end

theorem Program.leaves_abstract {o : Program} (framed : o.Framed) :
    o.abstract.preorder.filter Label.isLeaf = leavesOf o.tokens := by
  cases o with
  | empty token =>
    rw [Program.tokens, leavesOf_other framed]
    rfl
  | members opening first others closing =>
    obtain ⟨opens, framedFirst, framedOthers, closes⟩ := framed
    rw [Program.tokens, leavesOf_punctuation (by rw [opens]; decide), leavesOf_append,
      leavesOf_append, leavesOf_punctuation (by rw [closes]; decide),
      ← first.leaves_abstract framedFirst, ← others.leaves_abstract framedOthers, Program.abstract,
      leaves_inner, preorder_append, List.filter_append]
    rw [leavesOf, List.filter_nil, List.map_nil, List.append_nil]

/-- The array that holds the abstract syntax of a program. -/
theorem Program.parts {o : Program} (wellFormed : o.WellFormed) {f : Planted} (rooted : t.Rooted f)
    (same : f.map Prod.snd = o.abstract) : ∃ root, t.root = some root ∧
      (t.preOrder = [root] ∧ IsLeaf t .emptyObject root ∨ IsBody t .program root) ∧
      ∀ id ∈ t.preOrder, id = root ∨ IsPart t id := by
  rw [rooted.preOrder_eq, rooted.root]
  cases o with
  | empty token =>
    obtain ⟨root, rfl⟩ := leaf_of_map same
    refine ⟨root, rfl, Or.inl ⟨rfl, isLeaf_of_holds rooted.held wellFormed⟩, fun id listed => ?_⟩
    exact Or.inl (List.mem_singleton.1 listed)
  | members opening first others closing =>
    obtain ⟨_, wellFirst, wellOthers, _⟩ := wellFormed
    obtain ⟨⟨root, _⟩, body, rfl, rfl, inside⟩ := tree_of_map same
    obtain ⟨g, h, rfl, sameFirst, sameOthers⟩ := append_of_map inside
    have below := (ParseTree.holds_append g h).1 rooted.held.2.1
    obtain ⟨one, partsFirst⟩ := Member.isMember wellFirst below.1 sameFirst
    obtain ⟨more, partsOthers⟩ := MemberTail.areMembers wellOthers below.2 sameOthers
    refine ⟨root, rfl, Or.inr (isBody_of_holds (c := .program) rooted.held one more), ?_⟩
    intro id listed
    simp only [Forest.tree, places_node, places_nil, places_append, List.append_nil, List.mem_cons,
      List.mem_append] at listed
    rcases listed with rfl | listed | listed
    · exact Or.inl rfl
    · exact Or.inr (partsFirst id listed)
    · exact Or.inr (partsOthers id listed)

/-- Every parse tree simplifies to abstract syntax: one leaf for a program without members, and else
a program over members, with nothing but members, objects and leaves below. The leaves are the
tokens that are no punctuation. -/
theorem simplified_abstract {l : Language} (spelled : language = .ok l) {tokens : List Token}
    {tree : ParseTree} (built : l.program.buildTree tokens = .ok tree) :
    ∃ t root, simplified tree = .ok t ∧ t.root = some root ∧
      (∃ n, t.node? root = some n ∧ n.parent = none ∧ n.level = 0) ∧
      (t.preOrder = [root] ∧ IsLeaf t .emptyObject root ∨ IsBody t .program root) ∧
      (∀ id ∈ t.preOrder, id = root ∨ IsPart t id) ∧
      (t.leaves root).map t.label? = (leavesOf tokens).map some := by
  obtain ⟨o, wellFormed, rfl, rfl⟩ :=
    program_of_buildTree (isStandard_of_language spelled).program built
  obtain ⟨t, f, done, rooted, labels⟩ := simplified_tree wellFormed
  obtain ⟨root, top, shape, parts⟩ := o.parts wellFormed rooted labels
  have listed : root ∈ f.tops := by rw [← rooted.tops_eq, top]; exact List.mem_singleton_self root
  have walk : t.leaves root = f.places.filter t.isLeaf := by
    rw [← rooted.preOrder_eq, ParseTree.preOrder, top]
    rfl
  refine ⟨t, root, done, top, rooted.held.found_tops root listed, shape, parts, ?_⟩
  rw [walk, labels_of_holds rooted.held, labels, o.leaves_abstract wellFormed.framed]

/-- The tokens of `{"a": {"b": 1}}`. -/
theorem simplified_abstract_nested : ∃ l tree t root, language = .ok l ∧
    simplified tree = .ok t ∧ t.outline = "(program (bind string (object (bind string number))))" ∧
    IsBody t .program root ∧ (t.leaves root).map t.lexemeOf = ["\"a\"", "\"b\"", "1"] := by
  obtain ⟨l, spelled⟩ := exists_language
  let token (c : Construct) (lexeme : String) : Token := { name := c.name, lexeme, attrs := {} }
  let inner : Member := .plain (token .string "\"b\"") (token .colon ":") (token .number "1")
  let o : Program := .members (token .lbrace "\x7b")
    (.nested (token .string "\"a\"") (token .colon ":") (token .lbrace "\x7b") inner .nil
      (token .rbrace "\x7d")) .nil (token .rbrace "\x7d")
  have wellFormed : o.WellFormed :=
    ⟨rfl, ⟨by decide, rfl, rfl, ⟨rfl, by decide⟩, trivial, rfl⟩, trivial, rfl⟩
  have built := (buildTree_eq_ok_iff (isStandard_of_language spelled).program wellFormed.framed
    o.tree).2 ⟨wellFormed, rfl⟩
  obtain ⟨t, root, done, top, _, shape, -, -⟩ := simplified_abstract spelled built
  have result : (simplified o.tree).map
      (fun t => (t.size, t.outline, t.root.map fun root => (t.leaves root).map t.lexemeOf)) =
      .ok (7, "(program (bind string (object (bind string number))))",
        some ["\"a\"", "\"b\"", "1"]) := by decide +kernel
  rw [done] at result
  obtain ⟨size, rest⟩ := Prod.mk.inj (Except.ok.inj result)
  obtain ⟨outline, leaves⟩ := Prod.mk.inj rest
  rw [top] at leaves
  refine ⟨l, o.tree, t, root, spelled, done, outline, shape.resolve_left fun alone => ?_,
    Option.some.inj leaves⟩
  rw [ParseTree.size, alone.1] at size
  cases size

end AttrGrammar.Procedure
