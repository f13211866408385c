import AttrGrammar.Proofs.Procedure.Meaning
import AttrGrammar.Proofs.Procedure.Scoping
import AttrGrammar.Proofs.Procedure.Simplified
import AttrGrammar.Proofs.Tree.Bare

/-!
The symbol table of a program is its meaning.

The values that are found bottom-up solve one equation for each node. With the values and the
scopes of its nodes known, the walk from the top does at a member what processing the decoded member
does, and nothing at any other node.
-/

namespace AttrGrammar.Procedure

open Construct Forest

/-- What a token stands for. -/
def tokenValue? (name lexeme : String) : Option Value :=
  match ofName? name with
  | some .string | some .emptyString => (Json.decodeString? lexeme).map .string
  | some .number => (Decimal.read? lexeme).map .number
  | some .boolean => some (.boolean (lexeme == "true"))
  | some .null => some .unbound
  | some .array | some .emptyArray => arrayValue? lexeme
  | some .emptyObject => some .scope
  | _ => none

/-- A member with a value of one token, decoded. -/
def plainStatement? (head value : Token) : Option Statement :=
  match pairOf? head.name value.name, tokenValue? value.name value.lexeme with
  | some .bind, some v => (Json.decodeString? head.lexeme).map fun key => .bind key v
  | some .letMember, some (.list items) => some (.parameters head.line? items)
  | some .refMember, some (.string target) => some (.reference head.line? target)
  | some .docMember, some (.string text) => some (.documentation text)
  | _, _ => none

mutual

def Member.statement? : Member → Option Statement
  | .plain head _ value => plainStatement? head value
  | .nested head _ _ first others _ => do
    let key ← Json.decodeString? head.lexeme
    let statement ← first.statement?
    let rest ← others.statements?
    some (.within key (statement :: rest))

def MemberTail.statements? : MemberTail → Option (List Statement)
  | .nil => some []
  | .cons _ m others => do
    let statement ← m.statement?
    let rest ← others.statements?
    some (statement :: rest)

end

/-- The members of a program, decoded. -/
def Program.statements? : Program → Option (List Statement)
  | .empty _ => none
  | .members _ first others _ => do
    let statement ← first.statement?
    let rest ← others.statements?
    some (statement :: rest)

variable {u : ParseTree}

theorem memberValue?_mem {id child : NodeId} (second : memberValue? u id = some child) :
    child ∈ u.children id := List.mem_of_getElem? second

theorem argument?_congr {values values' : Values} {id : NodeId}
    (same : ∀ c ∈ u.children id, values.lookup c = values'.lookup c) :
    argument? u values id = argument? u values' id := by
  unfold argument?
  cases second : memberValue? u id with
  | none => rfl
  | some child => exact same child (memberValue?_mem second)

/-- The value of a node depends on the values of its children only. -/
theorem nodeValue?_congr {values values' : Values} {id : NodeId} (node : Node)
    (same : ∀ c ∈ u.children id, values.lookup c = values'.lookup c) :
    nodeValue? u values id node = nodeValue? u values' id node := by
  have targets : (u.children id).findSome? (fun c => (values.lookup c).bind refTarget?) =
      (u.children id).findSome? fun c => (values'.lookup c).bind refTarget? := by
    generalize u.children id = ids at same
    induction ids with
    | nil => rfl
    | cons c rest ih =>
      rw [List.findSome?_cons, List.findSome?_cons, same c List.mem_cons_self,
        ih fun c later => same c (List.mem_cons_of_mem _ later)]
  unfold nodeValue?
  rw [argument?_congr same, targets]

theorem lookup_addValue {values values' : Values} {id : NodeId} {node : Node} {v : Option Value}
    (found : u.node? id = some node) (value : nodeValue? u values id node = .ok v)
    (fresh : values.lookup id = none) (added : addValue u values id = .ok values') (j : NodeId) :
    values'.lookup j = if j = id then v else values.lookup j := by
  rw [addValue, found] at added
  dsimp only at added
  rw [value] at added
  cases v with
  | none =>
    cases added
    split
    · next same => rw [same, fresh]
    · rfl
  | some v =>
    cases added
    rw [List.lookup_cons]
    by_cases same : j = id
    · rw [if_pos same, same, beq_self_eq_true]
    · rw [if_neg same, beq_false_of_ne same]

theorem addValue_ok {values : Values} {id : NodeId} {node : Node} {v : Option Value}
    (found : u.node? id = some node) (value : nodeValue? u values id node = .ok v) :
    ∃ values', addValue u values id = .ok values' := by
  rw [addValue, found]
  dsimp only
  rw [value]
  cases v <;> exact ⟨_, rfl⟩

/-- A node for which a value is found, or none, whatever the values of other nodes are. -/
def Settled (u : ParseTree) (id : NodeId) : Prop :=
  ∃ node, u.node? id = some node ∧ ∀ values, ∃ v, nodeValue? u values id node = .ok v

/-- The values that hold for some nodes. -/
def Solves (u : ParseTree) (values : Values) (ids : List NodeId) : Prop :=
  ∀ id ∈ ids, ∀ node, u.node? id = some node →
    nodeValue? u values id node = .ok (values.lookup id)

/-- Going through nodes after their children finds values that hold for all of them. -/
theorem foldlM_addValue {ids : List NodeId} {start : Values}
    (fresh : ∀ id ∈ ids, start.lookup id = none) (distinct : ids.Nodup)
    (order : ids.Pairwise fun i j => j ∉ u.children i)
    (apart : ∀ id ∈ ids, id ∉ u.children id) (settled : ∀ id ∈ ids, Settled u id) :
    ∃ values, ids.foldlM (addValue u) start = .ok values ∧ Solves u values ids ∧
      ∀ j, j ∉ ids → values.lookup j = start.lookup j := by
  induction ids generalizing start with
  | nil => exact ⟨start, rfl, nofun, fun _ _ => rfl⟩
  | cons id rest ih =>
    obtain ⟨absent, distinctRest⟩ := List.nodup_cons.1 distinct
    obtain ⟨later, orderRest⟩ := List.pairwise_cons.1 order
    obtain ⟨node, found, total⟩ := settled id List.mem_cons_self
    obtain ⟨v, value⟩ := total start
    obtain ⟨next, added⟩ := addValue_ok found value
    have here := lookup_addValue found value (fresh id List.mem_cons_self) added
    obtain ⟨values, run, solves, kept⟩ := ih
      (fun j member => by
        have other : j ≠ id := fun same => absent (same ▸ member)
        rw [here, if_neg other, fresh j (List.mem_cons_of_mem _ member)])
      distinctRest orderRest (fun j member => apart j (List.mem_cons_of_mem _ member))
      fun j member => settled j (List.mem_cons_of_mem _ member)
    refine ⟨values, ?_, fun j member node' found' => ?_, fun j outside => ?_⟩
    · rw [List.foldlM_cons, added]
      exact run
    · rcases List.mem_cons.1 member with rfl | member
      · rw [found] at found'
        cases found'
        rw [kept j absent, here, if_pos rfl, ← value]
        refine nodeValue?_congr node fun c child => ?_
        have other : c ≠ j := fun same => apart j List.mem_cons_self (same ▸ child)
        rw [kept c fun listed => later c listed child, here, if_neg other]
      · exact solves j member node' found'
    · rw [List.mem_cons, not_or] at outside
      rw [kept j outside.2, here, if_neg outside.1]

/-- If every node of a tree settles, the values of all of them are found. -/
theorem valuesOf_ok {f : Planted} (rooted : u.Rooted f) (settled : ∀ id ∈ f.places, Settled u id) :
    ∃ values, valuesOf u = .ok values ∧ Solves u values f.places := by
  have fresh : ∀ id ∈ u.postOrder, ([] : Values).lookup id = none := fun _ _ => rfl
  obtain ⟨values, run, solves, _⟩ := foldlM_addValue fresh rooted.distinct_postOrder
    (by rw [rooted.postOrder_eq]; exact rooted.held.pairwise_children rooted.distinct)
    (fun id member => rooted.held.child_ne rooted.distinct (rooted.mem_postOrder.1 member))
    fun id member => settled id (rooted.mem_postOrder.1 member)
  exact ⟨values, run, fun id member => solves id (rooted.mem_postOrder.2 member)⟩

/-- A planted member: its node stands over the leaf of its first token and one more tree. -/
theorem pair_of_bare {f : Planted} {name : String} {head : Token} {value : Forest Label}
    (same : f.bare = (tree (.inner name .attrProduction) (leaf head ++ value)).map Label.bare) :
    ∃ i a j b rest, rest.bare = value.map Label.bare ∧
      f = tree (i, { Label.inner name .attrProduction with attrs := a })
        (.node (j, { Label.ofToken head (leafKind head.name) with attrs := b }) .nil rest) := by
  obtain ⟨i, a, children, rfl, inside⟩ := tree_of_bare same
  obtain ⟨j, b, below, rest, rfl, bare, after⟩ := node_of_bare inside
  exact ⟨i, a, j, b, rest, after, by rw [nil_of_bare bare]; rfl⟩

theorem leaf_of_bare {f : Planted} {token : Token}
    (same : f.bare = (leaf token).map Label.bare) :
    ∃ i a, f = tree (i, { Label.ofToken token (leafKind token.name) with attrs := a }) .nil := by
  obtain ⟨i, a, children, rfl, inside⟩ := tree_of_bare same
  exact ⟨i, a, by rw [nil_of_bare inside]; rfl⟩

/-- The value of a leaf is the one its token stands for. -/
theorem nodeValue?_literal {values : Values} {id : NodeId} {node : Node} {v : Value}
    (value : tokenValue? node.name node.lexeme = some v) :
    nodeValue? u values id node = .ok (some v) := by
  unfold tokenValue? at value
  unfold nodeValue?
  cases named : ofName? node.name with
  | none =>
    rw [named] at value
    cases value
  | some c =>
    rw [named] at value
    cases c <;> dsimp only at value ⊢ <;> first | rw [value] | cases value

/-- What is no literal has a value, or none, in any case. -/
theorem settled_of_name {id : NodeId} {node : Node} (found : u.node? id = some node)
    {c : Construct} (named : node.name = c.name)
    (other : c ∉ [.string, .emptyString, .number, .array, .emptyArray]) : Settled u id := by
  refine ⟨node, found, fun values => ?_⟩
  unfold nodeValue?
  rw [named, ofName?_name]
  cases c <;> first | exact ⟨_, rfl⟩ | exact absurd (by decide) other | skip
  dsimp only
  split <;> exact ⟨_, rfl⟩

theorem settled_literal {id : NodeId} {node : Node} (found : u.node? id = some node) {v : Value}
    (value : tokenValue? node.name node.lexeme = some v) : Settled u id :=
  ⟨node, found, fun _ => ⟨_, nodeValue?_literal value⟩⟩

/-- A plain member, decoded. -/
theorem plainStatement?_cases {head value : Token} {statement : Statement}
    (decoded : plainStatement? head value = some statement) :
    (∃ key v, pairOf? head.name value.name = some .bind ∧
        Json.decodeString? head.lexeme = some key ∧
        tokenValue? value.name value.lexeme = some v ∧ statement = .bind key v) ∨
      (∃ items, pairOf? head.name value.name = some .letMember ∧
        tokenValue? value.name value.lexeme = some (.list items) ∧
        statement = .parameters head.line? items) ∨
      (∃ target, pairOf? head.name value.name = some .refMember ∧
        tokenValue? value.name value.lexeme = some (.string target) ∧
        statement = .reference head.line? target) ∨
      ∃ text, pairOf? head.name value.name = some .docMember ∧
        tokenValue? value.name value.lexeme = some (.string text) ∧
        statement = .documentation text := by
  unfold plainStatement? at decoded
  split at decoded
  · next pair v paired known =>
    obtain ⟨key, spelled, rfl⟩ := Option.map_eq_some_iff.1 decoded
    exact Or.inl ⟨key, v, paired, spelled, known, rfl⟩
  · next items paired known =>
    cases decoded
    exact Or.inr (Or.inl ⟨items, paired, known, rfl⟩)
  · next target paired known =>
    cases decoded
    exact Or.inr (Or.inr (Or.inl ⟨target, paired, known, rfl⟩))
  · next text paired known =>
    cases decoded
    exact Or.inr (Or.inr (Or.inr ⟨text, paired, known, rfl⟩))
  · cases decoded

theorem plainStatement?_parts {head value : Token} {statement : Statement}
    (decoded : plainStatement? head value = some statement) :
    ∃ pair v, pairOf? head.name value.name = some pair ∧
      tokenValue? value.name value.lexeme = some v ∧
      (pair = .bind → (Json.decodeString? head.lexeme).isSome = true) := by
  rcases plainStatement?_cases decoded with ⟨key, v, paired, spelled, known, _⟩ |
    ⟨items, paired, known, _⟩ | ⟨target, paired, known, _⟩ | ⟨text, paired, known, _⟩
  · exact ⟨_, v, paired, known, fun _ => by rw [spelled]; rfl⟩
  · exact ⟨_, _, paired, known, nofun⟩
  · exact ⟨_, _, paired, known, nofun⟩
  · exact ⟨_, _, paired, known, nofun⟩

/-- The first token of a decoded member is a key that can be read, or a form. -/
theorem settled_key {id : NodeId} {node : Node} (found : u.node? id = some node)
    (isKey : isKey node.name = true) {key : String}
    (spelled : Json.decodeString? node.lexeme = some key) : Settled u id := by
  refine settled_literal (v := .string key) found ?_
  rw [tokenValue?]
  rcases isKey_iff.1 isKey with name | name <;>
    rw [name, ofName?_name] <;> dsimp only <;> rw [spelled] <;> rfl

theorem settled_head {id : NodeId} {node : Node} (found : u.node? id = some node)
    {value : String} {pair : Construct} (paired : pairOf? node.name value = some pair)
    (key : pair = .bind → (Json.decodeString? node.lexeme).isSome = true) : Settled u id := by
  rcases pairOf?_cases paired with ⟨rfl, isKey, _⟩ | ⟨_, form, _⟩ | ⟨_, form, _⟩ | ⟨_, form, _⟩
  · obtain ⟨text, spelled⟩ := Option.isSome_iff_exists.1 (key rfl)
    exact settled_key found isKey spelled
  · exact settled_of_name found form (by decide)
  · exact settled_of_name found form (by decide)
  · exact settled_of_name found form (by decide)

theorem settled_pair {id : NodeId} {node : Node} (found : u.node? id = some node)
    {head value : String} {pair : Construct} (paired : pairOf? head value = some pair)
    (named : node.name = pair.name) : Settled u id := by
  rcases pairOf?_cases paired with ⟨rfl, _⟩ | ⟨rfl, _⟩ | ⟨rfl, _⟩ | ⟨rfl, _⟩ <;>
    exact settled_of_name found named (by decide)

mutual

/-- Every node of a member that can be decoded settles. -/
theorem Member.settled : ∀ {m : Member} {statement : Statement} {f : Planted}
    {parent : Option NodeId} {level : Nat}, m.WellFormed → m.statement? = some statement →
    f.bare = m.abstract.map Label.bare → u.Holds parent level f → ∀ id ∈ f.places, Settled u id
  | .plain head _ value, statement, f, parent, level, _, decoded, same, held => by
    rw [Member.statement?] at decoded
    rw [Member.abstract] at same
    obtain ⟨i, a, j, b, rest, after, rfl⟩ := pair_of_bare same
    obtain ⟨k, c, rfl⟩ := leaf_of_bare after
    obtain ⟨atPair, ⟨atHead, _, atValue, _, _⟩, _⟩ := held
    obtain ⟨pair, v, paired, known, spelled⟩ := plainStatement?_parts decoded
    rw [paired] at atPair
    intro id member
    simp only [tree, places_node, places_nil, List.append_nil, List.nil_append, List.mem_cons,
      List.not_mem_nil, or_false] at member
    rcases member with rfl | rfl | rfl
    · exact settled_pair atPair paired rfl
    · exact settled_head atHead paired spelled
    · exact settled_literal atValue known
  | .nested head _ _ first others _, statement, f, parent, level, wellFormed, decoded, same,
      held => by
    obtain ⟨isKey, _, _, wellFirst, wellOthers, _⟩ := wellFormed
    rw [Member.statement?] at decoded
    obtain ⟨key, spelled, decoded⟩ := Option.bind_eq_some_iff.1 decoded
    obtain ⟨_, decodedFirst, decoded⟩ := Option.bind_eq_some_iff.1 decoded
    obtain ⟨_, decodedOthers, _⟩ := Option.bind_eq_some_iff.1 decoded
    rw [Member.abstract] at same
    obtain ⟨i, a, j, b, rest, after, rfl⟩ := pair_of_bare same
    obtain ⟨k, c, body, rfl, inside⟩ := tree_of_bare after
    rw [map_append] at inside
    obtain ⟨g, h, rfl, bareFirst, bareOthers⟩ := append_of_bare inside
    obtain ⟨atPair, ⟨atHead, _, atObject, below, _⟩, _⟩ := held
    rw [ParseTree.holds_append] at below
    intro id member
    simp only [tree, places_node, places_nil, places_append, List.append_nil, List.nil_append,
      List.mem_cons, List.mem_append] at member
    rcases member with rfl | rfl | rfl | member | member
    · exact settled_of_name atPair (c := .bind) rfl (by decide)
    · exact settled_key atHead isKey spelled
    · exact settled_of_name atObject (c := .object) rfl (by decide)
    · exact Member.settled wellFirst decodedFirst bareFirst below.1 id member
    · exact MemberTail.settled wellOthers decodedOthers bareOthers below.2 id member

theorem MemberTail.settled : ∀ {t : MemberTail} {statements : List Statement} {f : Planted}
    {parent : Option NodeId} {level : Nat}, t.WellFormed → t.statements? = some statements →
    f.bare = t.abstract.map Label.bare → u.Holds parent level f → ∀ id ∈ f.places, Settled u id
  | .nil, _, f, _, _, _, _, same, _ => by
    rw [nil_of_bare same]
    exact nofun
  | .cons _ m others, statements, f, parent, level, wellFormed, decoded, same, held => by
    obtain ⟨_, wellMember, wellOthers⟩ := wellFormed
    rw [MemberTail.statements?] at decoded
    obtain ⟨_, decodedMember, decoded⟩ := Option.bind_eq_some_iff.1 decoded
    obtain ⟨_, decodedOthers, _⟩ := Option.bind_eq_some_iff.1 decoded
    rw [MemberTail.abstract, map_append] at same
    obtain ⟨g, h, rfl, bareMember, bareOthers⟩ := append_of_bare same
    rw [ParseTree.holds_append] at held
    intro id member
    rw [places_append, List.mem_append] at member
    rcases member with member | member
    · exact Member.settled wellMember decodedMember bareMember held.1 id member
    · exact MemberTail.settled wellOthers decodedOthers bareOthers held.2 id member

end

/-- What the passes before have found out about some nodes. -/
structure Analyzed (u : ParseTree) (values : Values) (ids : List NodeId) : Prop where
  solves : Solves u values ids
  scopes : ∀ id ∈ ids, u.scope? id = some (scopeFor u id)
  lines : ∀ id ∈ ids, ∀ node token, u.node? id = some node → node.token = some token →
    node.attrs.line? = token.line?
  rootless : ∀ id node, u.root = some id → u.node? id = some node → node.parent = none

theorem rootless_of_rooted {f : Planted} (rooted : u.Rooted f) (id : NodeId) (node : Node)
    (top : u.root = some id) (found : u.node? id = some node) : node.parent = none := by
  have above := rooted.held.parent_tops id (List.mem_of_head? (rooted.root ▸ top))
  rwa [ParseTree.parent?, found] at above

theorem Analyzed.subset {values : Values} {ids few : List NodeId}
    (analyzed : Analyzed u values ids) (inside : ∀ id ∈ few, id ∈ ids) : Analyzed u values few :=
  ⟨fun id member => analyzed.solves id (inside id member),
    fun id member => analyzed.scopes id (inside id member),
    fun id member => analyzed.lines id (inside id member), analyzed.rootless⟩

/-- Nodes that bring in no names. -/
theorem bindNode_skip {values : Values} (table : SymbolTable) {id : NodeId} {node : Node}
    (found : u.node? id = some node) {c : Construct} (named : node.name = c.name)
    (other : c ∉ [.bind, .letMember, .refMember, .docMember]) :
    bindNode u values table id = .ok table := by
  rw [bindNode, found]
  dsimp only
  rw [named, ofName?_name]
  cases c <;> first | rfl | exact absurd (by decide) other

theorem foldlM_bindNode_skip {values : Values} {id : NodeId} {node : Node}
    (found : u.node? id = some node) {c : Construct} (named : node.name = c.name)
    (other : c ∉ [.bind, .letMember, .refMember, .docMember]) (ids : List NodeId)
    (table : SymbolTable) : (id :: ids).foldlM (bindNode u values) table =
      ids.foldlM (bindNode u values) table := by
  rw [List.foldlM_cons, bindNode_skip table found named other]
  rfl

/-- The two tokens of a member bring in no names. -/
theorem leaf_names {head value : String} {pair : Construct}
    (paired : pairOf? head value = some pair) :
    (∃ c : Construct, head = c.name ∧ c ∉ [.bind, .letMember, .refMember, .docMember]) ∧
      ∃ c : Construct, value = c.name ∧ c ∉ [.bind, .letMember, .refMember, .docMember] := by
  rcases pairOf?_cases paired with ⟨_, key, fits⟩ | ⟨_, form, list⟩ | ⟨_, form, text⟩ |
    ⟨_, form, text⟩
  · refine ⟨?_, ?_⟩
    · rcases isKey_iff.1 key with name | name <;> exact ⟨_, name, by decide⟩
    · rcases fits with literal | container
      · rcases isLiteral_iff.1 literal with name | name | name | name | name <;>
          exact ⟨_, name, by decide⟩
      · rcases isContainer_iff.1 container with name | name | name <;>
          exact ⟨_, name, by decide⟩
  · refine ⟨⟨_, form, by decide⟩, ?_⟩
    rcases isArray_iff.1 list with name | name <;> exact ⟨_, name, by decide⟩
  · exact ⟨⟨_, form, by decide⟩, ⟨_, text, by decide⟩⟩
  · exact ⟨⟨_, form, by decide⟩, ⟨_, text, by decide⟩⟩

/-- A node over the leaf of a first token and a second child. -/
structure PairAt (u : ParseTree) (id : NodeId) (pair : Construct) (head : Token)
    (first second : NodeId) (parent : Option NodeId) : Prop where
  node : ∃ node, u.node? id = some node ∧ node.name = pair.name ∧ node.token = none ∧
    node.parent = parent
  children : u.children id = [first, second]
  leaf : ∃ node, u.node? first = some node ∧ node.token = some head
  other : id ≠ first

variable {values : Values} {table : SymbolTable} {id first second : NodeId} {pair : Construct}
  {head : Token}

theorem PairAt.firstLeaf? (at_pair : PairAt u id pair head first second parent) :
    u.firstLeaf? id = some first := by
  obtain ⟨node, found, _, inner, _⟩ := at_pair.node
  obtain ⟨leaf, there, token⟩ := at_pair.leaf
  have inside := (Array.getElem?_eq_some_iff.1 found).1
  have inside' := (Array.getElem?_eq_some_iff.1 there).1
  have other := Nat.lt_or_gt_of_ne at_pair.other
  obtain ⟨n, size⟩ : ∃ n, u.nodes.size = n + 2 := ⟨u.nodes.size - 2, by omega⟩
  have notLeaf : u.isLeaf id = false := by rw [ParseTree.isLeaf, found]; simp [Node.isLeaf, inner]
  have isLeaf : u.isLeaf first = true := by rw [ParseTree.isLeaf, there]; simp [Node.isLeaf, token]
  rw [ParseTree.firstLeaf?, size, ParseTree.firstLeafFrom, notLeaf, at_pair.children]
  simp only [Bool.false_eq_true, ↓reduceIte, List.head?_cons, Option.bind_some]
  rw [ParseTree.firstLeafFrom, isLeaf]
  rfl

/-- The line of a member is that of its first token. -/
theorem PairAt.lineOf (at_pair : PairAt u id pair head first second parent)
    (analyzed : Analyzed u values [id, first, second]) : lineOf u id = head.line? := by
  obtain ⟨leaf, there, token⟩ := at_pair.leaf
  rw [Procedure.lineOf, at_pair.firstLeaf?, Option.bind_some, there, Option.bind_some]
  exact analyzed.lines first (by simp) leaf head there token

theorem PairAt.argument? (at_pair : PairAt u id pair head first second parent) :
    argument? u values id = values.lookup second := by
  rw [Procedure.argument?, memberValue?, at_pair.children]
  rfl

theorem PairAt.lexemeOf (at_pair : PairAt u id pair head first second parent) :
    u.lexemeOf first = head.lexeme := by
  obtain ⟨leaf, there, token⟩ := at_pair.leaf
  rw [ParseTree.lexemeOf, there]
  simp only [Node.lexeme, token]

theorem PairAt.memberKey (at_pair : PairAt u id pair head first second parent) {key : String}
    (spelled : Json.decodeString? head.lexeme = some key) : memberKey u id = .ok key := by
  rw [Procedure.memberKey, at_pair.children]
  simp only [List.head?_cons]
  rw [at_pair.lexemeOf, spelled]

theorem PairAt.scopeOf (at_pair : PairAt u id pair head first second parent) {scope : String}
    (inScope : u.scope? id = some scope) :
    ∃ node, u.node? id = some node ∧ node.name = pair.name ∧ node.parent = parent ∧
      scopeOf node = .ok scope := by
  obtain ⟨node, found, named, _, above⟩ := at_pair.node
  refine ⟨node, found, named, above, ?_⟩
  rw [ParseTree.scope?, found, Option.bind_some] at inScope
  rw [Procedure.scopeOf, inScope]

/-- The value at a member's own node. -/
theorem PairAt.lookup (at_pair : PairAt u id pair head first second parent)
    (analyzed : Analyzed u values [id, first, second]) :
    pair = .bind ∧ values.lookup id = none ∨
      pair = .letMember ∧
        values.lookup id = some (.procedure .letForm (listed (values.lookup second))) ∨
      pair = .refMember ∧
        values.lookup id = some (.procedure .refForm (values.lookup second).toList) ∨
      pair = .docMember ∧
        values.lookup id = some (.procedure .docForm (values.lookup second).toList) ∨
      pair ∉ [Construct.bind, .letMember, .refMember, .docMember] := by
  obtain ⟨node, found, named, _⟩ := at_pair.node
  have solved := analyzed.solves id List.mem_cons_self node found
  rw [nodeValue?, named, ofName?_name] at solved
  rw [at_pair.argument?] at solved
  cases pair <;> simp_all

/-- A plain member is walked over as it is processed. -/
theorem PairAt.bindNode (at_pair : PairAt u id pair head first second parent)
    (analyzed : Analyzed u values [id, first, second]) {scope : String}
    (inScope : u.scope? id = some scope) {value : Token} {statement : Statement}
    (decoded : plainStatement? head value = some statement)
    (paired : pairOf? head.name value.name = some pair)
    (known : values.lookup second = tokenValue? value.name value.lexeme) (table : SymbolTable) :
    bindNode u values table id = statement.run (decide (parent = u.root)) scope table := by
  obtain ⟨node, found, named, above, scoped'⟩ := at_pair.scopeOf inScope
  have stored := at_pair.lookup analyzed
  rw [Procedure.bindNode, found]
  dsimp only
  rw [named, ofName?_name]
  rcases plainStatement?_cases decoded with ⟨key, v, same, spelled, meant, rfl⟩ |
    ⟨items, same, meant, rfl⟩ | ⟨target, same, meant, rfl⟩ | ⟨text, same, meant, rfl⟩ <;>
    rw [paired] at same <;> cases same <;> dsimp only <;> rw [meant] at known
  · rw [at_pair.memberKey spelled, at_pair.argument?, known, scoped']
    rfl
  · have mine : values.lookup id = some (.procedure .letForm (listed (values.lookup second))) := by
      simpa using stored
    rw [scoped', mine, known, at_pair.lineOf analyzed]
    exact registerParams_eq ..
  · rw [above, at_pair.lineOf analyzed, Statement.run]
    by_cases top : parent = u.root
    · rw [if_pos top, decide_eq_true top, if_pos rfl]
    · rw [if_neg top, decide_eq_false top]
      rfl
  · have mine : values.lookup id = some (.procedure .docForm (values.lookup second).toList) := by
      simpa using stored
    rw [mine, scoped', known]
    rfl

/-- What a plain member is for the object it stands in. -/
theorem PairAt.target (at_pair : PairAt u id pair head first second parent)
    (analyzed : Analyzed u values [id, first, second]) {value : Token} {statement : Statement}
    (decoded : plainStatement? head value = some statement)
    (paired : pairOf? head.name value.name = some pair)
    (known : values.lookup second = tokenValue? value.name value.lexeme) :
    (values.lookup id).bind refTarget? = statement.target? := by
  have stored := at_pair.lookup analyzed
  rcases plainStatement?_cases decoded with ⟨key, v, same, spelled, meant, rfl⟩ |
    ⟨items, same, meant, rfl⟩ | ⟨target, same, meant, rfl⟩ | ⟨text, same, meant, rfl⟩ <;>
    rw [paired] at same <;> cases same <;> rw [meant] at known <;> rw [known] at stored
  · have mine : values.lookup id = none := by simpa using stored
    rw [mine]
    rfl
  · have mine : values.lookup id = some (.procedure .letForm items) := by
      simpa [listed] using stored
    rw [mine]
    rfl
  · have mine : values.lookup id = some (.procedure .refForm [.string target]) := by
      simpa using stored
    rw [mine]
    rfl
  · have mine : values.lookup id = some (.procedure .docForm [.string text]) := by
      simpa using stored
    rw [mine]
    rfl

/-- The walk over some nodes does what processing members does. -/
structure Walks (u : ParseTree) (values : Values) (f : Planted) (top : Bool) (scope : String)
    (body : List Statement) : Prop where
  run : ∀ table, f.places.foldlM (Procedure.bindNode u values) table = runBody top scope table body
  target : (f.tops.findSome? fun id => (values.lookup id).bind refTarget?) =
    body.findSome? Statement.target?

theorem Walks.append {f g : Planted} {top : Bool} {scope : String} {first second : List Statement}
    (before : Walks u values f top scope first) (after : Walks u values g top scope second) :
    Walks u values (f ++ g) top scope (first ++ second) := by
  refine ⟨fun table => ?_, ?_⟩
  · rw [places_append, List.foldlM_append, runBody_append, before.run]
    cases runBody top scope table first with
    | error e => rfl
    | ok table => exact after.run table
  · rw [tops_append, List.findSome?_append, List.findSome?_append, before.target, after.target]

/-- Planted members that are below one node, in one scope, and have their values. -/
structure Ready (u : ParseTree) (values : Values) (p : NodeId) (level : Nat) (scope : String)
    (f : Planted) : Prop where
  held : u.Holds (some p) level f
  distinct : f.places.Nodup
  analyzed : Analyzed u values f.places
  inScope : ∀ id ∈ f.tops, u.scope? id = some scope

theorem Ready.split {f g : Planted} {p : NodeId} {level : Nat} {scope : String}
    (ready : Ready u values p level scope (f ++ g)) :
    Ready u values p level scope f ∧ Ready u values p level scope g := by
  obtain ⟨held, distinct, analyzed, inScope⟩ := ready
  rw [ParseTree.holds_append] at held
  rw [places_append] at distinct analyzed
  rw [tops_append] at inScope
  obtain ⟨distinctFirst, distinctRest, _⟩ := List.nodup_append.1 distinct
  exact ⟨⟨held.1, distinctFirst, analyzed.subset fun id member => List.mem_append_left _ member,
      fun id member => inScope id (List.mem_append_left _ member)⟩,
    ⟨held.2, distinctRest, analyzed.subset fun id member => List.mem_append_right _ member,
      fun id member => inScope id (List.mem_append_right _ member)⟩⟩

/-- The value of an object with members. -/
theorem lookup_object {node : Node} {body : List Statement} (named : node.name = object.name)
    (solved : nodeValue? u values id node = .ok (values.lookup id))
    (targets : ((u.children id).findSome? fun c => (values.lookup c).bind refTarget?) =
      body.findSome? Statement.target?) : values.lookup id = some (valueOfBody body) := by
  rw [nodeValue?, named, ofName?_name] at solved
  dsimp only at solved
  rw [targets] at solved
  rw [valueOfBody]
  cases hit : body.findSome? Statement.target? with
  | some target =>
    rw [hit] at solved
    exact (Except.ok.inj solved).symm
  | none =>
    rw [hit] at solved
    exact (Except.ok.inj solved).symm

/-- The scope inside the value of a bind. -/
theorem PairAt.scope_second (at_pair : PairAt u id .bind head first second parent)
    {scope key : String} (inScope : u.scope? id = some scope)
    (spelled : Json.decodeString? head.lexeme = some key)
    (scoped' : u.scope? second = some (scopeFor u second)) (above : u.parent? second = some id) :
    u.scope? second = some (join scope key) := by
  obtain ⟨node, found, named, _⟩ := at_pair.node
  rw [scoped', scopeFor, above]
  rw [ParseTree.scope?] at inScope
  have key? : bindKey? u id = some key := by
    rw [bindKey?, at_pair.children, List.head?_cons, Option.bind_some, at_pair.lexemeOf, spelled]
  have value? : memberValue? u id = some second := by
    rw [memberValue?, at_pair.children]
    rfl
  have isBind : (u.node? id).any (·.name == Construct.bind.name) = true := by
    rw [found, Option.any_some, named]
    rfl
  dsimp only
  rw [inScope, isBind, value?, key?]
  simp

/-- A member with an object names the value of the object. -/
theorem PairAt.bindNode_object (at_pair : PairAt u id .bind head first second parent)
    {scope key : String} (inScope : u.scope? id = some scope)
    (spelled : Json.decodeString? head.lexeme = some key) {v : Value}
    (known : values.lookup second = some v) (table : SymbolTable) :
    Procedure.bindNode u values table id = .ok (table.insert (join scope key) v) := by
  obtain ⟨node, found, named, scoped'⟩ := at_pair.scopeOf inScope
  rw [Procedure.bindNode, found]
  dsimp only
  rw [named, ofName?_name, at_pair.memberKey spelled, at_pair.argument?, known, scoped'.2]
  rfl

/-- Below any other node the scope stays the same. -/
theorem scope_below {node : Node} {child : NodeId} {scope : String} (found : u.node? id = some node)
    (other : node.name ≠ Construct.bind.name) (inScope : u.scope? id = some scope)
    (scoped' : u.scope? child = some (scopeFor u child)) (above : u.parent? child = some id) :
    u.scope? child = some scope := by
  rw [scoped', scopeFor, above]
  rw [ParseTree.scope?] at inScope
  have notBind : (u.node? id).any (·.name == Construct.bind.name) = false := by
    rw [found, Option.any_some, beq_false_of_ne other]
  dsimp only
  rw [inScope, notBind]
  rfl

theorem places_tree (k : NodeId) (l : Label) (f : Planted) :
    (tree (k, l) f).places = k :: f.places := by
  simp [tree]

theorem places_pair (i j k : NodeId) (l l' l'' : Label) (below : Planted) :
    (tree (i, l) (.node (j, l') .nil (tree (k, l'') below))).places = i :: j :: k :: below.places := by
  simp [tree]

/-- The node of a planted member with its two children. -/
theorem pairAt_of_holds {i j k : NodeId} {a b : Attributes} {l : Label} {below : Planted}
    (held : u.Holds parent level
      (tree (i, { Label.inner pair.name .attrProduction with attrs := a })
        (.node (j, { Label.ofToken head (leafKind head.name) with attrs := b }) .nil
          (tree (k, l) below))))
    (distinct : i ≠ j) : PairAt u i pair head j k parent := by
  obtain ⟨atPair, ⟨atHead, _⟩, _⟩ := held
  refine ⟨⟨_, atPair, rfl, rfl, rfl⟩, ?_, ⟨_, atHead, rfl⟩, distinct⟩
  rw [ParseTree.children, atPair]
  rfl

/-- A member with a value of one token is walked over as it is processed. -/
theorem walks_plain {colon value : Token} {statement : Statement}
    {f : Planted} {p : NodeId} {level : Nat} {scope : String}
    (decoded : plainStatement? head value = some statement)
    (same : f.bare = (Member.plain head colon value).abstract.map Label.bare)
    (ready : Ready u values p level scope f) :
    Walks u values f (decide (some p = u.root)) scope [statement] := by
  obtain ⟨held, distinct, analyzed, inScope⟩ := ready
  rw [Member.abstract] at same
  obtain ⟨i, a, j, b, rest, after, rfl⟩ := pair_of_bare same
  obtain ⟨k, c, rfl⟩ := leaf_of_bare after
  obtain ⟨pair, v, paired, meant, _⟩ := plainStatement?_parts decoded
  rw [paired, Option.getD_some] at held ⊢
  rw [places_pair] at distinct analyzed
  have at_pair := pairAt_of_holds held fun equal => by simp [equal] at distinct
  have here := inScope i List.mem_cons_self
  obtain ⟨_, ⟨atHead, _, atValue, _, _⟩, _⟩ := held
  have known : values.lookup k = tokenValue? value.name value.lexeme := by
    have solved := analyzed.solves k (by simp) _ atValue
    rw [nodeValue?_literal meant] at solved
    exact (Except.ok.inj solved).symm.trans meant.symm
  obtain ⟨⟨c₁, headNamed, headOther⟩, c₂, valueNamed, valueOther⟩ := leaf_names paired
  refine ⟨fun table => ?_, ?_⟩
  · rw [places_pair, List.foldlM_cons, at_pair.bindNode analyzed here decoded paired known,
      runBody_single]
    cases statement.run (decide (some p = u.root)) scope table with
    | error e => rfl
    | ok table =>
      have skipped : [j, k].foldlM (Procedure.bindNode u values) table = _ :=
        foldlM_bindNode_skip atHead headNamed headOther [k] table
      exact skipped.trans (foldlM_bindNode_skip atValue valueNamed valueOther [] table)
  · change ([i].findSome? fun id => (values.lookup id).bind refTarget?) = _
    rw [List.findSome?_singleton, List.findSome?_singleton]
    exact at_pair.target analyzed decoded paired known

/-- Members below a node that is no bind are ready in the scope of the node. -/
theorem Ready.below {k : NodeId} {l : Label} {above : Option NodeId} {level : Nat} {scope : String}
    {f : Planted} (held : u.Holds above level (tree (k, l) f))
    (distinct : (tree (k, l) f).places.Nodup) (analyzed : Analyzed u values (tree (k, l) f).places)
    (other : l.name ≠ Construct.bind.name) (inScope : u.scope? k = some scope) :
    Ready u values k (level + 1) scope f := by
  obtain ⟨atNode, below, _⟩ := held
  rw [places_tree] at distinct analyzed
  refine ⟨below, (List.nodup_cons.1 distinct).2,
    analyzed.subset fun id => List.mem_cons_of_mem k, fun id member => ?_⟩
  exact scope_below atNode other inScope
    (analyzed.scopes id (List.mem_cons_of_mem k (tops_subset_places _ id member)))
    (below.parent_tops id member)

section Nested

variable {i j k p : NodeId} {a b c : Attributes} {level : Nat} {scope key : String} {body : Planted}

/-- A planted member with an object. -/
abbrev nestedAt (head : Token) (i j k : NodeId) (a b c : Attributes) (body : Planted) : Planted :=
  tree (i, { Label.inner Construct.bind.name .attrProduction with attrs := a })
    (.node (j, { Label.ofToken head (leafKind head.name) with attrs := b }) .nil
      (tree (k, { Label.inner object.name .attrProduction with attrs := c }) body))

theorem places_nested :
    (nestedAt head i j k a b c body).places = i :: j :: k :: body.places := places_pair ..

/-- The members of an object are ready in the scope of its key. -/
theorem Ready.inside (ready : Ready u values p level scope (nestedAt head i j k a b c body))
    (spelled : Json.decodeString? head.lexeme = some key) :
    Ready u values k (level + 2) (join scope key) body := by
  obtain ⟨held, distinct, analyzed, inScope⟩ := ready
  rw [places_nested] at distinct analyzed
  have at_pair := pairAt_of_holds held fun equal => by simp [equal] at distinct
  obtain ⟨_, ⟨_, _, object⟩, _⟩ := held
  have inBind : u.parent? k = some i := by
    rw [ParseTree.parent?, object.1]
    rfl
  have inner := at_pair.scope_second (inScope i List.mem_cons_self) spelled
    (analyzed.scopes k (by simp)) inBind
  have notBind : Construct.object.name ≠ Construct.bind.name := by decide
  refine Ready.below object ?_ (analyzed.subset ?_) notBind inner
  · rw [places_tree]
    exact (List.nodup_cons.1 (List.nodup_cons.1 distinct).2).2
  · rw [places_tree]
    exact fun id member => List.mem_cons_of_mem i (List.mem_cons_of_mem j member)

/-- A member with an object is walked over as it is processed if the members of the object are. -/
theorem walks_nested {statements : List Statement}
    (ready : Ready u values p level scope (nestedAt head i j k a b c body))
    (isKey : isKey head.name = true) (spelled : Json.decodeString? head.lexeme = some key)
    (walks : Walks u values body (decide (some k = u.root)) (join scope key) statements) :
    Walks u values (nestedAt head i j k a b c body) (decide (some p = u.root)) scope
      [.within key statements] := by
  obtain ⟨held, distinct, analyzed, inScope⟩ := ready
  rw [places_nested] at distinct analyzed
  have at_pair := pairAt_of_holds held fun equal => by simp [equal] at distinct
  obtain ⟨_, ⟨atHead, _, atObject, _, _⟩, _⟩ := held
  have notTop : some k ≠ u.root := by
    intro top
    cases analyzed.rootless k _ top.symm atObject
  rw [decide_eq_false notTop] at walks
  have known : values.lookup k = some (valueOfBody statements) := by
    have children : u.children k = body.tops := by
      rw [ParseTree.children, atObject]
      rfl
    exact lookup_object rfl (analyzed.solves k (by simp) _ atObject)
      (by rw [children]; exact walks.target)
  obtain ⟨c₁, headNamed, headOther⟩ : ∃ c : Construct, head.name = c.name ∧
      c ∉ [.bind, .letMember, .refMember, .docMember] := by
    rcases isKey_iff.1 isKey with name | name <;> exact ⟨_, name, by decide⟩
  have objectOther : object ∉ [Construct.bind, .letMember, .refMember, .docMember] := by decide
  refine ⟨fun table => ?_, ?_⟩
  · have named := at_pair.bindNode_object (inScope i List.mem_cons_self) spelled known
    rw [places_nested, List.foldlM_cons, named, runBody_single, Statement.run]
    generalize table.insert (join scope key) (valueOfBody statements) = table
    change (j :: k :: body.places).foldlM (Procedure.bindNode u values) table = _
    rw [foldlM_bindNode_skip atHead headNamed headOther,
      foldlM_bindNode_skip (c := object) atObject rfl objectOther]
    exact walks.run table
  · change ([i].findSome? fun id => (values.lookup id).bind refTarget?) = _
    have absent : values.lookup i = none := by
      have stored := at_pair.lookup (analyzed.subset fun id member => by
        simp only [List.mem_cons, List.not_mem_nil, or_false] at member ⊢
        rcases member with rfl | rfl | rfl <;> simp)
      simpa using stored
    rw [List.findSome?_singleton, List.findSome?_singleton, absent]
    rfl

end Nested

mutual

/-- The walk over a member does what processing the decoded member does. -/
theorem Member.walks : ∀ {m : Member} {statement : Statement} {f : Planted} {p : NodeId}
    {level : Nat} {scope : String}, m.WellFormed → m.statement? = some statement →
    f.bare = m.abstract.map Label.bare → Ready u values p level scope f →
    Walks u values f (decide (some p = u.root)) scope [statement]
  | .plain _ _ _, _, _, _, _, _, _, decoded, same, ready => walks_plain decoded same ready
  | .nested head _ _ first others _, statement, f, p, level, scope, wellFormed, decoded, same,
      ready => by
    obtain ⟨isKey, _, _, wellFirst, wellOthers, _⟩ := wellFormed
    rw [Member.statement?] at decoded
    obtain ⟨key, spelled, decoded⟩ := Option.bind_eq_some_iff.1 decoded
    obtain ⟨statement₁, decodedFirst, decoded⟩ := Option.bind_eq_some_iff.1 decoded
    obtain ⟨statements, decodedOthers, decoded⟩ := Option.bind_eq_some_iff.1 decoded
    cases decoded
    rw [Member.abstract] at same
    obtain ⟨i, a, j, b, rest, after, rfl⟩ := pair_of_bare same
    obtain ⟨k, c, body, rfl, inside⟩ := tree_of_bare after
    rw [map_append] at inside
    obtain ⟨g, h, rfl, bareFirst, bareOthers⟩ := append_of_bare inside
    obtain ⟨readyFirst, readyOthers⟩ := (Ready.inside ready spelled).split
    exact walks_nested ready isKey spelled
      ((Member.walks wellFirst decodedFirst bareFirst readyFirst).append
        (MemberTail.walks wellOthers decodedOthers bareOthers readyOthers))

theorem MemberTail.walks : ∀ {t : MemberTail} {statements : List Statement} {f : Planted}
    {p : NodeId} {level : Nat} {scope : String}, t.WellFormed → t.statements? = some statements →
    f.bare = t.abstract.map Label.bare → Ready u values p level scope f →
    Walks u values f (decide (some p = u.root)) scope statements
  | .nil, statements, f, _, _, _, _, decoded, same, _ => by
    rw [MemberTail.statements?] at decoded
    cases decoded
    rw [nil_of_bare same]
    exact ⟨fun _ => rfl, rfl⟩
  | .cons _ m others, statements, f, p, level, scope, wellFormed, decoded, same, ready => by
    obtain ⟨_, wellMember, wellOthers⟩ := wellFormed
    rw [MemberTail.statements?] at decoded
    obtain ⟨statement, decodedMember, decoded⟩ := Option.bind_eq_some_iff.1 decoded
    obtain ⟨rest, decodedOthers, decoded⟩ := Option.bind_eq_some_iff.1 decoded
    cases decoded
    rw [MemberTail.abstract, map_append] at same
    obtain ⟨g, h, rfl, bareMember, bareOthers⟩ := append_of_bare same
    obtain ⟨readyMember, readyOthers⟩ := ready.split
    exact (Member.walks wellMember decodedMember bareMember readyMember).append
      (MemberTail.walks wellOthers decodedOthers bareOthers readyOthers)

end

/-- Labels of leaves have the attributes of their tokens. -/
def Faithful (f : Forest Label) : Prop :=
  ∀ l ∈ f.preorder, ∀ token, l.token = some token → l.attrs = token.attrs

theorem Faithful.append {f g : Forest Label} (first : Faithful f) (second : Faithful g) :
    Faithful (f ++ g) := by
  intro l member
  rw [preorder_append, List.mem_append] at member
  exact member.elim (first l) (second l)

theorem faithful_leaf (token : Token) : Faithful (leaf token) := by
  intro l member other same
  cases List.mem_singleton.1 member
  cases same
  rfl

theorem Faithful.inner {f : Forest Label} (inside : Faithful f) (name : String) (kind : RuleKind) :
    Faithful (tree (.inner name kind) f) := by
  intro l member token same
  rw [tree, preorder, preorder, List.append_nil] at member
  rcases List.mem_cons.1 member with rfl | member
  · cases same
  · exact inside l member token same

mutual

theorem Member.faithful : ∀ m : Member, Faithful m.abstract
  | .plain head _ value => ((faithful_leaf head).append (faithful_leaf value)).inner _ _
  | .nested head _ _ first others _ =>
    ((faithful_leaf head).append ((first.faithful.append others.faithful).inner _ _)).inner _ _

theorem MemberTail.faithful : ∀ t : MemberTail, Faithful t.abstract
  | .nil => fun l member => by cases member
  | .cons _ m others => m.faithful.append others.faithful

end

theorem Program.faithful : ∀ o : Program, Faithful o.abstract
  | .empty token => faithful_leaf token
  | .members _ first others _ => (first.faithful.append others.faithful).inner _ _

/-- The line of a leaf is that of its token. -/
theorem line?_evaluate (g : Attribution) {t : ParseTree} {f : Planted} (rooted : t.Rooted f)
    (faithful : Faithful (f.map Prod.snd)) {id : NodeId} (member : id ∈ f.places) {node : Node}
    {token : Token} (found : (g.evaluate t).node? id = some node)
    (isLeaf : node.token = some token) : node.attrs.line? = token.line? := by
  obtain ⟨⟨k, l⟩, listed, rfl⟩ := List.mem_map.1 member
  obtain ⟨children, above, depth, here⟩ := rooted.held.node? listed
  rcases (Attribution.sameShape_evaluate g t).cases k with ⟨absent, _⟩ | ⟨n, attrs, before, after⟩
  · rw [here] at absent
    cases absent
  · rw [here] at before
    cases before
    rw [found] at after
    cases after
    have attrs_eq := faithful l (by
      rw [preorder_map]
      exact List.mem_map_of_mem listed) token isLeaf
    have leaf : t.isLeaf k = true := by
      rw [ParseTree.isLeaf, here]
      change l.token.isSome = true
      rw [show l.token = some token from isLeaf]
      rfl
    have kept := Attribution.attr?_evaluate_leaf g leaf .line
    rw [ParseTree.attr?, ParseTree.attr?, found, here] at kept
    change attrs.synthesized.line = l.attrs.synthesized.line at kept
    change attrs.synthesized.line.bind _ = token.attrs.synthesized.line.bind _
    rw [kept, attrs_eq]

/-- Every node of a program that can be decoded settles. -/
theorem Program.settled {o : Program} (wellFormed : o.WellFormed) {body : List Statement}
    (decoded : o.statements? = some body) {f : Planted} {parent : Option NodeId} {level : Nat}
    (same : f.bare = o.abstract.map Label.bare) (held : u.Holds parent level f) :
    ∀ id ∈ f.places, Settled u id := by
  cases o with
  | empty token => cases decoded
  | members opening first others closing =>
    obtain ⟨_, wellFirst, wellOthers, _⟩ := wellFormed
    rw [Program.statements?] at decoded
    obtain ⟨_, decodedFirst, decoded⟩ := Option.bind_eq_some_iff.1 decoded
    obtain ⟨_, decodedOthers, _⟩ := Option.bind_eq_some_iff.1 decoded
    obtain ⟨r, a, body, rfl, inside⟩ := tree_of_bare same
    rw [map_append] at inside
    obtain ⟨x, y, rfl, bareFirst, bareOthers⟩ := append_of_bare inside
    obtain ⟨atRoot, below, _⟩ := held
    rw [ParseTree.holds_append] at below
    intro id member
    rw [places_tree, places_append, List.mem_cons, List.mem_append] at member
    rcases member with rfl | member | member
    · exact settled_of_name atRoot (c := .program) rfl (by decide)
    · exact Member.settled wellFirst decodedFirst bareFirst below.1 id member
    · exact MemberTail.settled wellOthers decodedOthers bareOthers below.2 id member

/-- The walk over a program does what processing its members does. -/
theorem Program.walks {o : Program} (wellFormed : o.WellFormed) {body : List Statement}
    (decoded : o.statements? = some body) {f : Planted} (rooted : u.Rooted f)
    (same : f.bare = o.abstract.map Label.bare) (analyzed : Analyzed u values f.places) :
    u.preOrder.foldlM (Procedure.bindNode u values) ∅ = meaning body := by
  cases o with
  | empty token => cases decoded
  | members opening first others closing =>
    obtain ⟨_, wellFirst, wellOthers, _⟩ := wellFormed
    rw [Program.statements?] at decoded
    obtain ⟨statement, decodedFirst, decoded⟩ := Option.bind_eq_some_iff.1 decoded
    obtain ⟨statements, decodedOthers, decoded⟩ := Option.bind_eq_some_iff.1 decoded
    cases decoded
    obtain ⟨r, a, body, rfl, inside⟩ := tree_of_bare same
    rw [map_append] at inside
    obtain ⟨x, y, rfl, bareFirst, bareOthers⟩ := append_of_bare inside
    have root : u.root = some r := by rw [rooted.root]; rfl
    have atRoot := rooted.held.1
    have outermost : u.scope? r = some "" := by
      rw [analyzed.scopes r (by rw [places_tree]; exact List.mem_cons_self), scopeFor,
        ParseTree.parent?, atRoot]
      rfl
    have programNotBind : program.name ≠ Construct.bind.name := by decide
    obtain ⟨readyFirst, readyOthers⟩ :=
      (Ready.below rooted.held rooted.distinct analyzed programNotBind outermost).split
    have walk := ((Member.walks wellFirst decodedFirst bareFirst readyFirst).append
      (MemberTail.walks wellOthers decodedOthers bareOthers readyOthers)).run ∅
    rw [root, decide_eq_true rfl] at walk
    rw [rooted.preOrder_eq, places_tree, List.foldlM_cons,
      bindNode_skip (c := program) ∅ atRoot rfl (by decide)]
    exact walk

/-- The symbol table of an evaluated program is what the program means. -/
theorem symbolsOf_evaluate {g : Attribution} (declared : scopeDecl ∈ g.decls)
    (standard : StandardScope g) {o : Program} (wellFormed : o.WellFormed) {t : ParseTree}
    {f : Planted} (rooted : t.Rooted f) (labels : f.map Prod.snd = o.abstract)
    {body : List Statement} (decoded : o.statements? = some body) :
    symbolsOf (g.evaluate t) = meaning body := by
  have rooted' := (Attribution.sameShape_evaluate g t).rooted rooted
  have places := (g.evaluate t).places_relabel f
  have bare := (g.evaluate t).bare_relabel f
  rw [labels] at bare
  have settled := Program.settled wellFormed decoded bare rooted'.held
  obtain ⟨values, found, solves⟩ := valuesOf_ok rooted' settled
  have faithful : Faithful (f.map Prod.snd) := labels ▸ o.faithful
  have analyzed : Analyzed (g.evaluate t) values ((g.evaluate t).relabel f).places := by
    refine ⟨solves, fun id member => ?_, fun id member node token => ?_, rootless_of_rooted rooted'⟩
    · exact scope?_evaluate declared standard rooted (places ▸ member)
    · exact line?_evaluate g rooted faithful (places ▸ member)
  rw [symbolsOf, found]
  exact Program.walks wellFormed decoded rooted' bare analyzed

end AttrGrammar.Procedure
