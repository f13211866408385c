import AttrGrammar.Proofs.Procedure.Printing
import AttrGrammar.Proofs.Tree.Ancestry

/-!
How deep objects and members stand, by their tokens and by the tree.

The scanner gives every token a depth, and the tree shows how many objects a node is in. For the
nodes of objects and members the depth of the first token is that number. The induction goes down
the forest with the number of the objects around it.
-/

namespace AttrGrammar

open Forest

/-- The token that is reached first in a forest. -/
def Forest.firstToken : Forest Label → Option Token
  | nil => none
  | node label children _ => label.token <|> firstToken children

namespace Procedure

open Construct
open Scanner (advance)
open Json (Blanks Written Members spots)

/-- The nodes for objects with members; the program is one. -/
def isObject (name : String) : Bool := [program.name, object.name].contains name

/-- The nodes whose first token tells how deep they are. -/
def isNested (name : String) : Bool :=
  isObject name ||
    [member.name, bind.name, letMember.name, refMember.name, docMember.name].contains name

/-- The depth of the trees below a node that is at a depth. -/
def depthBelow (name : String) (depth : Nat) : Nat := if isObject name then depth + 1 else depth

/-- The first tokens of objects and members have the depth at which these stand in a forest. -/
def Indented (depth : Nat) : Forest Label → Prop
  | .nil => True
  | .node label children rest =>
    (isNested label.name = true → label.token = none ∧
      (firstToken children).bind (·.attrs.indent?) = some depth) ∧
    Indented (depthBelow label.name depth) children ∧ Indented depth rest

theorem indented_append {depth : Nat} {f g : Forest Label} (first : Indented depth f)
    (second : Indented depth g) : Indented depth (f ++ g) := by
  induction f with
  | nil => exact second
  | node label children rest _ ih => exact ⟨first.1, first.2.1, ih first.2.2⟩

/-- Nodes without a depth of their own. -/
theorem indented_other {depth : Nat} {label : Label} {f : Forest Label}
    (other : isNested label.name = false) (inside : Indented depth f) :
    Indented depth (.tree label f) := by
  have notObject : isObject label.name = false := (Bool.or_eq_false_iff.1 other).1
  refine ⟨fun nested => ?_, ?_, trivial⟩
  · cases nested.symm.trans other
  · rwa [depthBelow, notObject]

theorem indented_leaf (depth : Nat) {token : Token} (other : isNested token.name = false) :
    Indented depth (leaf token) := indented_other other trivial

variable {depth : Nat}

theorem isNested_part : ∀ name ∈ partNames, isNested name = false := by decide

theorem firstToken_headForest (pair : Construct) (head : Token) (f : Forest Label) :
    firstToken (headForest pair head ++ f) = some head := by
  unfold headForest
  split <;> rfl

theorem indented_headForest (pair : Construct) {head : Token}
    (other : isNested head.name = false) : Indented depth (headForest pair head) := by
  unfold headForest
  split
  · exact indented_other (by decide) (indented_leaf depth other)
  · exact indented_leaf depth other

theorem indented_valueForest (pair : Construct) {value : Token}
    (other : isNested value.name = false) : Indented depth (valueForest pair value) := by
  unfold valueForest
  split
  · refine indented_other (by decide) ?_
    split
    · exact indented_other (by decide) (indented_leaf depth other)
    · exact indented_leaf depth other
  · exact indented_other (by decide) (indented_leaf depth other)
  · exact indented_leaf depth other

/-- A token that can begin a member at a depth. -/
structure Heads (depth : Nat) (head : Token) : Prop where
  placed : head.attrs.indent? = some depth
  other : isNested head.name = false

/-- A member has the depth of its first token. -/
theorem indented_pairForest {pair : Construct}
    (isPair : pair = .bind ∨ pair = .letMember ∨ pair = .refMember ∨ pair = .docMember)
    {head middle : Token} (heads : Heads depth head) (named : middle.name = colon.name)
    {value : Forest Label} (second : Indented depth value) :
    Indented depth (pairForest pair (headForest pair head) middle value) := by
  have notNested : isNested middle.name = false := by
    rw [named]
    decide
  have parts : Indented depth (headForest pair head ++ (leaf middle ++ value)) :=
    indented_append (indented_headForest pair heads.other)
      (indented_append (indented_leaf depth notNested) second)
  have first : (firstToken (headForest pair head ++ (leaf middle ++ value))).bind
      (·.attrs.indent?) = some depth := by
    rw [firstToken_headForest]
    exact heads.placed
  have notObject : depthBelow pair.name depth = depth := by
    rcases isPair with rfl | rfl | rfl | rfl <;> rfl
  exact ⟨fun _ => ⟨rfl, first⟩, ⟨fun _ => ⟨rfl, first⟩, notObject.symm ▸ parts, trivial⟩, trivial⟩

/-- An object has the depth of its brace, and its members are one deeper. -/
theorem indented_bracedForest {c : Construct} (braced : c = .program ∨ c = .object)
    {opening closing : Token} (placed : opening.attrs.indent? = some depth)
    (opens : opening.name = lbrace.name) (closes : closing.name = rbrace.name)
    {first others : Forest Label} (one : Indented (depth + 1) first)
    (more : Indented (depth + 1) others) :
    Indented depth (bracedForest c opening
      (first ++ .tree (.inner memberTail.name .repetition) others) closing) := by
  have below : depthBelow c.name depth = depth + 1 := by rcases braced with rfl | rfl <;> rfl
  have braces : isNested opening.name = false ∧ isNested closing.name = false := by
    rw [opens, closes]
    decide
  refine ⟨fun _ => ⟨rfl, placed⟩, ?_, trivial⟩
  change Indented (depthBelow c.name depth) _
  rw [below]
  refine indented_append (indented_leaf _ braces.1)
    (indented_append ?_ (indented_leaf _ braces.2))
  exact indented_other (by decide) (indented_append one (indented_other (by decide) more))

section

variable (lang : Language) (l : Layout)

theorem heads_keyToken (depth : Nat) (place : Nat × Nat) (key : Json.Literal) :
    Heads depth (keyToken (printer (tokenizerOf lang) l) depth place key) where
  placed := keyToken_indent lang l depth place key
  other := by
    rw [keyToken_name]
    exact isNested_part _ (literal_mem_partNames key)

theorem emit_indent (depth : Nat) (place : Nat × Nat) (n : String) (text : List Char) :
    (emit (printer (tokenizerOf lang) l).annotate depth place n text).attrs.indent? =
      some depth := rfl

theorem indented_plain {w : Written} (single : w.isBraced = false) (place : Nat × Nat)
    {head middle : Token} (heads : Heads depth head) (named : middle.name = colon.name) :
    Indented depth (w.member (printer (tokenizerOf lang) l) depth place head middle).forest := by
  rw [w.member_plain _ single]
  refine indented_pairForest (pairOf?_getD _ _) heads named (indented_valueForest _ ?_)
  rw [valueToken_name]
  exact isNested_part _ (value_mem_partNames single)

mutual

/-- A member in a text has the depth that the scanner gave to its key. -/
theorem indented_member : ∀ (w : Written) (depth : Nat) (place : Nat × Nat) {head middle : Token},
    Heads depth head → middle.name = colon.name →
      Indented depth (w.member (printer (tokenizerOf lang) l) depth place head middle).forest
  | .object gap (.cons lead key before after value trail others), depth, place, head, middle,
      heads, named => by
    have makes := makes_emit (printer (tokenizerOf lang) l)
    refine indented_pairForest (Or.inl rfl) heads named (indented_other (by decide) ?_)
    exact indented_bracedForest (Or.inr rfl) (emit_indent lang l ..) (makes.name _ _ _ _)
      (closing_name _ others _ _ _)
      (indented_member value (depth + 1) _ (heads_keyToken lang l ..) (makes.name _ _ _ _))
      (indented_tail others depth _)
  | .object gap .nil, _, place, _, _, heads, named => indented_plain lang l rfl place heads named
  | .array gap items, _, place, _, _, heads, named => indented_plain lang l rfl place heads named
  | .string _, _, place, _, _, heads, named => indented_plain lang l rfl place heads named
  | .number _, _, place, _, _, heads, named => indented_plain lang l rfl place heads named
  | .bool _, _, place, _, _, heads, named => indented_plain lang l rfl place heads named
  | .null, _, place, _, _, heads, named => indented_plain lang l rfl place heads named

theorem indented_tail : ∀ (members : Members) (depth : Nat) (place : Nat × Nat),
    Indented (depth + 1) (members.tail (printer (tokenizerOf lang) l) depth place).forest
  | .nil, _, _ => trivial
  | .cons lead key before after value trail others, depth, place => by
    have makes := makes_emit (printer (tokenizerOf lang) l)
    have divider : isNested (emit (printer (tokenizerOf lang) l).annotate (depth + 1) place
        "member_divider" [',']).name = false := by
      rw [makes.name]
      decide
    have one := indented_member value (depth + 1)
      (spots (advance place [',']) lead key before after value trail).value
      (heads_keyToken lang l (depth + 1)
        (spots (advance place [',']) lead key before after value trail).key key)
      (makes.name (depth + 1)
        (spots (advance place [',']) lead key before after value trail).colon "colon" [':'])
    have here : Indented (depth + 1) (.tree (.inner nextMember.name .concatenation) _) :=
      indented_other (by decide) (indented_append (indented_leaf (depth + 1) divider) one)
    exact indented_append here (indented_tail others depth _)

end

theorem indented_programOf (place : Nat × Nat) (gap : Blanks) (members : Members) :
    Indented 0 (programOf (printer (tokenizerOf lang) l) place gap members).forest := by
  have makes := makes_emit (printer (tokenizerOf lang) l)
  cases members with
  | nil =>
    refine indented_other (by decide) (indented_leaf 0 ?_)
    rw [valueToken_name]
    exact isNested_part _ (value_mem_partNames rfl)
  | cons lead key before after value trail others =>
    refine indented_other (by decide) ?_
    exact indented_bracedForest (Or.inl rfl) (emit_indent lang l ..) (makes.name _ _ _ _)
      (closing_name _ others _ _ _)
      (indented_member lang l value 1 _ (heads_keyToken lang l ..) (makes.name _ _ _ _))
      (indented_tail lang l others 0 _)

end

/-- The objects that a node is in. -/
def objectsAround (t : ParseTree) (id : NodeId) : Set NodeId :=
  {a | t.Above a id ∧ ∃ n, t.node? a = some n ∧ isObject n.name = true}

section

variable {t : ParseTree} {g : Attribution} {f : Planted}

/-- The first token of a forest is that of the leaf which is reached first. -/
theorem indentOf_tops (rooted : t.Rooted f) (faithful : Faithful (f.map Prod.snd)) :
    ∀ {part : Planted} {parent : Option NodeId} {level : Nat}, t.Holds parent level part →
      part.size ≤ t.nodes.size → (∀ entry ∈ part.preorder, entry ∈ f.preorder) →
        part.tops.head?.bind (indentOf (g.evaluate t)) =
          (firstToken (part.map Prod.snd)).bind (·.attrs.indent?) := by
  intro part
  induction part with
  | nil => intros; rfl
  | node entry children rest ihChildren _ =>
    intro parent level held fits within
    obtain ⟨id, label⟩ := entry
    rw [tops_node, List.head?_cons, Option.bind_some, Forest.map, firstToken]
    dsimp only
    cases isLeaf : label.token with
    | some token => exact indentOf_token rooted faithful (within _ List.mem_cons_self) isLeaf
    | none =>
      have small : children.size ≤ t.nodes.size := by
        rw [Forest.size] at fits
        omega
      rw [indentOf_inner g held fits (congrArg Option.isSome isLeaf),
        ihChildren held.2.1 small fun entry listed =>
          within entry (List.mem_cons_of_mem _ (List.mem_append_left _ listed))]
      rfl

/-- Whether the node at a place is an object. -/
def isObjectAt (t : ParseTree) (id : NodeId) : Bool := (t.label? id).any (isObject ·.name)

/-- An object or a member is as deep as there are objects around it. -/
theorem indentOf_part (rooted : t.Rooted f) (faithful : Faithful (f.map Prod.snd)) :
    ∀ {part : Planted} {parent : Option NodeId} {level depth : Nat}, t.Holds parent level part →
      part.places.Nodup → part.size ≤ t.nodes.size →
      (∀ entry ∈ part.preorder, entry ∈ f.preorder) → Indented depth (part.map Prod.snd) →
        ∀ {id : NodeId} {label : Label}, (id, label) ∈ part.preorder →
          isNested label.name = true → indentOf (g.evaluate t) id =
            some (depth + ((part.above id).filter (isObjectAt t)).length) := by
  intro part
  induction part with
  | nil => intro _ _ _ _ _ _ _ _ _ _ listed; cases listed
  | node entry children rest ihChildren ihRest =>
    intro parent level depth held distinct fits within indented id label listed nested
    obtain ⟨k, l⟩ := entry
    obtain ⟨_, inside, beside, _⟩ := distinct_node distinct
    have sizes : children.size ≤ t.nodes.size ∧ rest.size ≤ t.nodes.size := by
      rw [Forest.size] at fits
      omega
    have below := fun entry (listed : entry ∈ children.preorder) =>
      within entry (List.mem_cons_of_mem _ (List.mem_append_left _ listed))
    have later := fun entry (listed : entry ∈ rest.preorder) =>
      within entry (List.mem_cons_of_mem _ (List.mem_append_right _ listed))
    have here := ParseTree.Holds.label? held List.mem_cons_self
    rcases List.mem_cons.1 listed with same | listed
    · cases same
      obtain ⟨inner, placed⟩ := indented.1 nested
      rw [above_self, indentOf_inner g held fits (congrArg Option.isSome inner),
        indentOf_tops rooted faithful held.2.1 sizes.1 below]
      exact placed
    rcases List.mem_append.1 listed with listed | listed
    · have member : id ∈ children.places := List.mem_map_of_mem listed
      rw [above_inside distinct member,
        ihChildren held.2.1 inside sizes.1 below indented.2.1 listed nested]
      -- The node above counts if it is an object, and then its children are one deeper.
      have counts : isObjectAt t k = isObject l.name := by
        rw [isObjectAt, here]
        rfl
      by_cases object : isObject l.name = true
      · rw [List.filter_cons_of_pos (counts.trans object), depthBelow, if_pos object,
          List.length_cons]
        congr 1
        omega
      · rw [List.filter_cons_of_neg (by rwa [counts]), depthBelow, if_neg object]
    · have member : id ∈ rest.places := List.mem_map_of_mem listed
      rw [above_beside distinct member]
      exact ihRest held.2.2 beside sizes.2 later indented.2.2 listed nested

/-- What a node is called is the same in trees of one shape, and so are its ancestors. -/
theorem objectsAround_eq {u : ParseTree} (same : t.SameShape u) (rooted : t.Rooted f) {id : NodeId}
    (member : id ∈ f.places) :
    objectsAround u id = {a | a ∈ (f.above id).filter (isObjectAt t)} := by
  have parents : (fun c p => u.parent? c = some p) = fun c p => t.parent? c = some p := by
    funext c p
    rw [same.parent?]
  ext a
  rw [objectsAround, Set.mem_ofPred_eq, Set.mem_ofPred_eq, List.mem_filter,
    ← rooted.above_iff member, ParseTree.Above, ParseTree.Above, parents]
  refine and_congr_right fun _ => ?_
  rw [isObjectAt, ParseTree.label?]
  rcases same.cases a with ⟨here, there⟩ | ⟨n, attrs, here, there⟩ <;> simp [here, there]

/-- In an evaluated tree the depth of the first token of an object or a member is the number of the
objects around it. -/
theorem indentOf_evaluate (rooted : t.Rooted f) (faithful : Faithful (f.map Prod.snd))
    (indented : Indented 0 (f.map Prod.snd)) {id : NodeId} {n : Node}
    (member : id ∈ (g.evaluate t).preOrder) (found : (g.evaluate t).node? id = some n)
    (nested : isNested n.name = true) :
    indentOf (g.evaluate t) id = some (objectsAround (g.evaluate t) id).ncard := by
  have shape := Attribution.sameShape_evaluate g t
  rw [shape.preOrder, rooted.preOrder_eq] at member
  obtain ⟨⟨id, label⟩, listed, rfl⟩ := List.mem_map.1 member
  obtain ⟨children, above, depth, known⟩ := rooted.held.node? listed
  have same : n.name = label.name := by
    rcases shape.cases id with ⟨here, _⟩ | ⟨m, attrs, here, there⟩
    · cases known.symm.trans here
    · cases known.symm.trans here
      cases found.symm.trans there
      rfl
  have distinct := (above_sublist f id).nodup rooted.distinct
  rw [objectsAround_eq shape rooted member, ncard_mem (distinct.filter _),
    indentOf_part rooted faithful rooted.held rooted.distinct
      (rooted.held.size_le rooted.distinct) (fun _ listed => listed) indented listed
      (same ▸ nested), Nat.zero_add]

end

end Procedure

end AttrGrammar
