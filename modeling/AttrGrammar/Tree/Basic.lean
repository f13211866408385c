import AttrGrammar.Rule
import AttrGrammar.Token

/-!
Parse trees.

The nodes of a tree stand in an array in the order in which they were made, and a node is known by
its place there. While a tree grows it has an active node: `enter` opens a child of it and makes the
child active, `close` goes back to the parent, and `leaf` adds a child without moving. `merge`
grafts another tree, whose nodes then follow in their own order. Nodes that are cut out later stay
in the array, marked as detached.
-/

namespace AttrGrammar

/-- The place of a node in its tree. -/
abbrev NodeId := Nat

structure Node where
  name : String
  kind : RuleKind
  /-- The token of a leaf. -/
  token : Option Token := none
  attrs : Attributes := {}
  children : List NodeId := []
  parent : Option NodeId := none
  /-- Whether children may still be added in the course of parsing. -/
  isOpen : Bool := false
  /-- The number of nodes above this one. -/
  level : Nat := 0
  /-- Whether the node was cut out of its tree. -/
  detached : Bool := false
  deriving DecidableEq, Inhabited

namespace Node

def inner (name : String) (kind : RuleKind) : Node := { name, kind, isOpen := true }

def ofToken (token : Token) (kind : RuleKind) : Node :=
  { name := token.name, kind, token := some token, attrs := token.attrs }

def isLeaf (n : Node) : Bool := n.token.isSome

/-- The lexeme of a leaf; an inner node has an empty one. -/
def lexeme (n : Node) : String :=
  match n.token with
  | some t => t.lexeme
  | none => ""

end Node

structure ParseTree where
  nodes : Array Node := #[]
  root : Option NodeId := none
  active : Option NodeId := none
  deriving DecidableEq, Inhabited

namespace ParseTree

def node? (t : ParseTree) (id : NodeId) : Option Node := t.nodes[id]?

def children (t : ParseTree) (id : NodeId) : List NodeId :=
  match t.node? id with
  | some n => n.children
  | none => []

def parent? (t : ParseTree) (id : NodeId) : Option NodeId := (t.node? id).bind (·.parent)

def isEmpty (t : ParseTree) : Bool := t.root.isNone

def modify (t : ParseTree) (id : NodeId) (change : Node → Node) : ParseTree :=
  { t with nodes := t.nodes.modify id change }

def setAttr (t : ParseTree) (id : NodeId) (kind : AttrKind) (a : Attr) (v : AttrValue) :
    ParseTree :=
  t.modify id fun n => { n with attrs := n.attrs.set kind a v }

/-- Where new nodes go: under the active node, or under the root once nothing is active. -/
def attachPoint (t : ParseTree) : Option NodeId := t.active <|> t.root

/-- The level of a new child of a node. -/
def levelUnder (t : ParseTree) : Option NodeId → Nat
  | some p => (match t.node? p with
    | some n => n.level + 1
    | none => 0)
  | none => 0

/-- Adds a child to a node, or makes it the root. -/
def attach (t : ParseTree) (parent : Option NodeId) (child : NodeId) : ParseTree :=
  match parent with
  | some p => t.modify p fun n => { n with children := n.children ++ [child] }
  | none => { t with root := some child }

/-- Adds a node at the end of the array and under the attach point. -/
def push (t : ParseTree) (n : Node) : NodeId × ParseTree :=
  let parent := t.attachPoint
  let id := t.nodes.size
  let n := { n with parent, level := t.levelUnder parent }
  (id, ({ t with nodes := t.nodes.push n }).attach parent id)

/-- Opens a child of the active node and makes it active. -/
def enter (t : ParseTree) (name : String) (kind : RuleKind) : NodeId × ParseTree :=
  let (id, t) := t.push (.inner name kind)
  (id, { t with active := some id })

/-- Adds a leaf under the active node. -/
def leaf (t : ParseTree) (token : Token) (kind : RuleKind) : NodeId × ParseTree :=
  t.push (.ofToken token kind)

/-- Closes the active node and makes its parent active. -/
def close (t : ParseTree) : Option NodeId × ParseTree :=
  match t.active with
  | none => (none, t)
  | some id =>
    (some id, { t.modify id fun n => { n with isOpen := false } with active := t.parent? id })

/-- A node moved to other places in the array and other levels. -/
def shifted (offset base : Nat) (n : Node) : Node :=
  { n with
    children := n.children.map (· + offset)
    parent := n.parent.map (· + offset)
    level := n.level + base }

/-- Grafts another tree under the active node. An empty one changes nothing. -/
def merge (t other : ParseTree) : ParseTree :=
  match other.root with
  | none => t
  | some top =>
    let offset := t.nodes.size
    let parent := t.attachPoint
    let moved := other.nodes.map (shifted offset (t.levelUnder parent))
    let t := ({ t with nodes := t.nodes ++ moved }).attach parent (top + offset)
    match parent with
    | some p => t.modify (top + offset) fun n => { n with parent := some p }
    | none => t

end ParseTree

end AttrGrammar
