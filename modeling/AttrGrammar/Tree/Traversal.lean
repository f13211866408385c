import AttrGrammar.Tree.Basic

/-!
Walks over parse trees.

A walk keeps a stack of what is still to be visited. Every node of a tree is reached once, so the
size of the array bounds the number of steps.
-/

namespace AttrGrammar.ParseTree

/-- Visits the nodes of the stack and those below them, parents before children. -/
def preOrderFrom (t : ParseTree) : Nat → List NodeId → List NodeId
  | 0, _ => []
  | _ + 1, [] => []
  | fuel + 1, id :: stack => id :: preOrderFrom t fuel (t.children id ++ stack)

/-- The nodes under a node and the node itself, parents before children. -/
def below (t : ParseTree) (id : NodeId) : List NodeId := t.preOrderFrom t.nodes.size [id]

/-- The nodes of the tree, parents before children. -/
def preOrder (t : ParseTree) : List NodeId := t.preOrderFrom t.nodes.size t.root.toList

/-- Visits the nodes of the stack and those below them, children before parents. A node stands on
the stack a second time, marked, while its children are visited. -/
def postOrderFrom (t : ParseTree) : Nat → List (NodeId × Bool) → List NodeId
  | 0, _ => []
  | _ + 1, [] => []
  | fuel + 1, (id, true) :: stack => id :: postOrderFrom t fuel stack
  | fuel + 1, (id, false) :: stack =>
    postOrderFrom t fuel ((t.children id).map (·, false) ++ (id, true) :: stack)

/-- The nodes of the tree, children before parents. -/
def postOrder (t : ParseTree) : List NodeId :=
  t.postOrderFrom (2 * t.nodes.size) (t.root.toList.map (·, false))

/-- The number of nodes of the tree. -/
def size (t : ParseTree) : Nat := t.preOrder.length

def isLeaf (t : ParseTree) (id : NodeId) : Bool :=
  match t.node? id with
  | some n => n.isLeaf
  | none => false

/-- The leaves under a node, from left to right. -/
def leaves (t : ParseTree) (id : NodeId) : List NodeId := (t.below id).filter t.isLeaf

/-- Goes down first children to a leaf. -/
def firstLeafFrom (t : ParseTree) : Nat → NodeId → Option NodeId
  | 0, _ => none
  | fuel + 1, id =>
    if t.isLeaf id then some id
    else (t.children id).head?.bind (firstLeafFrom t fuel)

/-- The leaf reached through first children only. -/
def firstLeaf? (t : ParseTree) (id : NodeId) : Option NodeId := t.firstLeafFrom t.nodes.size id

def lexemeOf (t : ParseTree) (id : NodeId) : String :=
  match t.node? id with
  | some n => n.lexeme
  | none => ""

/-- The lexemes of the leaves under a node, joined. -/
def text (t : ParseTree) (id : NodeId) : String := String.join ((t.leaves id).map t.lexemeOf)

/-- Whether nothing is active and no node of the tree is open. -/
def isClosed (t : ParseTree) : Bool :=
  t.active.isNone && t.preOrder.all fun id =>
    match t.node? id with
    | some n => !n.isOpen
    | none => true

/-- The names of a node and the nodes under it in nested parentheses. -/
def outlineFrom (t : ParseTree) : Nat → NodeId → String
  | 0, _ => ""
  | fuel + 1, id =>
    match t.node? id with
    | none => ""
    | some n =>
      if n.children.isEmpty then n.name
      else "(" ++ " ".intercalate (n.name :: n.children.map (outlineFrom t fuel)) ++ ")"

def outlineOf (t : ParseTree) (id : NodeId) : String := t.outlineFrom t.nodes.size id

/-- The shape of a tree: the names of its nodes in nested parentheses. -/
def outline (t : ParseTree) : String :=
  match t.root with
  | some id => t.outlineOf id
  | none => "()"

end AttrGrammar.ParseTree
