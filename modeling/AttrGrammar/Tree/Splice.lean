import AttrGrammar.Tree.Traversal

/-!
Cutting nodes out of finished trees.

A node that is cut out leaves its children in its place. `collapse` cuts out a node with exactly
one child, `dissolve` any node, except a root whose children would become several roots.
`collapseAll` and `dissolveAll` go through all matching nodes in the order of the tree as it was.
-/

namespace AttrGrammar

inductive TreeError where
  /-- The tree is not finished. -/
  | stillOpen
  /-- The node was cut out before, or never belonged to the tree. -/
  | detached (id : NodeId)
  | severalRoots (id : NodeId)
  deriving DecidableEq, Repr, Inhabited

def TreeError.message : TreeError → String
  | stillOpen => "Tree is still under construction"
  | detached id => s!"Node #{id} is not part of the tree"
  | severalRoots id => s!"Cannot remove root #{id}: it has several children"

/-- Selects nodes by kind or by name. -/
inductive NodeMatch where
  | kind (kind : RuleKind)
  | name (name : String)
  | anyOf (names : List String)
  deriving DecidableEq, Repr, Inhabited

def NodeMatch.accepts : NodeMatch → Node → Bool
  | kind k, n => n.kind == k
  | name s, n => n.name == s
  | anyOf names, n => names.contains n.name

namespace ParseTree

def isMatch (t : ParseTree) (m : NodeMatch) (id : NodeId) : Bool :=
  match t.node? id with
  | some n => m.accepts n
  | none => false

/-- The matching nodes of the tree, parents before children. -/
def findAll (t : ParseTree) (m : NodeMatch) : List NodeId := t.preOrder.filter (t.isMatch m)

/-- Sets the levels of the nodes on the stack and of those below them. -/
def relevelFrom : Nat → List (NodeId × Nat) → ParseTree → ParseTree
  | 0, _, t => t
  | _ + 1, [], t => t
  | fuel + 1, (id, level) :: stack, t =>
    relevelFrom fuel ((t.children id).map (·, level + 1) ++ stack)
      (t.modify id fun n => { n with level })

/-- Sets the level of a node and those of the nodes under it. -/
def relevel (t : ParseTree) (id : NodeId) (level : Nat) : ParseTree :=
  relevelFrom t.nodes.size [(id, level)] t

/-- A list with one of its members replaced by others. -/
def replaceOne (id : NodeId) (others : List NodeId) : List NodeId → List NodeId
  | [] => []
  | x :: rest => if x = id then others ++ rest else x :: replaceOne id others rest

/-- Puts the children of a node in its place and detaches it. -/
def spliceOut (t : ParseTree) (id : NodeId) : ParseTree :=
  match t.node? id with
  | none => t
  | some n =>
    let t := t.modify id fun n => { n with children := [], parent := none, detached := true }
    let t := n.children.foldl
      (fun t child => (t.modify child fun c => { c with parent := n.parent }).relevel child n.level)
      t
    match n.parent with
    | some p => t.modify p fun q => { q with children := replaceOne id n.children q.children }
    | none => { t with root := n.children.head? }

def checkClosed (t : ParseTree) : Except TreeError Unit :=
  if t.isClosed then .ok () else .error .stillOpen

def isDetached (t : ParseTree) (id : NodeId) : Bool :=
  match t.node? id with
  | some n => n.detached
  | none => true

def checkAttached (t : ParseTree) (id : NodeId) : Except TreeError Unit := do
  t.checkClosed
  if t.isDetached id then .error (.detached id) else .ok ()

/-- Cuts out a node if it has exactly one child, and tells whether it did. -/
def collapseAt (t : ParseTree) (id : NodeId) : Bool × ParseTree :=
  if (t.children id).length = 1 then (true, t.spliceOut id) else (false, t)

/-- Cuts out a node, unless that would leave several roots. -/
def dissolveAt (t : ParseTree) (id : NodeId) : Except TreeError ParseTree :=
  if (t.parent? id).isNone && (t.children id).length > 1 then .error (.severalRoots id)
  else .ok (t.spliceOut id)

def collapse (t : ParseTree) (id : NodeId) : Except TreeError (Bool × ParseTree) := do
  t.checkAttached id
  .ok (t.collapseAt id)

def dissolve (t : ParseTree) (id : NodeId) : Except TreeError ParseTree := do
  t.checkAttached id
  t.dissolveAt id

/-- Reduces the nodes in turn, counting those that were cut out. -/
def collapseEach : List NodeId → Nat × ParseTree → Nat × ParseTree
  | [], state => state
  | id :: rest, (count, t) =>
    if t.isDetached id then collapseEach rest (count, t)
    else
      let (reduced, t) := t.collapseAt id
      collapseEach rest (if reduced then count + 1 else count, t)

/-- Reduces every matching node, and tells how many were cut out. -/
def collapseAll (t : ParseTree) (m : NodeMatch) : Except TreeError (Nat × ParseTree) := do
  t.checkClosed
  .ok (collapseEach (t.findAll m) (0, t))

/-- Removes the nodes in turn, counting them. -/
def dissolveEach : List NodeId → Nat × ParseTree → Except TreeError (Nat × ParseTree)
  | [], state => .ok state
  | id :: rest, (count, t) =>
    if t.isDetached id then dissolveEach rest (count, t)
    else do
      let t ← t.dissolveAt id
      dissolveEach rest (count + 1, t)

/-- Follows matching nodes with one child down from `current`; one with several children cannot be
removed as the root it would have become by then. -/
def checkChainFrom (t : ParseTree) (m : NodeMatch) : Nat → Option NodeId → Except TreeError Unit
  | 0, _ => .ok ()
  | _ + 1, none => .ok ()
  | fuel + 1, some id =>
    if t.isMatch m id then
      match t.children id with
      | [] => .ok ()
      | [only] => checkChainFrom t m fuel (some only)
      | _ => .error (.severalRoots id)
    else .ok ()

/-- Removes every matching node, and tells how many there were; or changes nothing, when that would
leave several roots. -/
def dissolveAll (t : ParseTree) (m : NodeMatch) : Except TreeError (Nat × ParseTree) := do
  t.checkClosed
  t.checkChainFrom m t.nodes.size t.root
  dissolveEach (t.findAll m) (0, t)

end ParseTree

end AttrGrammar
