import AttrGrammar.Procedure.Construct
import AttrGrammar.Tree.Splice

/-!
From parse trees to abstract syntax.

Alternations with their one child, the nodes that only string members together, and punctuation are
cut out. What is left has one node for each construct: `{"a": 1}` becomes
`(program (bind string number))`. A member keeps its key or form first and its value second.
-/

namespace AttrGrammar.Procedure

/-- Nodes that only string members together. -/
def plumbing : List String := ["members", "member_tail", "next_member"]

def punctuation : List String := ["lbrace", "rbrace", "colon", "member_divider"]

/-- Simplifying changes a tree step by step, and leaves it as the steps before a fault made it. -/
abbrev SimplifyM := EStateM TreeError ParseTree

/-- Makes one cut in the tree, which stays as it is if the cut fails. -/
def cut (how : ParseTree → Except TreeError (Nat × ParseTree)) : SimplifyM Unit := fun tree =>
  match how tree with
  | .ok (_, tree) => .ok () tree
  | .error e => .error e tree

/-- Cuts out alternations, then plumbing, then punctuation. -/
def simplify : SimplifyM Unit := do
  cut (·.collapseAll (.kind .alternation))
  cut (·.dissolveAll (.anyOf plumbing))
  cut (·.dissolveAll (.anyOf punctuation))

/-- The simplified tree. -/
def simplified (tree : ParseTree) : Except TreeError ParseTree :=
  match simplify.run tree with
  | .ok _ tree => .ok tree
  | .error e _ => .error e

/-- The value of a member. -/
def memberValue? (tree : ParseTree) (pair : NodeId) : Option NodeId := (tree.children pair)[1]?

end AttrGrammar.Procedure
