import AttrGrammar.Language
import AttrGrammar.Tree.Traversal

/-!
Attribute grammars: which attributes the tokens and nodes of a language carry, and how their values
are found.

A token hook runs once for each scanned token. When tokens are folded, a policy says what the new
token keeps of the values of its parts. A node hook runs once for each node of a tree: first those
of inherited attributes, parents before children, then those of synthesized ones on inner nodes,
children before parents.
-/

namespace AttrGrammar

/-- What a folded token keeps of an attribute. -/
inductive FoldPolicy where
  /-- The first value among the parts. -/
  | first
  /-- The values of all parts joined, with the lexeme of a part that has no value. -/
  | concat
  | drop
  deriving DecidableEq, Repr, Inhabited

/-- The rules to whose tokens and nodes an attribute belongs. -/
inductive RuleSet where
  | all
  | only (names : NameSet)
  deriving DecidableEq

def RuleSet.contains : RuleSet → String → Bool
  | all, _ => true
  | only names, name => names.contains name

abbrev TokenHook := Token → ScanContext → Option AttrValue

abbrev NodeHook := ParseTree → NodeId → Option AttrValue

structure AttrDecl where
  attr : Attr
  kind : AttrKind
  appliesTo : RuleSet := .all
  tokenHook : Option TokenHook := none
  nodeHook : Option NodeHook := none
  fold : FoldPolicy := .first

structure Attribution where
  name : String
  language : Language
  decls : List AttrDecl := []

namespace Attribution

/-- Adds a declaration in place of any earlier one of the same attribute. -/
def declare (g : Attribution) (decl : AttrDecl) : Attribution :=
  { g with decls := g.decls.filter (·.attr != decl.attr) ++ [decl] }

/-- The same declarations under another name. -/
def derive (g : Attribution) (name : String) : Attribution := { g with name }

def decl? (g : Attribution) (a : Attr) : Option AttrDecl := g.decls.find? (·.attr == a)

def declares (g : Attribution) (a : Attr) : Bool := (g.decl? a).isSome

def foldPolicy (g : Attribution) (a : Attr) : FoldPolicy :=
  match g.decl? a with
  | some decl => decl.fold
  | none => .first

/-- The value that a declaration gives a token, if it belongs to the token and has one. -/
def tokenValue? (decl : AttrDecl) (token : Token) (context : ScanContext) : Option AttrValue :=
  if decl.appliesTo.contains token.name then decl.tokenHook.bind fun hook => hook token context
  else none

/-- Runs the token hooks in the order of their declaration. -/
def annotate (g : Attribution) : Scanner.Hooks := fun token context =>
  g.decls.foldl
    (fun token decl =>
      match tokenValue? decl token context with
      | some v => { token with attrs := token.attrs.set decl.kind decl.attr v }
      | none => token)
    token

/-- The value of an attribute as text; a token without one counts with its lexeme. -/
def valueText (a : Attr) (token : Token) : String :=
  match token.attrs.synthesized.get? a with
  | some v => v.display
  | none => token.lexeme

/-- What a policy keeps of an attribute of neighbouring tokens, at least one of which has it. -/
def keptValue? (policy : FoldPolicy) (a : Attr) (parts : List Token) : Option AttrValue :=
  match policy with
  | .first => parts.findSome? fun t => t.attrs.synthesized.get? a
  | .concat => some (.text (String.join (parts.map (valueText a))))
  | .drop => none

/-- The value a folded token has for an attribute. -/
def foldedValue? (g : Attribution) (parts : List Token) (a : Attr) : Option AttrValue :=
  if parts.any fun t => (t.attrs.synthesized.get? a).isSome then
    keptValue? (g.foldPolicy a) a parts
  else none

/-- Joins the lexemes and keeps synthesized attributes by their policies. -/
def combine (g : Attribution) : Combiner := fun name parts =>
  { name
    lexeme := Token.joinLexemes parts
    attrs :=
      { synthesized :=
        { line := g.foldedValue? parts .line
          indent := g.foldedValue? parts .indent
          render := g.foldedValue? parts .render
          scope := g.foldedValue? parts .scope } } }

/-- The declarations of a kind that have a node hook. -/
def hooked (g : Attribution) (kind : AttrKind) : List (AttrDecl × NodeHook) :=
  (g.decls.filter (·.kind == kind)).filterMap fun decl => decl.nodeHook.map (decl, ·)

/-- Runs node hooks on a node, each on the tree that the ones before it left. -/
def applyHooks (hooks : List (AttrDecl × NodeHook)) (tree : ParseTree) (id : NodeId) : ParseTree :=
  hooks.foldl
    (fun tree (decl, hook) =>
      match tree.node? id with
      | none => tree
      | some node =>
        if decl.appliesTo.contains node.name then
          match hook tree id with
          | some v => tree.setAttr id decl.kind decl.attr v
          | none => tree
        else tree)
    tree

/-- Runs all node hooks over a tree. Leaves keep what their tokens brought along. -/
def evaluate (g : Attribution) (tree : ParseTree) : ParseTree :=
  let tree := tree.preOrder.foldl (applyHooks (g.hooked .inherited)) tree
  (tree.postOrder.filter fun id => !tree.isLeaf id).foldl (applyHooks (g.hooked .synthesized)) tree

/-- A word with a capital letter. -/
def capitalized (word : String) : String :=
  match word.toList with
  | c :: rest => String.ofList (c.toUpper :: rest)
  | [] => ""

def FoldPolicy.label : FoldPolicy → String
  | .first => "First"
  | .concat => "Concat"
  | .drop => "Drop"

def RuleSet.label : RuleSet → String
  | .all => "All"
  | .only names =>
    "Only(\x7b" ++ ", ".intercalate (names.toList.map Text.quoted) ++ "\x7d)"

/-- A name with fields in braces. -/
def record (name : String) (fields : List (String × String)) : String :=
  name ++ " \x7b " ++ ", ".intercalate (fields.map fun (field, value) => field ++ ": " ++ value) ++
    " \x7d"

def describeDecl (decl : AttrDecl) : String :=
  record "AttrDecl" [
    ("attr", capitalized decl.attr.name),
    ("kind", capitalized decl.kind.name),
    ("applies_to", RuleSet.label decl.appliesTo),
    ("token_hook", toString decl.tokenHook.isSome),
    ("node_hook", toString decl.nodeHook.isSome),
    ("fold", FoldPolicy.label decl.fold)]

/-- The declarations as one line of text. -/
def describe (g : Attribution) : String :=
  record "AttributeGrammar" [
    ("name", Text.quoted g.name),
    ("language", Text.quoted g.language.name),
    ("decls", "[" ++ ", ".intercalate (g.decls.map describeDecl) ++ "]")]

end Attribution

end AttrGrammar
