import AttrGrammar.Decimal.Reading
import AttrGrammar.Procedure.Scope
import AttrGrammar.Procedure.Value

/-!
The symbol table of a program.

Every literal, array, form and object node of the simplified tree has a value, found bottom-up. A
walk from the top then binds names: a bind stores its value under its key, `&let` registers its
parameters as unbound, and `&doc` documents its scope. An object that holds a `&ref` makes its bind
a reference to another name.
-/

namespace AttrGrammar.Procedure

inductive SemanticError where
  /-- A parameter that is no string. -/
  | invalidParameter (found : String) (line : Option Nat)
  | misplacedSpecialForm (form : SpecialForm) (line : Option Nat)
  | malformedLiteral (lexeme : String) (line : Option Nat)
  /-- A node for which no scope was evaluated. -/
  | missingScope (node : String)
  deriving DecidableEq, Repr, Inhabited

def SemanticError.message : SemanticError → String
  | invalidParameter found line =>
    s!"&let parameters must be strings, found {found}" ++ atLine line
  | misplacedSpecialForm form line => s!"&{form.name} cannot appear at the top level" ++ atLine line
  | malformedLiteral lexeme line => s!"malformed literal {lexeme}" ++ atLine line
  | missingScope node => s!"no scope evaluated for '{node}'"

mutual

/-- The value of a JSON value without objects in it. -/
def ofJson? : Json → Option Value
  | .null => some .unbound
  | .bool b => some (.boolean b)
  | .int n => ((Json.int n).asFloat?).map .number
  | .float x => some (.number x)
  | .string s => some (.string s)
  | .array items => (ofJsonItems? items).map .list
  | .object _ => none

def ofJsonItems? : List Json → Option (List Value)
  | [] => some []
  | item :: rest => do
    let value ← ofJson? item
    let values ← ofJsonItems? rest
    some (value :: values)

end

/-- The value of an array from its text. -/
def arrayValue? (lexeme : String) : Option Value :=
  match Json.read lexeme with
  | .ok json => ofJson? json
  | .error _ => none

/-- Values found so far, by node. -/
abbrev Values := List (NodeId × Value)

/-- The value of the second child of a node. -/
def argument? (tree : ParseTree) (values : Values) (id : NodeId) : Option Value :=
  (memberValue? tree id).bind fun child => values.lookup child

/-- The name that a value refers to, if it is a reference. -/
def refTarget? : Value → Option String
  | .procedure .refForm (arg :: _) => arg.string?
  | _ => none

/-- The parameters that a value lists. -/
def listed : Option Value → List Value
  | some (.list items) => items
  | _ => []

/-- The value of a node whose children have theirs; some nodes have none. -/
def nodeValue? (tree : ParseTree) (values : Values) (id : NodeId) (node : Node) :
    Except SemanticError (Option Value) :=
  let literal := fun value? : Option Value =>
    match value? with
    | some value => .ok (some value)
    | none => .error (.malformedLiteral node.lexeme node.attrs.line?)
  match Construct.ofName? node.name with
  | some .string | some .emptyString => literal ((Json.decodeString? node.lexeme).map .string)
  | some .number => literal ((Decimal.read? node.lexeme).map .number)
  | some .boolean => .ok (some (.boolean (node.lexeme == "true")))
  | some .null => .ok (some .unbound)
  | some .array | some .emptyArray => literal (arrayValue? node.lexeme)
  | some .letMember => .ok (some (.procedure .letForm (listed (argument? tree values id))))
  | some .refMember => .ok (some (.procedure .refForm (argument? tree values id).toList))
  | some .docMember => .ok (some (.procedure .docForm (argument? tree values id).toList))
  | some .object =>
    match (tree.children id).findSome? fun child => (values.lookup child).bind refTarget? with
    | some target => .ok (some (.variableRef target))
    | none => .ok (some .scope)
  | some .emptyObject => .ok (some .scope)
  | _ => .ok none

/-- Adds the value of a node. -/
def addValue (tree : ParseTree) (values : Values) (id : NodeId) : Except SemanticError Values :=
  match tree.node? id with
  | none => .ok values
  | some node => do
    match ← nodeValue? tree values id node with
    | some value => .ok ((id, value) :: values)
    | none => .ok values

/-- The values of all nodes that have one. -/
def valuesOf (tree : ParseTree) : Except SemanticError Values :=
  tree.postOrder.foldlM (addValue tree) []

/-- The line of the first token under a node. -/
def lineOf (tree : ParseTree) (id : NodeId) : Option Nat :=
  (tree.firstLeaf? id).bind fun leaf => (tree.node? leaf).bind (·.attrs.line?)

def scopeOf (node : Node) : Except SemanticError String :=
  match node.attrs.scope? with
  | some scope => .ok scope
  | none => .error (.missingScope node.name)

/-- The key of a member. -/
def memberKey (tree : ParseTree) (pair : NodeId) : Except SemanticError String :=
  let lexeme := match (tree.children pair).head? with
    | some key => tree.lexemeOf key
    | none => ""
  match Json.decodeString? lexeme with
  | some key => .ok key
  | none => .error (.malformedLiteral lexeme (lineOf tree pair))

/-- Registers parameters in a scope; a name that has a value keeps it. -/
def registerParams (scope : String) (line : Option Nat) :
    List Value → SymbolTable → Except SemanticError SymbolTable
  | [], table => .ok table
  | .string name :: rest, table =>
    registerParams scope line rest (table.insertNew (join scope name) .unbound)
  | other :: _, _ => .error (.invalidParameter other.kindName line)

/-- The arguments of a special form. -/
def arguments : Option Value → List Value
  | some (.procedure _ args) => args
  | _ => []

/-- Binds the names that a node brings in. -/
def bindNode (tree : ParseTree) (values : Values) (table : SymbolTable) (id : NodeId) :
    Except SemanticError SymbolTable :=
  match tree.node? id with
  | none => .ok table
  | some node =>
    match Construct.ofName? node.name with
    | some .bind => do
      let key ← memberKey tree id
      match argument? tree values id with
      | some value =>
        let scope ← scopeOf node
        .ok (table.insert (join scope key) value)
      | none => .ok table
    | some .letMember => do
      let scope ← scopeOf node
      registerParams scope (lineOf tree id) (arguments (values.lookup id)) table
    | some .docMember =>
      match values.lookup id with
      | some doc => do
        let scope ← scopeOf node
        .ok (table.insert (join scope "&doc") doc)
      | none => .ok table
    | some .refMember =>
      if node.parent = tree.root then
        .error (.misplacedSpecialForm .refForm (lineOf tree id))
      else .ok table
    | _ => .ok table

/-- The symbol table of a simplified tree whose scopes are evaluated. -/
def symbolsOf (tree : ParseTree) : Except SemanticError SymbolTable := do
  let values ← valuesOf tree
  tree.preOrder.foldlM (bindNode tree values) ∅

end AttrGrammar.Procedure
