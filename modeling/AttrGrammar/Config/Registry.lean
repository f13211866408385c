import AttrGrammar.Config.Error
import AttrGrammar.Table
import AttrGrammar.Yaml.Reader

/-!
Named ways to process a source, and registries of them.

A registry has one entry for each name and lists them in the order of their names.
-/

namespace AttrGrammar

/-- What processing ends with. -/
inductive Target where
  | tokens
  | tree
  | ast
  | symbols
  | render
  deriving DecidableEq, Repr, Inhabited

namespace Target

def all : List Target := [tokens, tree, ast, symbols, render]

def name : Target → String
  | tokens => "tokens"
  | tree => "tree"
  | ast => "ast"
  | symbols => "symbols"
  | render => "render"

def ofName? (name : String) : Option Target := all.find? (·.name == name)

end Target

structure Processing where
  name : String
  description : String := ""
  target : Target
  deriving DecidableEq, Repr, Inhabited

abbrev Registry := Table Processing

namespace Registry

/-- Puts an entry in, in place of one of the same name. -/
def register (r : Registry) (p : Processing) : Registry := r.insert p.name p

/-- The entries in the order of their names. -/
def list (r : Registry) : List Processing :=
  (r.entries.map (·.2)).mergeSort fun p q => decide (p.name ≤ q.name)

/-- One entry for each target, under its name. -/
def defaults : Registry :=
  [("Lex and fold, output tokens", Target.tokens),
    ("Parse, output the full parse tree", .tree),
    ("Parse and simplify, output the AST", .ast),
    ("Run the semantic pass, output the symbol table", .symbols),
    ("Run the printer, output formatted source", .render)].foldl
    (fun r (description, target) => register r { name := target.name, description, target }) ∅

/-- The fields of an entry found so far. -/
structure Fields where
  name : Option String := none
  description : Option String := none
  target : Option Target := none
  deriving DecidableEq, Repr, Inhabited

/-- Takes a member of a mapping. A field comes once; other members are passed over. -/
def addMember? (fields : Fields) (member : Yaml × Yaml) : Option Fields := do
  match ← member.1.text? with
  | "name" =>
    if fields.name.isSome then none
    else member.2.text?.map fun text => { fields with name := some text }
  | "description" =>
    if fields.description.isSome then none
    else member.2.text?.map fun text => { fields with description := some text }
  | "target" =>
    if fields.target.isSome then none
    else (member.2.text?.bind Target.ofName?).map fun t => { fields with target := some t }
  | _ => some fields

/-- The entry that a mapping describes. Its name and its target must be given. -/
def ofMapping? (value : Yaml) : Option Processing := do
  let fields ← (← value.members?).foldlM addMember? {}
  let name ← fields.name
  let target ← fields.target
  some { name, description := fields.description.getD "", target }

/-- The default entries and those listed in a YAML text. -/
def ofYaml (text : String) : Except ConfigError Registry := do
  let value ← (Yaml.read text).mapError fun fault => .yaml fault.message
  match value.items?.bind fun items => items.mapM ofMapping? with
  | some entries => .ok (entries.foldl register defaults)
  | none => .error (.yaml "not a list of entries")

end Registry

end AttrGrammar
