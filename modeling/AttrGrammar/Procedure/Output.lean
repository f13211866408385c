import AttrGrammar.Config.Registry
import AttrGrammar.Json.Printer
import AttrGrammar.Procedure.Stage

/-!
Running registered ways of processing, and the texts of their results: tokens and symbol tables are
written as JSON, trees in nested parentheses, and rendered text stands for itself.
-/

namespace AttrGrammar.Procedure

/-- The result of processing a source, of the kind that the target asks for. -/
inductive Output where
  | tokens (tokens : List Token)
  | tree (tree : ParseTree)
  | symbols (symbols : SymbolTable)
  | text (text : String)
  deriving Inhabited

/-- Runs the registered way of processing of a name. -/
def execute (registry : Registry) (layout : Layout) (g : Attribution) (name source : String) :
    Except CompileError Output :=
  match registry.find? name with
  | none => .error (.config (.notFound name))
  | some processing =>
    match processing.target with
    | .tokens => ((Compilation.lexing g).run source).map .tokens
    | .tree => ((Compilation.toTree g).run source).map .tree
    | .ast => ((Compilation.toAst g).run source).map .tree
    | .symbols => ((Compilation.toSymbols g).run source).map .symbols
    | .render => ((Compilation.toText g layout).run source).map .text

def attrValueJson : AttrValue → Json
  | .int n => .int n
  | .text s => .string s

/-- The values of one kind; none at all are left out. -/
def attrMapJson (kind : AttrKind) (m : AttrMap) : List (String × Json) :=
  if m.isEmpty then []
  else [(kind.name, .object (m.toList.map fun (a, v) => (a.name, attrValueJson v)))]

def attributesJson (attrs : Attributes) : Json :=
  .object (attrMapJson .synthesized attrs.synthesized ++ attrMapJson .inherited attrs.inherited)

def tokenJson (t : Token) : Json :=
  .object ([("name", .string t.name), ("lexeme", .string t.lexeme)] ++
    if t.attrs.isEmpty then [] else [("attrs", attributesJson t.attrs)])

mutual

/-- A value under the name of its type. -/
def valueJson : Value → Json
  | .boolean b => tagged "boolean" (.bool b)
  | .number x => tagged "number" (.float x)
  | .string s => tagged "string" (.string s)
  | .list items => tagged "list" (.array (valuesJson items))
  | .variableRef name => tagged "variable_ref" (.string name)
  | .procedure form args =>
    tagged "procedure" (.object [("form", .string form.name), ("args", .array (valuesJson args))])
  | .unbound => .object [("type", .string "unbound")]
  | .scope => .object [("type", .string "scope")]
where
  tagged (type : String) (value : Json) : Json := .object [("type", .string type), ("value", value)]

def valuesJson : List Value → List Json
  | [] => []
  | value :: rest => valueJson value :: valuesJson rest

end

def symbolsJson (symbols : SymbolTable) : Json :=
  .object (symbols.entries.map fun (name, value) => (name, valueJson value))

def Output.toText : Output → String
  | .tokens ts => (Json.array (ts.map tokenJson)).pretty
  | .tree t => t.outline
  | .symbols table => (symbolsJson table).pretty
  | .text s => s

end AttrGrammar.Procedure
