import AttrGrammar.Procedure.CompileError
import AttrGrammar.Procedure.Canonical

/-!
Compiling and rendering programs.

Both check the input, scan, fold, look for unknown special forms and parse. Compiling goes on to
simplify the tree, evaluate scopes and build the symbol table; rendering evaluates what the nodes
render as. An attribution that lacks the attribute in question is extended by it.
-/

namespace AttrGrammar.Procedure

/-- What a program with members compiles to. -/
structure Environment where
  source : String
  /-- The simplified tree with its attributes. -/
  tree : ParseTree
  symbols : SymbolTable
  deriving Inhabited

/-- Scans, folds and refuses unknown special forms. -/
def tokenize (source : String) (g : Attribution) : Except CompileError (List Token) := do
  let scanned ← (g.language.scan g.annotate source).mapError .scan
  let tokens ← (g.language.fold g.combine scanned).mapError .grammar
  (g.language.checkForms tokens).mapError .unknownForm
  .ok tokens

/-- An attribution with scopes. -/
def withScope (g : Attribution) : Attribution := if g.declares .scope then g else semantic g

/-- An attribution with rendering, in the given layout unless it renders already. -/
def withRender (g : Attribution) (layout : Layout) : Attribution :=
  if g.declares .render then g else printer g layout

def parse (g : Attribution) (tokens : List Token) : Except CompileError ParseTree :=
  (g.language.program.buildTree tokens).mapError .parse

/-- The symbol table of a source; none for an object without members. -/
def compile (source : String) (g : Attribution) : Except CompileError (Option Environment) := do
  match ← (checkInput source).mapError .input with
  | .empty => .ok none
  | .program =>
    let g := withScope g
    let tokens ← tokenize source g
    let tree ← parse g tokens
    let simplified ← (simplified tree).mapError .tree
    let tree := g.evaluate simplified
    let symbols ← (symbolsOf tree).mapError .semantic
    .ok (some { source, tree, symbols })

/-- What the root of an evaluated tree renders as. -/
def rootText (tree : ParseTree) : Except CompileError String :=
  let root := tree.root.bind tree.node?
  match root.bind (·.attrs.render?) with
  | some text => .ok text
  | none => .error (.missingAttribute .render ((root.map (·.name)).getD ""))

/-- A source in canonical layout. -/
def render (source : String) (g : Attribution) : Except CompileError String := do
  let _ ← (checkInput source).mapError .input
  let g := withRender g {}
  let tokens ← tokenize source g
  let tree ← parse g tokens
  rootText (g.evaluate tree)

/-- The source of a compiled program in canonical layout. -/
def Environment.text (env : Environment) (g : Attribution) : Except CompileError String :=
  render env.source g

end AttrGrammar.Procedure
