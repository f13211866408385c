import AttrGrammar.Pipeline
import AttrGrammar.Procedure.Environment

/-! The steps of compiling as stages of pipelines, and the usual pipelines made of them. -/

namespace AttrGrammar.Procedure

namespace Stage

/-- Refuses a text that is no program and passes on any other. -/
def inputCheck : Stage CompileError String String :=
  { name := "InputCheck"
    run := fun source => (checkInput source).mapError .input |>.map fun _ => source }

def tokenization (g : Attribution) : Stage CompileError String (List Token) :=
  { name := "Tokenization"
    run := fun source => (g.language.scan g.annotate source).mapError .scan }

def folding (g : Attribution) : Stage CompileError (List Token) (List Token) :=
  { name := "Folding"
    run := fun tokens => (g.language.fold g.combine tokens).mapError .grammar }

/-- Refuses tokens with an unknown special form and passes on all others. -/
def specialFormCheck (g : Attribution) : Stage CompileError (List Token) (List Token) :=
  { name := "SpecialFormCheck"
    run := fun tokens =>
      (g.language.checkForms tokens).mapError .unknownForm |>.map fun _ => tokens }

def treeBuilding (g : Attribution) : Stage CompileError (List Token) ParseTree :=
  { name := "TreeBuilding", run := parse g }

def astSimplification : Stage CompileError ParseTree ParseTree :=
  { name := "AstSimplification", run := fun tree => (simplified tree).mapError .tree }

def evaluation (g : Attribution) : Stage CompileError ParseTree ParseTree :=
  { name := "Evaluation", run := fun tree => .ok (g.evaluate tree) }

def rendering : Stage CompileError ParseTree String :=
  { name := "Rendering", run := rootText }

def semanticAnalysis : Stage CompileError ParseTree SymbolTable :=
  { name := "SemanticAnalysis", run := fun tree => (symbolsOf tree).mapError .semantic }

end Stage

namespace Compilation

/-- From a source to folded tokens. -/
def lexing (g : Attribution) : Pipeline CompileError String (List Token) :=
  Pipeline.start.andThen Stage.inputCheck |>.andThen (Stage.tokenization g)
    |>.andThen (Stage.folding g) |>.andThen (Stage.specialFormCheck g)

/-- From a source to its parse tree. -/
def toTree (g : Attribution) : Pipeline CompileError String ParseTree :=
  (lexing g).andThen (Stage.treeBuilding g)

/-- From a source to its simplified tree with attributes. -/
def toAst (g : Attribution) : Pipeline CompileError String ParseTree :=
  (toTree g).andThen Stage.astSimplification |>.andThen (Stage.evaluation g)

/-- From a source to its symbol table. -/
def toSymbols (g : Attribution) : Pipeline CompileError String SymbolTable :=
  (toAst (withScope g)).andThen Stage.semanticAnalysis

/-- From a source to its canonical text. -/
def toText (g : Attribution) (layout : Layout) : Pipeline CompileError String String :=
  let g := withRender g layout
  (toTree g).andThen (Stage.evaluation g) |>.andThen Stage.rendering

end Compilation

end AttrGrammar.Procedure
