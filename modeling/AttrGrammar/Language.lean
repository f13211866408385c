import AttrGrammar.Folding
import AttrGrammar.Parsing.Descent
import AttrGrammar.Scanner

/-!
Languages: a scanner, a fold plan and the two grammars behind them.

The token grammar holds what is scanned and folded, the program grammar what is parsed. A language
may name a terminal for special forms that it does not know; a token of that name is refused after
folding.
-/

namespace AttrGrammar

/-- A special form that the language does not know. -/
structure UnknownForm where
  name : String
  line : Option Nat
  deriving DecidableEq, Repr, Inhabited

def UnknownForm.message (form : UnknownForm) : String :=
  s!"Unknown special form '&{form.name}'" ++ atLine form.line

/-- The name of a special form: its lexeme without the quotes around it and the ampersands before
it. -/
def formName (lexeme : String) : String :=
  let inner := lexeme.toList.dropWhile (· = '"')
  let inner := (inner.reverse.dropWhile (· = '"')).reverse
  String.ofList (inner.dropWhile (· = '&'))

/-- Refuses the first token of a name. -/
def checkForms (unknown : String) (tokens : List Token) : Except UnknownForm Unit :=
  match tokens.find? (·.name == unknown) with
  | some token => .error { name := formName token.lexeme, line := token.line? }
  | none => .ok ()

structure Language where
  name : String
  tokens : Grammar
  program : Grammar
  scanner : Scanner
  plan : FoldPlan
  /-- The terminal for unknown special forms. -/
  unknownForm : Option String := none
  deriving Inhabited

namespace Language

/-- Resolves the scanner and checks the fold plan against the token grammar. -/
def make (name : String) (tokens program : Grammar) (spec : LexerSpec) (plan : FoldPlan) :
    Except GrammarError Language := do
  let scanner ← Scanner.ofSpec tokens spec
  let _ ← plan.folds tokens
  .ok { name, tokens, program, scanner, plan }

/-- Names the terminal for unknown special forms. -/
def withUnknownForm (l : Language) (terminal : String) : Except GrammarError Language := do
  let _ ← l.tokens.rule terminal
  .ok { l with unknownForm := some terminal }

def scan (l : Language) (hooks : Scanner.Hooks) (source : String) :
    Except ScanError (List Token) :=
  l.scanner.scan hooks source

def fold (l : Language) (combine : Combiner) (tokens : List Token) :
    Except GrammarError (List Token) :=
  l.plan.run l.tokens combine tokens

def checkForms (l : Language) (tokens : List Token) : Except UnknownForm Unit :=
  match l.unknownForm with
  | some unknown => AttrGrammar.checkForms unknown tokens
  | none => .ok ()

end Language

end AttrGrammar
