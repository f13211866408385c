import AttrGrammar.Config.Error
import AttrGrammar.Procedure.Input
import AttrGrammar.Procedure.Symbols

/-! Why a source does not compile: the error of the step that stopped, under one type. -/

namespace AttrGrammar.Procedure

inductive CompileError where
  | input (e : InputError)
  | grammar (e : GrammarError)
  | scan (e : ScanError)
  | parse (e : ParseError)
  | tree (e : TreeError)
  | semantic (e : SemanticError)
  | config (e : ConfigError)
  | unknownForm (form : UnknownForm)
  /-- The root of a tree has no value for an attribute that is asked for. -/
  | missingAttribute (a : Attr) (rule : String)
  | output (reason : String)
  deriving DecidableEq, Inhabited

namespace CompileError

/-- The message of the step that stopped, if it has an error of its own. -/
def cause? : CompileError → Option String
  | input e => some e.message
  | grammar e => some e.message
  | scan e => some e.message
  | parse e => some e.message
  | tree e => some e.message
  | semantic e => some e.message
  | config e => some e.message
  | unknownForm _ | missingAttribute .. | output _ => none

def message : CompileError → String
  | input e => s!"Invalid input: {e.message}"
  | grammar e => s!"Grammar error: {e.message}"
  | scan e => s!"Lexing failed: {e.message}"
  | parse e => s!"Parsing failed: {e.message}"
  | tree e => s!"Tree transform failed: {e.message}"
  | semantic e => s!"Semantic error: {e.message}"
  | config e => s!"Configuration error: {e.message}"
  | unknownForm form => form.message
  | missingAttribute a rule => s!"No '{a.name}' attribute on '{rule}'"
  | output reason => s!"Output failed: {reason}"

/-- The line of the source that an error points at. -/
def line? : CompileError → Option Nat
  | input (.malformed _ line _) => some line
  | scan (.unexpectedCharacter _ line _) => some line
  | scan (.unterminatedInput _ line) => some line
  | parse e => e.line?
  | semantic (.invalidParameter _ line) => line
  | semantic (.misplacedSpecialForm _ line) => line
  | semantic (.malformedLiteral _ line) => line
  | unknownForm form => form.line
  | _ => none

end CompileError

end AttrGrammar.Procedure
