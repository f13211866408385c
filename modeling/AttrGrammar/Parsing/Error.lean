import AttrGrammar.Token

/-!
Parse errors: the rule that failed, why, and at which token. Together with the tokens an error can
say on which line it lies and show that line.
-/

namespace AttrGrammar

/-- Why a rule failed. -/
inductive ParseFault where
  | terminalMismatch (expected actual : String)
  | unmatchedFirstSet (expected : List String) (actual : String)
  /-- Several alternatives can begin with the next token. -/
  | firstSetsNotDisjoint (candidates : List String) (actual : String)
  | exhaustedInput (expected : List String)
  | trailingTokens (actual : String)
  | unknownRule (name : String)
  /-- The rule called itself without reading a token. -/
  | leftRecursion
  deriving DecidableEq, Inhabited

structure ParseError where
  rule : String
  fault : ParseFault
  /-- The index of the token at which the rule failed; the number of tokens at their end. -/
  index : Nat
  /-- The tokens of the whole input, if they are known. -/
  tokens : List Token := []
  deriving DecidableEq, Inhabited

def ParseFault.message : ParseFault → String
  | terminalMismatch expected actual => s!"expected {expected}, found {actual}"
  | unmatchedFirstSet expected actual =>
    "expected one of [" ++ ", ".intercalate expected ++ "], found " ++ actual
  | firstSetsNotDisjoint candidates actual =>
    actual ++ " starts more than one alternative (" ++ ", ".intercalate candidates ++ ")"
  | exhaustedInput expected =>
    "input ended, expected one of [" ++ ", ".intercalate expected ++ "]"
  | trailingTokens actual => s!"unexpected {actual} after the end of the program"
  | unknownRule name => s!"unknown rule '{name}'"
  | leftRecursion => "the rule reaches itself without reading a token"

/-- The end of a message that says where. -/
def atLine : Option Nat → String
  | some line => s!" at line {line}"
  | none => ""

namespace ParseError

def offending? (e : ParseError) : Option Token := e.tokens[e.index]?

/-- The line of the offending token, or of the last one when the input ended. -/
def line? (e : ParseError) : Option Nat :=
  (e.offending? <|> e.tokens.getLast?).bind Token.line?

def isExhausted (e : ParseError) : Bool :=
  match e.fault with
  | .exhaustedInput _ => true
  | _ => false

def message (e : ParseError) : String :=
  s!"Parse error in '{e.rule}': " ++ e.fault.message ++ atLine e.line?

/-- What stands before a token on its line, joined by spaces, and the token after a space. -/
def appendLexeme (text lexeme : String) : String :=
  (if text.isEmpty then "" else text ++ " ") ++ lexeme

/-- The lexemes on a line with the column and width of the marked one. `text` is what stands
before; `index` is the index of the first token. -/
def lineOf (line marked : Nat) :
    Nat → String → Option (Nat × Nat) → List Token → String × Option (Nat × Nat)
  | _, text, mark, [] => (text, mark)
  | index, text, mark, token :: rest =>
    if token.line? = some line then
      let next := appendLexeme text token.lexeme
      let width := token.lexeme.length
      let mark := if index = marked then some (next.length - width, max width 1) else mark
      lineOf line marked (index + 1) next mark rest
    else lineOf line marked (index + 1) text mark rest

/-- The offending line, with a mark under the offending token, or after the last one. -/
def snippet? (e : ParseError) : Option String :=
  e.line?.map fun line =>
    let (text, mark) := lineOf line e.index 0 "" none e.tokens
    let lead := s!"line {line}: "
    let (start, width) := mark.getD (text.length, 1)
    lead ++ text ++ "\n" ++ "".pushn ' ' (lead.length + start) ++ "".pushn '^' width

end ParseError

end AttrGrammar
