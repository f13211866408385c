import AttrGrammar.Grammar.Basic
import AttrGrammar.Token

/-!
Scanning a source with modes.

A mode lists terminals and what to do after each. At every place the longest match wins, and of
equally long ones the first listed; an empty match never counts. Modes stand on a stack: a push goes
into a string or a bracketed region, a pop goes back. The depth of a token is the number of nesting
modes on the stack, before a push and after a pop, so that both brackets of a region have the depth
of what surrounds it.
-/

namespace AttrGrammar

/-- What to do after a match; `mode` says how modes are named. -/
inductive ScanAction (mode : Type) where
  | emit
  | skip
  /-- Keeps the token and goes into a mode. -/
  | push (target : mode)
  /-- Keeps the token and goes back to the mode before. -/
  | pop
  deriving DecidableEq, Inhabited

/-- A terminal of a mode, by its name. -/
structure ModeRule where
  terminal : String
  action : ScanAction String
  deriving DecidableEq, Inhabited

structure LexMode where
  name : String
  /-- Whether tokens inside lie one level deeper. -/
  nesting : Bool
  rules : List ModeRule
  deriving DecidableEq, Inhabited

/-- A scanner written down with names. -/
structure LexerSpec where
  initial : String
  modes : List LexMode
  deriving DecidableEq, Inhabited

/-- Where a token begins. -/
structure ScanContext where
  line : Nat
  column : Nat
  depth : Nat
  deriving DecidableEq, Inhabited

inductive ScanError where
  | unexpectedCharacter (found : Char) (line column : Nat)
  /-- The source ended inside a string or a bracketed region. -/
  | unterminatedInput (mode : String) (line : Nat)
  deriving DecidableEq, Inhabited

def ScanError.message : ScanError → String
  | unexpectedCharacter found line column =>
    s!"Unexpected character {Text.quotedChar found} at line {line}, column {column}"
  | unterminatedInput mode line => s!"Input ends inside {mode} (line {line})"

/-- A terminal of a mode, with its matcher and with modes by their places. -/
structure ScanRule where
  terminal : String
  matcher : Matcher
  action : ScanAction Nat
  deriving DecidableEq, Inhabited

structure ScanMode where
  name : String
  nesting : Bool
  rules : List ScanRule
  deriving DecidableEq, Inhabited

/-- A scanner whose terminals and modes are resolved. -/
structure Scanner where
  modes : List ScanMode
  /-- The place of the mode to begin in. -/
  initial : Nat
  deriving DecidableEq, Inhabited

namespace Scanner

/-- The place of the first mode with a name. -/
def modeIndex (spec : LexerSpec) (name : String) : Except GrammarError Nat :=
  match spec.modes.findIdx? (·.name == name) with
  | some i => .ok i
  | none => .error (.unknownLexMode name)

def resolveAction (spec : LexerSpec) : ScanAction String → Except GrammarError (ScanAction Nat)
  | .emit => .ok .emit
  | .skip => .ok .skip
  | .push target => (modeIndex spec target).map .push
  | .pop => .ok .pop

/-- Looks up the terminal of a mode; only a terminal that has a matcher can be scanned. -/
def resolveRule (g : Grammar) (spec : LexerSpec) (rule : ModeRule) :
    Except GrammarError ScanRule := do
  let terminal ← g.rule rule.terminal
  match terminal.matcher with
  | some matcher =>
    if terminal.isTerminal then
      let action ← resolveAction spec rule.action
      .ok { terminal := rule.terminal, matcher, action }
    else .error (.cannotMakeTerminal terminal.name)
  | none => .error (.cannotMakeTerminal terminal.name)

def resolveMode (g : Grammar) (spec : LexerSpec) (mode : LexMode) :
    Except GrammarError ScanMode := do
  let rules ← mode.rules.mapM (resolveRule g spec)
  .ok { name := mode.name, nesting := mode.nesting, rules }

/-- Resolves what is written down by name, taking terminals from a grammar. -/
def ofSpec (g : Grammar) (spec : LexerSpec) : Except GrammarError Scanner := do
  let modes ← spec.modes.mapM (resolveMode g spec)
  let initial ← modeIndex spec spec.initial
  .ok { modes, initial }

/-- The longest match of the rules at the start of a text, the first of equally long ones. Only
matches longer than `best` count. -/
def longestFrom (text : List Char) : Nat → List ScanRule → Option (Nat × ScanRule)
  | _, [] => none
  | best, rule :: rest =>
    match rule.matcher.length? text with
    | some n =>
      if n > best then (longestFrom text n rest) <|> some (n, rule)
      else longestFrom text best rest
    | none => longestFrom text best rest

/-- The mode on top of a stack. -/
def top? (s : Scanner) (stack : List Nat) : Option ScanMode :=
  stack.head?.bind fun i => s.modes[i]?

/-- The match to take at the start of a text in the mode on top of the stack. -/
def longest? (s : Scanner) (stack : List Nat) (text : List Char) : Option (Nat × ScanRule) :=
  (s.top? stack).bind fun mode => longestFrom text 0 mode.rules

/-- The number of nesting modes on a stack. -/
def depth (s : Scanner) (stack : List Nat) : Nat :=
  stack.countP fun i =>
    match s.modes[i]? with
    | some mode => mode.nesting
    | none => false

/-- The stack after an action, and the depth of its token. The first mode cannot be left. -/
def act (s : Scanner) (stack : List Nat) : ScanAction Nat → Option (List Nat × Nat)
  | .emit | .skip => some (stack, s.depth stack)
  | .push target => some (target :: stack, s.depth stack)
  | .pop =>
    match stack with
    | _ :: below :: rest => some (below :: rest, s.depth (below :: rest))
    | _ => none

/-- The line and column after a text. -/
def advance (place : Nat × Nat) (text : List Char) : Nat × Nat :=
  text.foldl (fun (line, column) c => if c = '\n' then (line + 1, 1) else (line, column + 1)) place

theorem advance_append (place : Nat × Nat) (first second : List Char) :
    advance place (first ++ second) = advance (advance place first) second := List.foldl_append

/-- What is done to each token that is kept. -/
abbrev Hooks := Token → ScanContext → Token

/-- Scans a text from a line and column with a stack of modes. -/
def scanFrom (s : Scanner) (hooks : Hooks) (stack : List Nat) (place : Nat × Nat) :
    List Char → Except ScanError (List Token)
  | [] =>
    if stack.length > 1 then
      .error (.unterminatedInput (((s.top? stack).map (·.name)).getD "") place.1)
    else .ok []
  | c :: rest =>
    let unexpected := .error (.unexpectedCharacter c place.1 place.2)
    match s.longest? stack (c :: rest) with
    | none => unexpected
    | some (n, rule) =>
      match s.act stack rule.action with
      | none => unexpected
      | some (stack, depth) => do
        let lexeme := c :: rest.take (n - 1)
        let others ← scanFrom s hooks stack (advance place lexeme) (rest.drop (n - 1))
        if rule.action = .skip then .ok others
        else
          let token : Token := { name := rule.terminal, lexeme := String.ofList lexeme }
          .ok (hooks token { line := place.1, column := place.2, depth } :: others)
termination_by text => text.length
decreasing_by simp only [List.length_drop, List.length_cons]; omega

/-- Scans a whole source. -/
def scan (s : Scanner) (hooks : Hooks) (source : String) : Except ScanError (List Token) :=
  s.scanFrom hooks [s.initial] (1, 1) source.toList

end Scanner

end AttrGrammar
