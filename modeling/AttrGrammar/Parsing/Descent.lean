import AttrGrammar.Grammar.Basic
import AttrGrammar.Parsing.Error
import AttrGrammar.Tree.Basic

/-!
Parsing by recursive descent with one token of lookahead.

A terminal reads the token of its name. A concatenation reads its terms in order. An alternation
reads the one term whose FIRST set holds the next token, or the one that can read nothing if there
is no such term. An option and a repetition try their term on a tree of its own, which is grafted
when the term succeeds; when it fails they stop, provided the next token can follow them.

Between two tokens a rule is entered at most once, unless it is left recursive, so the number of
rules times the number of places bounds how deep rules nest. `fuel` is that bound.
-/

namespace AttrGrammar

/-- A place in a list of tokens: how many were read, and those that were not. -/
structure Place where
  index : Nat
  rest : List Token
  deriving DecidableEq, Inhabited

namespace Place

def start (tokens : List Token) : Place := ⟨0, tokens⟩

/-- The name of the next token, or the mark of the end. -/
def lookahead (p : Place) : String :=
  match p.rest with
  | t :: _ => t.name
  | [] => endOfInput

end Place

namespace Parsing

/-- Parsing builds a tree, which is kept as it is when a rule fails. -/
abbrev ParseM := EStateM ParseError ParseTree

/-- A way to read a rule at a place. -/
abbrev Reader := Rule → Place → ParseM Place

def fail (rule : String) (fault : ParseFault) (p : Place) : ParseM α :=
  throw { rule, fault, index := p.index }

/-- The rule with a name. -/
def resolve (g : Grammar) (name : String) (p : Place) : ParseM Rule :=
  match g.find? name with
  | some r => pure r
  | none => fail name (.unknownRule name) p

def parseTerminal (rule : Rule) (p : Place) : ParseM Place :=
  if rule.name = nullable then pure p
  else match p.rest with
    | token :: rest =>
      if token.name = rule.name then do
        modify fun t => (t.leaf token rule.kind).2
        pure ⟨p.index + 1, rest⟩
      else fail rule.name (.terminalMismatch rule.name token.name) p
    | [] => fail rule.name (.exhaustedInput [rule.name]) p

def parseSequence (g : Grammar) (read : Reader) : List String → Place → ParseM Place
  | [], p => pure p
  | term :: rest, p => do
    let rule ← resolve g term p
    let p ← read rule p
    parseSequence g read rest p

/-- The rules of the terms of an alternation. -/
def candidates (g : Grammar) (p : Place) : List String → ParseM (List Rule)
  | [] => pure []
  | term :: rest => do
    let rule ← resolve g term p
    let others ← candidates g p rest
    pure (rule :: others)

/-- The alternative to read at a place, among the rules of the terms. -/
def choose (rule : Rule) (terms : List Rule) (p : Place) : Except ParseFault Rule :=
  match terms.filter (·.first.contains p.lookahead) with
  | [only] => .ok only
  | [] =>
    match terms.filter (·.isNullable) with
    | [only] => .ok only
    | _ =>
      let expected := (rule.first.erase nullable).toList
      match p.rest with
      | token :: _ => .error (.unmatchedFirstSet expected token.name)
      | [] => .error (.exhaustedInput expected)
  | several => .error (.firstSetsNotDisjoint (several.map (·.name)) p.lookahead)

def parseAlternation (g : Grammar) (read : Reader) (rule : Rule) (terms : List String)
    (p : Place) : ParseM Place := do
  let terms ← candidates g p terms
  match choose rule terms p with
  | .ok term => read term p
  | .error fault => fail rule.name fault p

def parseOption (g : Grammar) (read : Reader) (rule : Rule) (term : String) (p : Place) :
    ParseM Place := do
  let term ← resolve g term p
  match (read term p).run {} with
  | .ok next scratch => do
    modify (·.merge scratch)
    pure next
  | .error e _ => if rule.follow.contains p.lookahead then pure p else throw e

/-- Reads a term again and again, until it reads nothing or the input ends. Each round reads a
token, so the number of tokens left bounds the rounds. -/
def parseRounds (read : Reader) (rule term : Rule) : Nat → Place → ParseM Place
  | 0, p => pure p
  | rounds + 1, p =>
    if p.rest.isEmpty then pure p
    else
      match (read term p).run {} with
      | .ok next scratch =>
        if next.index = p.index then pure p
        else do
          modify (·.merge scratch)
          parseRounds read rule term rounds next
      | .error e _ => if rule.follow.contains p.lookahead then pure p else throw e

def parseRepetition (g : Grammar) (read : Reader) (rule : Rule) (term : String) (p : Place) :
    ParseM Place := do
  let term ← resolve g term p
  parseRounds read rule term (p.rest.length + 1) p

def parseBody (g : Grammar) (read : Reader) (rule : Rule) (p : Place) : ParseM Place :=
  match rule.body with
  | .terminal _ | .attrTerminal => parseTerminal rule p
  | .concatenation terms | .attrProduction terms => parseSequence g read terms p
  | .alternation terms => parseAlternation g read rule terms p
  | .repetition term => parseRepetition g read rule term p
  | .option term => parseOption g read rule term p

/-- Reads a rule. A node is opened for a rule that is no terminal, and closed when it succeeds. -/
def parseRule (g : Grammar) : Nat → Rule → Place → ParseM Place
  | 0, rule, p => fail rule.name .leftRecursion p
  | fuel + 1, rule, p =>
    if rule.isTerminal then parseTerminal rule p
    else do
      modify fun t => (t.enter rule.name rule.kind).2
      let next ← parseBody g (parseRule g fuel) rule p
      modify fun t => t.close.2
      pure next

end Parsing

open Parsing

/-- Reads a rule at the start of the tokens, adding to the tree. -/
def Grammar.parse (g : Grammar) (rule : Rule) (tokens : List Token) (tree : ParseTree) :
    EStateM.Result ParseError ParseTree Place :=
  (parseRule g (g.rules.length * (tokens.length + 1) + 1) rule (.start tokens)).run tree

/-- Reads all tokens with the top rule of a grammar. -/
def Grammar.buildTree (g : Grammar) (tokens : List Token) : Except ParseError ParseTree :=
  match g.find? g.top with
  | none => .error { rule := g.top, fault := .unknownRule g.top, index := 0 }
  | some top =>
    match g.parse top tokens {} with
    | .error e _ => .error { e with tokens }
    | .ok p tree =>
      match p.rest with
      | [] => .ok tree
      | extra :: _ =>
        .error { rule := top.name, fault := .trailingTokens extra.name, index := p.index, tokens }

end AttrGrammar
