import AttrGrammar.Attribute
import AttrGrammar.NameSet
import AttrGrammar.Pattern.Matcher

/-!
Grammar rules.

A rule gives a name one of the shapes of EBNF, or one of two shapes for attributes: a terminal that
folding makes, known by its name only, and a concatenation whose nodes carry attributes. Terms are
named and looked up in the grammar that holds the rule. Beside its shape a rule keeps what the
analyses found out about it: a matcher, and its FIRST and FOLLOW sets.
-/

namespace AttrGrammar

/-- The terminal that reads nothing, and the mark of rules that can. -/
def nullable : String := "<nullable>"

/-- Stands for the end of the input where a token's name is asked for. -/
def endOfInput : String := "<end-of-input>"

inductive RuleKind where
  | terminal
  | concatenation
  | alternation
  | repetition
  | option
  | attrTerminal
  | attrProduction
  deriving DecidableEq, Repr, Inhabited

namespace RuleKind

def name : RuleKind → String
  | terminal => "terminal"
  | concatenation => "concatenation"
  | alternation => "alternation"
  | repetition => "repetition"
  | option => "option"
  | attrTerminal => "attr_terminal"
  | attrProduction => "attr_production"

/-- Whether nodes of this kind are leaves. -/
def isTerminal : RuleKind → Bool
  | terminal | attrTerminal => true
  | _ => false

end RuleKind

/-- The right-hand side of a rule. -/
inductive RuleBody where
  | terminal (matcher : Matcher)
  | concatenation (terms : List String)
  | alternation (terms : List String)
  | repetition (term : String)
  | option (term : String)
  | attrTerminal
  | attrProduction (terms : List String)
  deriving DecidableEq, Inhabited

namespace RuleBody

def kind : RuleBody → RuleKind
  | terminal _ => .terminal
  | concatenation _ => .concatenation
  | alternation _ => .alternation
  | repetition _ => .repetition
  | option _ => .option
  | attrTerminal => .attrTerminal
  | attrProduction _ => .attrProduction

/-- The names a right-hand side refers to, in order. -/
def terms : RuleBody → List String
  | terminal _ | attrTerminal => []
  | concatenation terms | alternation terms | attrProduction terms => terms
  | repetition term | option term => [term]

end RuleBody

structure Rule where
  name : String
  body : RuleBody
  /-- A matcher for the rule's language, if one could be composed. -/
  matcher : Option Matcher := none
  first : NameSet := ∅
  follow : NameSet := ∅
  /-- Whether `first` was computed for the rules as they are. -/
  firstKnown : Bool := false
  /-- Whether the rule reaches a name that has no definition. -/
  unresolved : Bool := false
  synthesized : List Attr := []
  inherited : List Attr := []
  deriving DecidableEq, Inhabited

namespace Rule

def kind (r : Rule) : RuleKind := r.body.kind

def terms (r : Rule) : List String := r.body.terms

def isTerminal (r : Rule) : Bool := r.kind.isTerminal

def isNullable (r : Rule) : Bool := r.first.contains nullable

/-- Whether the matcher accepts a whole text; a rule without one accepts none. -/
def accepts (r : Rule) (text : String) : Bool :=
  match r.matcher with
  | some m => m.accepts text
  | none => false

/-- A terminal with a matcher, or one that is known by its name only. -/
def terminal (name : String) (matcher : Option Matcher) (synthesized : List Attr := []) : Rule :=
  { name, matcher, synthesized
    body := match matcher with
      | some m => .terminal m
      | none => .attrTerminal
    first := NameSet.singleton name
    firstKnown := true }

/-- A rule that refers to others. It counts as unresolved until the draft that takes it in has
looked its terms up. -/
def production (name : String) (body : RuleBody) (synthesized inherited : List Attr := []) : Rule :=
  { name, body, synthesized, inherited, unresolved := true }

/-- The terminal form of a rule that is resolved. -/
def toTerminal? (r : Rule) : Option Rule :=
  if r.unresolved then none else some (terminal r.name r.matcher r.synthesized)

/-- Whether the stored FIRST set may be used. -/
def hasFirst (r : Rule) : Bool := r.firstKnown && !r.unresolved

/-- Marks the FIRST set as out of date; that of a terminal never is. -/
def forgetFirst (r : Rule) : Rule :=
  if r.isTerminal then r else { r with firstKnown := false }

/-- Marks a rule as unresolved or not. An unresolved rule has neither matcher nor FIRST set. -/
def setUnresolved (r : Rule) (unresolved : Bool) : Rule :=
  if unresolved then
    { r with unresolved := true, firstKnown := false, first := ∅, matcher := none }
  else { r with unresolved := false }

end Rule

/-- The first rule with a name. -/
def findRule? (rules : List Rule) (name : String) : Option Rule :=
  rules.find? (·.name == name)

/-- Whether a rule has a name. -/
def definesRule (rules : List Rule) (name : String) : Bool :=
  rules.any (·.name == name)

end AttrGrammar
