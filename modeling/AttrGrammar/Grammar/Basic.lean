import AttrGrammar.Grammar.Error

/-!
Finished grammars: every name that a rule refers to is defined, FIRST and FOLLOW sets are known, and
one rule is the top.
-/

namespace AttrGrammar

structure Grammar where
  name : String
  top : String
  /-- The rules in the order of their definition. -/
  rules : List Rule
  deriving Inhabited

namespace Grammar

def find? (g : Grammar) (name : String) : Option Rule := findRule? g.rules name

def contains (g : Grammar) (name : String) : Bool := definesRule g.rules name

def rule (g : Grammar) (name : String) : Except GrammarError Rule :=
  match g.find? name with
  | some r => .ok r
  | none => .error (.missingRule name none)

def terminalNames (g : Grammar) : List String :=
  (g.rules.filter (·.isTerminal)).map (·.name)

def nonterminalNames (g : Grammar) : List String :=
  (g.rules.filter fun r => !r.isTerminal).map (·.name)

end Grammar

end AttrGrammar
