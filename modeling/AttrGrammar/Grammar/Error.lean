import AttrGrammar.Rule

/-! What can be wrong with a grammar, or with the use of one. -/

namespace AttrGrammar

inductive GrammarError where
  | missingRule (name : String) (referencedBy : Option String)
  /-- An unresolved rule has no language yet, and a rule without a pattern cannot be scanned. -/
  | cannotMakeTerminal (name : String)
  | duplicateRule (name : String)
  | invalidPattern (name reason : String)
  | unknownTopRule (name : String)
  | unknownLexMode (name : String)
  | unexpectedRuleKind (name : String) (expected found : RuleKind)
  /-- The folds of a plan rename tokens in a circle. -/
  | circularFolds
  deriving DecidableEq, Inhabited

def GrammarError.message : GrammarError → String
  | missingRule name (some by_) => s!"Missing rule '{name}' (referenced by '{by_}')"
  | missingRule name none => s!"Missing rule '{name}'"
  | cannotMakeTerminal name => s!"Cannot make terminal from partial rule '{name}'"
  | duplicateRule name => s!"Rule '{name}' is already defined"
  | invalidPattern name reason => s!"Invalid pattern for terminal '{name}': {reason}"
  | unknownTopRule name => s!"Unknown top rule '{name}'"
  | unknownLexMode name => s!"Unknown lexer mode '{name}'"
  | unexpectedRuleKind name expected found =>
    s!"Rule '{name}' is a {found.name} but a {expected.name} was expected"
  | circularFolds => "The fold plan renames tokens in a circle"

end AttrGrammar
