import AttrGrammar.Grammar.Basic
import AttrGrammar.Token

/-!
Folding: merging neighbouring tokens into the tokens that a parser reads.

Folding by an alternation turns each run of tokens named after its terms, or after itself, into one
token; a single token that has its name already stays. Folding by a concatenation turns each stretch
of tokens named after its terms, from left to right, into one. A plan lists folds, and is gone
through again and again until a round changes nothing.
-/

namespace AttrGrammar

/-- Makes the token that replaces neighbouring ones, under a new name. -/
abbrev Combiner := String → List Token → Token

/-- Joins the lexemes and keeps the attributes of the first token. -/
def combineLexemes : Combiner := fun name parts =>
  { name
    lexeme := Token.joinLexemes parts
    attrs := match parts with
      | first :: _ => first.attrs
      | [] => {} }

/-- One step of a plan: a kind of fold and the rule to fold by. -/
inductive FoldStep where
  | alternation (rule : String)
  | concatenation (rule : String)
  deriving DecidableEq, Repr, Inhabited

abbrev FoldPlan := List FoldStep

/-- A step whose rule has been looked up. -/
inductive Fold where
  | alternation (name : String) (terms : List String)
  | concatenation (name : String) (terms : List String)
  deriving DecidableEq, Repr, Inhabited

namespace Fold

/-- The token for a run of tokens, and how many folds that took. -/
def closeRun (combine : Combiner) (name : String) (run : List Token) : List Token × Nat :=
  match run with
  | [] => ([], 0)
  | [only] => if only.name = name then ([only], 0) else ([combine name run], 1)
  | _ => ([combine name run], 1)

/-- Folds runs of tokens that belong together, where `run` was read before. -/
def foldRuns (combine : Combiner) (name : String) (belongs : Token → Bool) (run : List Token) :
    List Token → List Token × Nat
  | [] => closeRun combine name run
  | token :: rest =>
    if belongs token then foldRuns combine name belongs (run ++ [token]) rest
    else
      let (before, made) := closeRun combine name run
      let (after, more) := foldRuns combine name belongs [] rest
      (before ++ token :: after, made + more)

/-- Whether tokens begin with ones of the given names. -/
def beginsWith : List String → List Token → Bool
  | [], _ => true
  | _ :: _, [] => false
  | name :: names, token :: rest => token.name == name && beginsWith names rest

/-- Folds stretches of tokens named after the terms. -/
def foldStretches (combine : Combiner) (name : String) (terms : List String) :
    List Token → List Token × Nat
  | [] => ([], 0)
  | token :: rest =>
    if beginsWith terms (token :: rest) then
      let part := token :: rest.take (terms.length - 1)
      let (after, more) := foldStretches combine name terms (rest.drop (terms.length - 1))
      (combine name part :: after, more + 1)
    else
      let (after, more) := foldStretches combine name terms rest
      (token :: after, more)
termination_by tokens => tokens.length
decreasing_by all_goals simp only [List.length_drop, List.length_cons]; omega

/-- Folds once through the tokens, and tells how many folds were made. A concatenation without
terms, or of itself alone, folds nothing. -/
def apply (combine : Combiner) : Fold → List Token → List Token × Nat
  | alternation name terms, tokens =>
    foldRuns combine name (fun t => t.name == name || terms.contains t.name) [] tokens
  | concatenation name terms, tokens =>
    if terms.isEmpty || terms == [name] then (tokens, 0)
    else foldStretches combine name terms tokens

def expectKind (rule : Rule) (expected : RuleKind) : Except GrammarError Unit :=
  if rule.kind = expected then .ok ()
  else .error (.unexpectedRuleKind rule.name expected rule.kind)

/-- Takes a rule to fold by, which must be of the kind of fold. -/
def ofRule (kind : RuleKind) (fold : String → List String → Fold) (rule : Rule) :
    Except GrammarError Fold := do
  expectKind rule kind
  .ok (fold rule.name rule.terms)

/-- Looks up the rule of a step. -/
def ofStep (g : Grammar) : FoldStep → Except GrammarError Fold
  | .alternation name => do ofRule .alternation alternation (← g.rule name)
  | .concatenation name => do ofRule .concatenation concatenation (← g.rule name)

/-- Folds by each in turn, and tells how many folds were made together. -/
def applyEach (combine : Combiner) : List Fold → List Token → List Token × Nat
  | [], tokens => (tokens, 0)
  | fold :: rest, tokens =>
    let (tokens, made) := fold.apply combine tokens
    let (tokens, more) := applyEach combine rest tokens
    (tokens, made + more)

/-- Goes through the folds until a round makes none, if the tokens ever settle. What is folded
depends on names only, so tokens that are named as after an earlier round go round in a circle.
`mark` holds the names after one earlier round. It is renewed after `left` more rounds, each time
for twice as many, so that no circle is too long to be noticed. -/
def settle (combine : Combiner) (folds : List Fold) :
    Nat → List String → Nat → Nat → List Token → Option (List Token)
  | 0, _, _, _, _ => none
  | rounds + 1, mark, span, left, tokens =>
    let (next, made) := applyEach combine folds tokens
    if made = 0 then some next
    else
      let names := next.map (·.name)
      if names = mark then none
      else if left = 0 then settle combine folds rounds names (2 * span) (2 * span) next
      else settle combine folds rounds mark span (left - 1) next

end Fold

namespace FoldPlan

def folds (plan : FoldPlan) (g : Grammar) : Except GrammarError (List Fold) :=
  plan.mapM (Fold.ofStep g)

/-- The number of rounds within which tokens settle, if they do. They are named anew after each
round, by names of rules of the plan and of the tokens at first, and there are never more tokens
than at first; so there are no more lists of names than this. -/
def roundLimit (plan : FoldPlan) (tokens : List Token) : Nat :=
  (plan.length + tokens.length + 1).pow tokens.length

/-- Runs the plan until the tokens are stable. -/
def run (plan : FoldPlan) (g : Grammar) (combine : Combiner) (tokens : List Token) :
    Except GrammarError (List Token) := do
  let folds ← plan.folds g
  match Fold.settle combine folds (plan.roundLimit tokens) (tokens.map (·.name)) 1 1 tokens with
  | some tokens => .ok tokens
  | none => .error .circularFolds

end FoldPlan

end AttrGrammar
