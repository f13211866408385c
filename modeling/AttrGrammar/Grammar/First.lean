import AttrGrammar.Rule

/-!
FIRST sets: the names of the terminals that can begin a rule, and the mark of rules that can read
nothing.

A terminal begins with itself; a concatenation with its leading terms up to the first that cannot
read nothing; an alternation with any term; a repetition and an option with their term or with
nothing. A name without a definition begins with nothing at all, and neither does a rule that is
reached again while its own set is being computed. The sets of resolved rules are stored.
-/

namespace AttrGrammar

/-- Stores the FIRST set of every rule called `name`. -/
def storeFirst (rules : List Rule) (name : String) (first : NameSet) : List Rule :=
  rules.map fun r => if r.name = name then { r with first, firstKnown := true } else r

/-- FIRST of terms in sequence, where `of` computes that of one term and stores it. -/
def sequenceFirst (of : List Rule → String → NameSet × List Rule) :
    List Rule → List String → NameSet × List Rule
  | rules, [] => (NameSet.singleton nullable, rules)
  | rules, term :: rest =>
    let (first, rules) := of rules term
    if first.contains nullable then
      let (more, rules) := sequenceFirst of rules rest
      (first.erase nullable ∪ more, rules)
    else (first, rules)

/-- FIRST of alternative terms. -/
def choiceFirst (of : List Rule → String → NameSet × List Rule) :
    List Rule → List String → NameSet × List Rule
  | rules, [] => (∅, rules)
  | rules, term :: rest =>
    let (first, rules) := of rules term
    let (more, rules) := choiceFirst of rules rest
    (first ∪ more, rules)

/-- FIRST of the right-hand side of a rule. -/
def bodyFirst (of : List Rule → String → NameSet × List Rule) (rules : List Rule)
    (name : String) : RuleBody → NameSet × List Rule
  | .terminal _ | .attrTerminal => (NameSet.singleton name, rules)
  | .concatenation terms | .attrProduction terms => sequenceFirst of rules terms
  | .alternation terms => choiceFirst of rules terms
  | .repetition term | .option term =>
    let (first, rules) := of rules term
    (first.insert nullable, rules)

/-- FIRST of a name, with the rules after storing what was found. `visiting` are the rules whose
sets are being computed; each call visits another, so `fuel` need not exceed the number of
rules. -/
def firstOf : Nat → List String → List Rule → String → NameSet × List Rule
  | 0, _, rules, _ => (∅, rules)
  | fuel + 1, visiting, rules, name =>
    match findRule? rules name with
    | none => (∅, rules)
    | some rule =>
      if rule.hasFirst then (rule.first, rules)
      else if visiting.contains name then (∅, rules)
      else
        let (first, rules) := bodyFirst (firstOf fuel (name :: visiting)) rules name rule.body
        (first, if rule.unresolved then rules else storeFirst rules name first)

end AttrGrammar
