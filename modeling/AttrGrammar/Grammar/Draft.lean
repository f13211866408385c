import AttrGrammar.Grammar.Basic
import AttrGrammar.Grammar.First
import AttrGrammar.Grammar.Follow

/-!
Grammar drafts: rules collected one after the other, where a rule may refer to names that are
defined later or not at all.

A rule that reaches an undefined name is unresolved. It becomes resolved with the definition that
fills the last gap, and then gets a matcher if one can be composed from its terms. `build` turns a
draft without gaps into a grammar.
-/

namespace AttrGrammar

structure Draft where
  /-- The rules in the order of their definition. -/
  rules : List Rule := []
  deriving Inhabited

namespace Draft

def find? (d : Draft) (name : String) : Option Rule := findRule? d.rules name

def contains (d : Draft) (name : String) : Bool := definesRule d.rules name

/-- The rules that refer to an undefined name or to one of `names`. -/
def referrers (rules : List Rule) (names : List String) : List String :=
  let refers := fun r : Rule => r.terms.any fun t => !definesRule rules t || names.contains t
  (rules.filter refers).map (·.name)

/-- Goes from rules to the rules that refer to them until no more turn up. -/
def referrersFrom (rules : List Rule) : Nat → List String → List String
  | 0, names => names
  | fuel + 1, names =>
    let next := referrers rules names
    if next.length = names.length then names else referrersFrom rules fuel next

/-- The rules from which an undefined name can be reached. -/
def unresolvedNames (rules : List Rule) : List String :=
  referrersFrom rules (rules.length + 1) []

/-- The matcher of a body whose terms have the given matchers. -/
def composed? : RuleBody → List Matcher → Option Matcher
  | .concatenation _, parts | .attrProduction _, parts => (Matcher.concatenation parts).toOption
  | .alternation _, parts => (Matcher.alternation parts).toOption
  | .repetition _, [part] => (Matcher.repetition part).toOption
  | .option _, [part] => (Matcher.option part).toOption
  | _, _ => none

/-- What was found out about names while matchers were composed: a matcher, or that there is none. -/
abbrev Memo := Table (Option Matcher)

/-- The matchers of terms in order, up to the first that has none, where `of` finds that of one
term and keeps it. -/
def partsOf (of : Memo → String → Option Matcher × Memo) :
    Memo → List String → Option (List Matcher) × Memo
  | memo, [] => (some [], memo)
  | memo, term :: rest =>
    match of memo term with
    | (none, memo) => (none, memo)
    | (some part, memo) =>
      let (parts, memo) := partsOf of memo rest
      (parts.map (part :: ·), memo)

/-- The matcher of a name, composed from those of its terms. There is none for a rule that reaches
itself, a folded terminal or an unresolved rule. `visiting` are the rules being composed; each call
visits another, so `fuel` need not exceed the number of rules. -/
def matcherOf? (rules : List Rule) : Nat → List String → Memo → String → Option Matcher × Memo
  | 0, _, memo, _ => (none, memo)
  | fuel + 1, visiting, memo, name =>
    match memo.find? name with
    | some known => (known, memo)
    | none =>
      match findRule? rules name with
      | none => (none, memo)
      | some rule =>
        match rule.body with
        | .terminal m => (some m, memo)
        | .attrTerminal => (none, memo)
        | body =>
          if rule.unresolved || visiting.contains name then (none, memo)
          else
            let (parts, memo) := partsOf (matcherOf? rules fuel (name :: visiting)) memo body.terms
            let matcher := parts.bind (composed? body)
            (matcher, memo.insert name matcher)

/-- Composes the matcher of a rule and stores it. -/
def storeMatcher (state : List Rule × Memo) (name : String) : List Rule × Memo :=
  let (matcher, memo) := matcherOf? state.1 (state.1.length + 1) [] state.2 name
  (state.1.map fun r => if r.name = name then { r with matcher } else r, memo)

/-- Brings the mark of a rule up to date, where `gaps` are the unresolved rules. -/
def mark (gaps : List String) (rule : Rule) : Rule :=
  let now := gaps.contains rule.name
  if rule.unresolved = now then rule else rule.setUnresolved now

/-- The rules that are marked as unresolved, but are no longer. -/
def resolvedNames (gaps : List String) (rules : List Rule) : List String :=
  (rules.filter fun r => r.unresolved && !gaps.contains r.name).map (·.name)

/-- Brings the marks of unresolved rules up to date, and gives each rule that has just been
resolved its matcher. -/
def refresh (rules : List Rule) : List Rule :=
  let gaps := unresolvedNames rules
  ((resolvedNames gaps rules).foldl storeMatcher (rules.map (mark gaps), ∅)).1

end Draft

/-- Steps change a draft, which is kept as it is then when a step fails. -/
abbrev DraftM := EStateM GrammarError Draft

namespace Draft

/-- The rule of a name. -/
def expectRule (name : String) : DraftM Rule := do
  match (← get).find? name with
  | some rule => pure rule
  | none => throw (.missingRule name none)

/-- Defines a rule under a new name. -/
def define (rule : Rule) : DraftM Rule := do
  if (← get).contains rule.name then throw (.duplicateRule rule.name)
  else
    modify fun d => { rules := refresh (d.rules ++ [rule]) }
    expectRule rule.name

def defineTerminal (name pattern : String) : DraftM Rule :=
  match Matcher.ofPattern pattern with
  | .ok m => define (.terminal name m)
  | .error e => throw (.invalidPattern name e.message)

/-- Puts a terminal in the place of a rule. The FIRST sets of all other rules are out of date
then. -/
def replaceRule (name : String) (terminal : Rule) (rules : List Rule) : List Rule :=
  rules.map fun r => (if r.name = name then terminal else r).forgetFirst

/-- Replaces a rule by its terminal form. -/
def replaceByTerminal (name : String) : DraftM Rule := do
  let rule ← expectRule name
  match rule.toTerminal? with
  | none => throw (.cannotMakeTerminal name)
  | some terminal => do
    modify fun d => { rules := refresh (replaceRule name terminal d.rules) }
    expectRule name

/-- Defines a rule of a grammar as a terminal. -/
def takeTerminal (g : Grammar) (name : String) : DraftM Rule :=
  match g.find? name with
  | none => throw (.missingRule name none)
  | some rule =>
    match rule.toTerminal? with
    | none => throw (.cannotMakeTerminal rule.name)
    | some terminal => define terminal

/-- FIRST of a defined name. The sets found on the way are stored. -/
def requestFirst (name : String) : DraftM NameSet := do
  let d ← get
  if d.contains name then
    let (first, rules) := firstOf (d.rules.length + 1) [] d.rules name
    set { d with rules }
    pure first
  else throw (.missingRule name none)

/-- What a step comes to, with the draft after it. -/
def outcome {α : Type} (step : DraftM α) (d : Draft) : Except GrammarError (α × Draft) :=
  match step.run d with
  | .ok result d => .ok (result, d)
  | .error e _ => .error e

/-- The draft after a step. -/
def stepped {α : Type} (step : DraftM α) (d : Draft) : Except GrammarError Draft :=
  (outcome step d).map Prod.snd

def insert (d : Draft) (rule : Rule) : Except GrammarError Draft := stepped (define rule) d

def addTerminal (d : Draft) (name pattern : String) : Except GrammarError Draft :=
  stepped (defineTerminal name pattern) d

def addAttrTerminal (d : Draft) (name : String) (synthesized : List Attr) :
    Except GrammarError Draft :=
  d.insert (.terminal name none synthesized)

def addConcatenation (d : Draft) (name : String) (terms : List String) :
    Except GrammarError Draft :=
  d.insert (.production name (.concatenation terms))

def addAlternation (d : Draft) (name : String) (terms : List String) : Except GrammarError Draft :=
  d.insert (.production name (.alternation terms))

def addRepetition (d : Draft) (name term : String) : Except GrammarError Draft :=
  d.insert (.production name (.repetition term))

def addOption (d : Draft) (name term : String) : Except GrammarError Draft :=
  d.insert (.production name (.option term))

def addAttrProduction (d : Draft) (name : String) (terms : List String)
    (synthesized inherited : List Attr) : Except GrammarError Draft :=
  d.insert (.production name (.attrProduction terms) synthesized inherited)

def makeTerminal (d : Draft) (name : String) : Except GrammarError Draft :=
  stepped (replaceByTerminal name) d

def importTerminal (d : Draft) (g : Grammar) (name : String) : Except GrammarError Draft :=
  stepped (takeTerminal g name) d

def firstSet (d : Draft) (name : String) : Except GrammarError (NameSet × Draft) :=
  outcome (requestFirst name) d

/-- The last rule defined, the terminal that reads nothing apart. -/
def lastName? (d : Draft) : Option String :=
  ((d.rules.map (·.name)).reverse).find? (· != nullable)

/-- The draft with the terminal that reads nothing. -/
def withNullable (d : Draft) : Except GrammarError Draft :=
  if d.contains nullable then .ok d else d.addTerminal nullable ""

/-- The first reference to an undefined name. -/
def danglingTerm? (rules : List Rule) : Option (String × Rule) :=
  rules.findSome? fun r => (r.terms.find? fun t => !definesRule rules t).map (·, r)

/-- Stores the FIRST set of every rule. -/
def settleFirst (rules : List Rule) : List Rule :=
  (rules.map (·.name)).foldl (fun rules name => (firstOf (rules.length + 1) [] rules name).2) rules

/-- Stores the FOLLOW set of every rule. -/
def settleFollow (rules : List Rule) (top : String) : List Rule :=
  let sets := Follow.sets rules top
  rules.map fun r => { r with follow := (sets.find? r.name).getD r.follow }

/-- Finishes a draft. Without a name for it the top rule is the last one defined. -/
def build (d : Draft) (name : String) (top : Option String) : Except GrammarError Grammar := do
  let top ← match top <|> d.lastName? with
    | some top => .ok top
    | none => .error (.unknownTopRule "")
  let d ← d.withNullable
  if !d.contains top then .error (.unknownTopRule top)
  else
    match danglingTerm? d.rules with
    | some (term, rule) => .error (.missingRule term (some rule.name))
    | none => .ok { name, top, rules := settleFollow (settleFirst d.rules) top }

end Draft

end AttrGrammar
