import AttrGrammar.Rule
import AttrGrammar.Table

/-!
FOLLOW sets: the names of the terminals that can come right after a rule, and the end of the input.

A term of a concatenation is followed by what begins the terms after it, and by what follows the
concatenation when all terms after it can read nothing. The terms of an alternation, an option and
a repetition are followed by what follows the rule, and the term of a repetition also by itself.

What one set takes from FIRST sets is put in once. What it takes from other FOLLOW sets is put in
by stages: a stage holds the rules all of whose sources are finished. Rules that are left over
reach a cycle and are resolved together, round by round, until a round adds nothing.
-/

namespace AttrGrammar.Follow

/-- The FOLLOW set of every rule, in the order of the rules. -/
abbrev Sets := Table NameSet

/-- For each rule the rules whose FOLLOW sets flow into its own. -/
abbrev Sources := Table (List String)

def firstSetOf (rules : List Rule) (name : String) : NameSet :=
  match findRule? rules name with
  | some rule => rule.first
  | none => ∅

/-- Adds names, the mark of nothing apart, to the set of a rule. -/
def extend (sets : Sets) (name : String) (names : NameSet) : Sets :=
  sets.modify name (· ∪ names.erase nullable)

/-- Adds what begins the terms after a term of a concatenation, and tells whether all of them can
read nothing. -/
def extendByRest (rules : List Rule) (term : String) : List String → Sets → Sets × Bool
  | [], sets => (sets, true)
  | next :: rest, sets =>
    let first := firstSetOf rules next
    let sets := extend sets term first
    if first.contains nullable then extendByRest rules term rest sets else (sets, false)

/-- Lets the set of `source` flow into that of `term`. -/
def depend (sources : Sources) (term source : String) : Sources :=
  if term = source then sources
  else
    let known := (sources.find? term).getD []
    if known.contains source then sources else sources.insert term (known ++ [source])

/-- What the terms of a concatenation called `name` take from FIRST sets and from `name`. -/
def addSequence (rules : List Rule) (name : String) :
    List String → Sets × Sources → Sets × Sources
  | [], state => state
  | term :: rest, (sets, sources) =>
    let (sets, last) := extendByRest rules term rest sets
    addSequence rules name rest (sets, if last then depend sources term name else sources)

/-- What the terms of one rule take from FIRST sets and from the rule. -/
def addRule (rules : List Rule) (state : Sets × Sources) (rule : Rule) : Sets × Sources :=
  match rule.body with
  | .concatenation terms | .attrProduction terms => addSequence rules rule.name terms state
  | .alternation terms =>
    (state.1, terms.foldl (fun sources term => depend sources term rule.name) state.2)
  | .option term => (state.1, depend state.2 term rule.name)
  | .repetition term =>
    (extend state.1 term (firstSetOf rules term), depend state.2 term rule.name)
  | .terminal _ | .attrTerminal => state

/-- Takes the names that wait for no other waiting name as a stage, over and over; names that are
left when none is ready come back beside the stages. -/
def stagesFrom (sources : Sources) : Nat → List String → List (List String) × List String
  | 0, pending => ([], pending)
  | fuel + 1, pending =>
    if pending.isEmpty then ([], [])
    else
      let ready := fun name => ((sources.find? name).getD []).all fun s => !pending.contains s
      match pending.filter ready with
      | [] => ([], pending)
      | stage =>
        let (stages, cyclic) := stagesFrom sources fuel (pending.filter fun name => !ready name)
        (stage :: stages, cyclic)

/-- The stages in which FOLLOW sets can be finished, and the rules that reach a cycle. -/
def stages (sources : Sources) : List (List String) × List String :=
  stagesFrom sources sources.size sources.names

/-- Puts the sets of all sources of a rule into its own. -/
def absorb (sources : Sources) (sets : Sets) (name : String) : Sets :=
  sets.modify name fun follow =>
    ((sources.find? name).getD []).foldl
      (fun follow source => follow ∪ (sets.find? source).getD ∅) follow

/-- The number of names in all sets together. -/
def weight (sets : Sets) : Nat :=
  sets.entries.foldl (fun n entry => n + entry.2.size) 0

/-- Absorbs the sources of each of `names` in turn until a round adds nothing. -/
def saturate (sources : Sources) (names : List String) : Nat → Sets → Sets
  | 0, sets => sets
  | fuel + 1, sets =>
    let next := names.foldl (absorb sources) sets
    if weight next = weight sets then next else saturate sources names fuel next

/-- All names in any of the sets. -/
def members (sets : Sets) : NameSet :=
  sets.entries.foldl (fun all entry => all ∪ entry.2) ∅

/-- The FOLLOW sets of rules with known FIRST sets, where `top` is followed by the end of the
input. -/
def sets (rules : List Rule) (top : String) : Sets :=
  let start : Sets := (rules.foldl (fun t rule => t.insert rule.name ∅) (∅ : Sets)).modify top
    (·.insert endOfInput)
  let (seeded, sources) := rules.foldl (addRule rules) (start, ∅)
  let (stages, cyclic) := stages sources
  let staged := stages.flatten.foldl (absorb sources) seeded
  saturate sources cyclic (cyclic.length * (members staged).size + 1) staged

end AttrGrammar.Follow
