import AttrGrammar.Proofs.Grammar.Steps

/-!
Drafts after any calls.

The stored FIRST sets of a draft are never out of date: a rule that reaches a gap has none, a rule
without a gap is not touched by later definitions, and replacing a rule by a terminal forgets the
sets of all others. One lemma for each kind of call, and then the run.
-/

namespace AttrGrammar

namespace Draft

/-- A call that defines a rule, replaces one or asks for a FIRST set. -/
inductive Call where
  | terminal (name pattern : String)
  | attrTerminal (name : String) (synthesized : List Attr)
  | concatenation (name : String) (terms : List String)
  | alternation (name : String) (terms : List String)
  | repetition (name term : String)
  | option (name term : String)
  | attrProduction (name : String) (terms : List String) (synthesized inherited : List Attr)
  | makeTerminal (name : String)
  | importTerminal (g : Grammar) (name : String)
  | firstSet (name : String)

def call (d : Draft) : Call → Except GrammarError Draft
  | .terminal name pattern => d.addTerminal name pattern
  | .attrTerminal name synthesized => d.addAttrTerminal name synthesized
  | .concatenation name terms => d.addConcatenation name terms
  | .alternation name terms => d.addAlternation name terms
  | .repetition name term => d.addRepetition name term
  | .option name term => d.addOption name term
  | .attrProduction name terms synthesized inherited =>
    d.addAttrProduction name terms synthesized inherited
  | .makeTerminal name => d.makeTerminal name
  | .importTerminal g name => d.importTerminal g name
  | .firstSet name => (d.firstSet name).map Prod.snd

/-- The rule that a call defines, if it defines one. -/
def Call.rule? : Call → Option Rule
  | .terminal name pattern =>
    match Matcher.ofPattern pattern with
    | .ok m => some (.terminal name m)
    | .error _ => none
  | .attrTerminal name synthesized => some (.terminal name none synthesized)
  | .concatenation name terms => some (.production name (.concatenation terms))
  | .alternation name terms => some (.production name (.alternation terms))
  | .repetition name term => some (.production name (.repetition term))
  | .option name term => some (.production name (.option term))
  | .attrProduction name terms synthesized inherited =>
    some (.production name (.attrProduction terms) synthesized inherited)
  | .importTerminal g name => (g.find? name).bind Rule.toTerminal?
  | .makeTerminal _ | .firstSet _ => none

/-- The draft after a call; a call that fails leaves it as it is. -/
def next (d : Draft) (c : Call) : Draft := (d.call c).toOption.getD d

/-- The draft after calls one after the other. -/
def after (calls : List Call) : Draft := calls.foldl next {}

/-- What holds of the rules of a draft at any time. -/
structure Consistent (rules : List Rule) : Prop where
  distinct : (rules.map Rule.name).Nodup
  marks : ∀ rule ∈ rules, rule.unresolved = (unresolvedNames rules).contains rule.name
  coherent : Coherent rules rules

variable {rules : List Rule}

/-- Rules without a gap that have FIRST sets must have the right ones before they are brought up to
date. -/
theorem refresh_consistent (distinct : (rules.map Rule.name).Nodup)
    (blank : ∀ rule ∈ rules, rule.unresolved = true → rule.Blank)
    (exact : ∀ rule ∈ rules, rule.firstKnown = true → rule.name ∉ unresolvedNames rules →
      rule.Exact rules) : Consistent (refresh rules) := by
  obtain ⟨f, same, refreshed⟩ := refresh_eq_map rules
  have named := fun rule => (refreshed rule).name
  have body := fun rule => (refreshed rule).body
  rw [same]
  refine ⟨?_, ?_, rfl, ?_, ?_⟩
  · rw [List.map_map]
    simpa only [Function.comp_def, named] using distinct
  · rw [unresolvedNames_map named body, List.forall_mem_map]
    intro rule _
    rw [named]
    exact (refreshed rule).mark
  · rw [List.forall_mem_map]
    exact fun rule listed gap => (refreshed rule).blank gap (blank rule listed)
  · rw [List.forall_mem_map]
    intro rule listed ready
    obtain ⟨known, resolved⟩ := Rule.hasFirst_iff.1 ready
    obtain ⟨first, still⟩ := (refreshed rule).first resolved
    have whole : rule.name ∉ unresolvedNames rules := by
      rw [← List.contains_iff_mem, ← (refreshed rule).mark, resolved]
      exact Bool.noConfusion
    have before := exact rule listed (still ▸ known) whole
    exact (SharedPart.map named body rules).exact trivial (before.congr (named rule) first)

end Draft

namespace Rule

@[simp] theorem isTerminal_terminal (name : String) (matcher : Option Matcher)
    (synthesized : List Attr) : (terminal name matcher synthesized).isTerminal = true := by
  cases matcher <;> rfl

/-- Where a rule is replaced by a terminal, the FIRST sets that are left are those of terminals, and
unresolved rules are still without one. -/
theorem forgetFirst_replaced (name : String) (matcher : Option Matcher) (synthesized : List Attr)
    (rule : Rule) :
    let new := (if rule.name = name then terminal name matcher synthesized else rule).forgetFirst
    new.name = rule.name ∧ (new.firstKnown = true → new.isTerminal = true ∧
      (new = rule ∨ new.unresolved = false ∧ ∀ x, x ∈ new.first ↔ x = new.name)) ∧
      (new.unresolved = true → (rule.unresolved = true → rule.Blank) → new.Blank) := by
  have formed := isTerminal_terminal name matcher synthesized
  split
  · next same =>
    rw [forgetFirst, if_pos formed]
    exact ⟨same.symm, fun _ => ⟨formed, Or.inr ⟨rfl, fun _ => NameSet.mem_singleton⟩⟩,
      Bool.noConfusion⟩
  · unfold forgetFirst
    split
    · next terminal => exact ⟨rfl, fun _ => ⟨terminal, Or.inl rfl⟩, fun gap blank => blank gap⟩
    · exact ⟨rfl, Bool.noConfusion, fun gap blank => ⟨rfl, (blank gap).empty⟩⟩

end Rule

namespace Draft

variable {rules : List Rule}

/-- What a call defines is a terminal, or a rule that is not looked up yet. -/
theorem Call.rule?_cases {c : Call} {rule : Rule} (defines : c.rule? = some rule) :
    (∃ name matcher synthesized, rule = .terminal name matcher synthesized) ∨
      ∃ name body synthesized inherited, rule = .production name body synthesized inherited := by
  cases c with
  | terminal name pattern =>
    rw [rule?] at defines
    split at defines
    · cases defines
      exact Or.inl ⟨_, _, _, rfl⟩
    · cases defines
  | attrTerminal => exact Or.inl ⟨_, _, _, (Option.some.inj defines).symm⟩
  | concatenation | alternation | repetition | option | attrProduction =>
    exact Or.inr ⟨_, _, _, _, (Option.some.inj defines).symm⟩
  | importTerminal g name =>
    obtain ⟨known, _, formed⟩ := Option.bind_eq_some_iff.1 defines
    unfold Rule.toTerminal? at formed
    split at formed
    · cases formed
    · exact Or.inl ⟨_, _, _, (Option.some.inj formed).symm⟩
  | makeTerminal | firstSet => cases defines

theorem Call.blank {c : Call} {rule : Rule} (defines : c.rule? = some rule)
    (gap : rule.unresolved = true) : rule.Blank := by
  obtain ⟨_, _, _, rfl⟩ | ⟨_, _, _, _, rfl⟩ := Call.rule?_cases defines
  · cases gap
  · exact ⟨rfl, rfl⟩

theorem Call.terminal_of_known {c : Call} {rule : Rule} (defines : c.rule? = some rule)
    (known : rule.firstKnown = true) :
    rule.isTerminal = true ∧ ∀ x, x ∈ rule.first ↔ x = rule.name := by
  obtain ⟨_, _, _, rfl⟩ | ⟨_, _, _, _, rfl⟩ := Call.rule?_cases defines
  · exact ⟨Rule.isTerminal_terminal .., fun _ => NameSet.mem_singleton⟩
  · cases known

/-- A call that defines a rule puts it into the draft. -/
theorem call_of_rule? {c : Call} {rule : Rule} (defines : c.rule? = some rule) (d : Draft) :
    d.call c = d.insert rule := by
  cases c with
  | terminal name pattern =>
    rw [Call.rule?] at defines
    split at defines
    · next read =>
      cases defines
      rw [call, addTerminal_eq, read]
    · cases defines
  | attrTerminal | concatenation | alternation | repetition | option | attrProduction =>
    cases defines
    rfl
  | importTerminal g name =>
    obtain ⟨known, found, formed⟩ := Option.bind_eq_some_iff.1 defines
    rw [call, importTerminal_eq, found]
    simp only [formed]
  | makeTerminal | firstSet => cases defines

/-- What a call that succeeds does. -/
theorem call_cases {d d' : Draft} {c : Call} (called : d.call c = .ok d') :
    (∃ rule, c.rule? = some rule ∧ d.insert rule = .ok d') ∨
      (∃ name, c = .makeTerminal name ∧ d.makeTerminal name = .ok d') ∨
      ∃ name first, c = .firstSet name ∧ d.firstSet name = .ok (first, d') := by
  cases defines : c.rule? with
  | some rule => exact Or.inl ⟨rule, rfl, (call_of_rule? defines d).symm.trans called⟩
  | none =>
    cases c with
    | terminal name pattern =>
      rw [call, addTerminal_eq] at called
      rw [Call.rule?] at defines
      split at defines
      · cases defines
      · next failed =>
        rw [failed] at called
        cases called
    | attrTerminal | concatenation | alternation | repetition | option | attrProduction =>
      cases defines
    | makeTerminal name => exact Or.inr (Or.inl ⟨name, rfl, called⟩)
    | importTerminal g name =>
      rw [call, importTerminal_eq] at called
      rw [Call.rule?] at defines
      cases found : g.find? name with
      | none =>
        rw [found] at called
        cases called
      | some known =>
        rw [found, Option.bind_some] at defines
        simp only [found, defines] at called
        cases called
    | firstSet name =>
      rw [call] at called
      cases found : d.firstSet name with
      | error e =>
        rw [found] at called
        cases called
      | ok result =>
        rw [found] at called
        cases called
        exact Or.inr (Or.inr ⟨name, result.1, rfl, found⟩)

theorem unresolvedNames_coherent {base : List Rule} (coherent : Coherent base rules) :
    unresolvedNames rules = unresolvedNames base := by
  have bare := fun rules => unresolvedNames_map (f := Rule.bare) (fun _ => rfl) (fun _ => rfl) rules
  rw [← bare rules, coherent.same, bare base]

namespace Consistent

theorem empty : Consistent [] := by
  refine ⟨List.nodup_nil, ?_, rfl, ?_, ?_⟩ <;> exact fun _ member => absurd member List.not_mem_nil

theorem whole_of_hasFirst (consistent : Consistent rules) {rule : Rule} (listed : rule ∈ rules)
    (ready : rule.hasFirst = true) : Whole rules rule.name := by
  refine ⟨List.mem_map_of_mem listed, ?_⟩
  rw [← List.contains_iff_mem, ← consistent.marks rule listed, (Rule.hasFirst_iff.1 ready).2]
  exact Bool.noConfusion

theorem hasFirst_of_known (consistent : Consistent rules) {rule : Rule} (listed : rule ∈ rules)
    (known : rule.firstKnown = true) : rule.hasFirst = true := by
  refine Rule.hasFirst_iff.2 ⟨known, Bool.eq_false_iff.2 fun gap => ?_⟩
  exact absurd (known.symm.trans (consistent.coherent.blank rule listed gap).unknown) Bool.noConfusion

/-- A new rule has a FIRST set only if it is a terminal. -/
theorem insert {d d' : Draft} {rule : Rule} (consistent : Consistent d.rules)
    (blank : rule.unresolved = true → rule.Blank)
    (terminal : rule.firstKnown = true →
      rule.isTerminal = true ∧ ∀ x, x ∈ rule.first ↔ x = rule.name)
    (inserted : d.insert rule = .ok d') : Consistent d'.rules := by
  rw [insert_eq] at inserted
  split at inserted
  · cases inserted
  · next missing =>
    cases inserted
    have fresh : rule.name ∉ d.rules.map Rule.name := fun member =>
      missing (definesRule_iff.2 member)
    have distinct : ((d.rules ++ [rule]).map Rule.name).Nodup := by
      rw [List.map_append, List.nodup_append]
      refine ⟨consistent.distinct, List.nodup_singleton _, fun a old b new same => ?_⟩
      exact fresh (List.mem_singleton.1 new ▸ same ▸ old)
    refine refresh_consistent distinct (fun r listed gap => ?_) fun r listed known _ => ?_
    · rcases List.mem_append.1 listed with old | new
      · exact consistent.coherent.blank r old gap
      · cases List.mem_singleton.1 new
        exact blank gap
    · rcases List.mem_append.1 listed with old | new
      · have ready := consistent.hasFirst_of_known old known
        exact (sharedPart_append [rule]).exact (consistent.whole_of_hasFirst old ready)
          (consistent.coherent.exact r old ready)
      · cases List.mem_singleton.1 new
        obtain ⟨terminal, only⟩ := terminal known
        exact (Rule.exact_terminal_iff (findRule?_of_mem distinct listed) terminal).2 only

/-- After a rule was replaced, terminals only have FIRST sets. -/
theorem makeTerminal {d d' : Draft} {name : String} (consistent : Consistent d.rules)
    (made : d.makeTerminal name = .ok d') : Consistent d'.rules := by
  obtain ⟨rule, -, -, rfl⟩ := makeTerminal_cases made
  have replaced := Rule.forgetFirst_replaced name rule.matcher rule.synthesized
  dsimp only [replaceRule]
  generalize made : (fun r : Rule => (if r.name = name then
    Rule.terminal name rule.matcher rule.synthesized else r).forgetFirst) = f
  replace replaced : ∀ r, (f r).name = r.name ∧ ((f r).firstKnown = true →
      (f r).isTerminal = true ∧
        (f r = r ∨ (f r).unresolved = false ∧ ∀ x, x ∈ (f r).first ↔ x = (f r).name)) ∧
      ((f r).unresolved = true → (r.unresolved = true → r.Blank) → (f r).Blank) :=
    made ▸ replaced
  have named := fun r => (replaced r).1
  have distinct : ((d.rules.map f).map Rule.name).Nodup := by
    rw [List.map_map]
    simpa only [Function.comp_def, named] using consistent.distinct
  refine refresh_consistent distinct ?_ ?_
  · rw [List.forall_mem_map]
    intro r listed gap
    exact (replaced r).2.2 gap (consistent.coherent.blank r listed)
  · intro new listed known _
    obtain ⟨r, before, rfl⟩ := List.mem_map.1 listed
    obtain ⟨terminal, origin⟩ := (replaced r).2.1 known
    refine (Rule.exact_terminal_iff (findRule?_of_mem distinct listed) terminal).2 ?_
    rcases origin with same | ⟨_, only⟩
    · rw [same] at terminal known ⊢
      exact (Rule.exact_terminal_iff (findRule?_of_mem consistent.distinct before) terminal).1
        (consistent.coherent.exact r before (consistent.hasFirst_of_known before known))
    · exact only

/-- Storing exact FIRST sets changes nothing else. -/
theorem of_coherent {base : List Rule} (consistent : Consistent base)
    (coherent : Coherent base rules) : Consistent rules := by
  have distinct : (rules.map Rule.name).Nodup := coherent.names ▸ consistent.distinct
  have gaps := unresolvedNames_coherent coherent
  refine ⟨distinct, fun rule listed => ?_, coherent.self⟩
  have found := findRule?_of_mem distinct listed
  obtain ⟨known, there, same⟩ := coherent.exists_rule found
  have mark : known.bare.unresolved = rule.bare.unresolved := congrArg Rule.unresolved same
  change known.unresolved = rule.unresolved at mark
  have marked := consistent.marks known (List.mem_of_find?_eq_some there)
  rw [← mark, marked, gaps, findRule?_name there]

/-- A request finds what begins a name. -/
theorem finds (consistent : Consistent rules) (name : String) :
    Finds rules rules (leastFirst rules name) (Grounded rules name)
      (firstOf (rules.length + 1) [] rules name) :=
  (firstOf_request consistent.distinct consistent.coherent name).1

theorem firstSet {d d' : Draft} {name : String} {first : NameSet} (consistent : Consistent d.rules)
    (found : d.firstSet name = .ok (first, d')) : Consistent d'.rules := by
  rw [firstSet_eq] at found
  split at found
  · cases found
    exact consistent.of_coherent (consistent.finds name).coherent
  · cases found

/-- One call. -/
theorem call {d d' : Draft} (consistent : Consistent d.rules) {c : Call}
    (called : d.call c = .ok d') : Consistent d'.rules := by
  rcases call_cases called with ⟨rule, defines, inserted⟩ | ⟨name, -, made⟩ | ⟨name, _, -, found⟩
  · exact consistent.insert (Call.blank defines) (Call.terminal_of_known defines) inserted
  · exact consistent.makeTerminal made
  · exact consistent.firstSet found

end Consistent

/-- What every call that succeeds keeps holds after all calls. -/
theorem foldl_next {P : Draft → Prop} (step : ∀ {d d' : Draft} {c : Call}, P d → d.call c = .ok d' → P d')
    (calls : List Call) {d : Draft} (start : P d) : P (calls.foldl next d) := by
  induction calls generalizing d with
  | nil => exact start
  | cons c rest ih =>
    refine ih ?_
    unfold next
    cases called : d.call c with
    | error e => exact start
    | ok d' => exact step start called

theorem after_consistent (calls : List Call) : Consistent (after calls).rules :=
  foldl_next (P := fun d => Consistent d.rules) (fun before => before.call) calls .empty

end Draft

end AttrGrammar
