import AttrGrammar.Proofs.Grammar.Built
import AttrGrammar.Proofs.Grammar.Invariant
import AttrGrammar.Proofs.Pattern.Matching

/-!
What rules with matchers accept.

The texts of a rule are those of EBNF: a terminal spells the texts of its pattern, and any other rule
what the sequences spell that its right-hand side allows. Composing a matcher follows the same
shapes, on patterns in groups, so the matcher of a rule reads the texts that the rule spells.
-/

namespace AttrGrammar

/-- Whether a matcher is made of its pattern. -/
def Matcher.Made (m : Matcher) : Prop := Matcher.ofPattern m.pattern = .ok m

namespace Draft

open scoped Computability

/-- The texts that a sequence of names spells. -/
inductive Spells (rules : List Rule) : List String → List Char → Prop
  | nil : Spells rules [] []
  | terminal {name : String} {rule : Rule} {m : Matcher} {p : Pattern} {names : List String}
      {text rest : List Char} (found : findRule? rules name = some rule)
      (body : rule.body = .terminal m) (read : Pattern.read m.pattern.toList = .ok p)
      (member : text ∈ p.language) (later : Spells rules names rest) :
      Spells rules (name :: names) (text ++ rest)
  | production {name : String} {rule : Rule} {sequence names : List String}
      {text rest : List Char} (found : findRule? rules name = some rule)
      (allowed : rule.body.Allows sequence) (inner : Spells rules sequence text)
      (later : Spells rules names rest) : Spells rules (name :: names) (text ++ rest)

variable {rules : List Rule} {name : String} {names : List String} {text : List Char}

theorem spells_nil_iff : Spells rules [] text ↔ text = [] := by
  constructor
  · intro spells
    cases spells
    rfl
  · rintro rfl
    exact .nil

theorem Spells.one {rule : Rule} {m : Matcher} {p : Pattern}
    (found : findRule? rules name = some rule) (body : rule.body = .terminal m)
    (read : Pattern.read m.pattern.toList = .ok p) (member : text ∈ p.language) :
    Spells rules [name] text :=
  List.append_nil text ▸ .terminal found body read member .nil

theorem Spells.node {rule : Rule} {sequence : List String}
    (found : findRule? rules name = some rule) (allowed : rule.body.Allows sequence)
    (inner : Spells rules sequence text) : Spells rules [name] text :=
  List.append_nil text ▸ .production found allowed inner .nil

theorem spells_cons_iff : Spells rules (name :: names) text ↔
    ∃ s t, Spells rules [name] s ∧ Spells rules names t ∧ s ++ t = text := by
  constructor
  · intro spells
    cases spells with
    | terminal found body read member later => exact ⟨_, _, .one found body read member, later, rfl⟩
    | production found allowed inner later => exact ⟨_, _, .node found allowed inner, later, rfl⟩
  · rintro ⟨s, t, first, later, rfl⟩
    cases first with
    | terminal found body read member rest =>
      obtain rfl := spells_nil_iff.1 rest
      rw [List.append_nil]
      exact .terminal found body read member later
    | production found allowed inner rest =>
      obtain rfl := spells_nil_iff.1 rest
      rw [List.append_nil]
      exact .production found allowed inner later

/-- The language of a name. -/
def spelled (rules : List Rule) (name : String) : TextLanguage := {text | Spells rules [name] text}

/-- A sequence spells the texts of its names one after the other. -/
theorem spells_iff_mem_prod :
    Spells rules names text ↔ text ∈ (names.map (spelled rules)).prod := by
  induction names generalizing text with
  | nil => exact spells_nil_iff
  | cons name rest ih =>
    rw [spells_cons_iff, List.map_cons, List.prod_cons, Language.mem_mul]
    exact exists_congr fun s => ⟨fun ⟨t, first, later, same⟩ => ⟨first, t, ih.1 later, same⟩,
      fun ⟨first, t, later, same⟩ => ⟨t, first, ih.2 later, same⟩⟩

/-- A rule that is no terminal spells what the sequences spell that it allows. -/
theorem mem_spelled_iff {rule : Rule} (found : findRule? rules name = some rule)
    (production : ∀ m, rule.body ≠ .terminal m) :
    text ∈ spelled rules name ↔
      ∃ sequence, rule.body.Allows sequence ∧ text ∈ (sequence.map (spelled rules)).prod := by
  simp only [← spells_iff_mem_prod]
  constructor
  · intro spells
    cases spells with
    | terminal there body =>
      cases found.symm.trans there
      exact absurd body (production _)
    | production there allowed inner later =>
      cases found.symm.trans there
      obtain rfl := spells_nil_iff.1 later
      rw [List.append_nil]
      exact ⟨_, allowed, inner⟩
  · rintro ⟨sequence, allowed, inner⟩
    exact .node found allowed inner

theorem mem_sum_iff {languages : List TextLanguage} :
    text ∈ languages.sum ↔ ∃ L ∈ languages, text ∈ L := by
  induction languages with
  | nil => exact ⟨fun member => absurd member (Language.notMem_zero text), nofun⟩
  | cons L rest ih => rw [List.sum_cons, Language.mem_add, ih, List.exists_mem_cons_iff]

section Shapes

variable {rule : Rule} (found : findRule? rules name = some rule)

include found

theorem spelled_terminal {m : Matcher} {p : Pattern} (body : rule.body = .terminal m)
    (read : Pattern.read m.pattern.toList = .ok p) : spelled rules name = p.language := by
  ext text
  constructor
  · intro spells
    cases spells with
    | terminal there body' read' member later =>
      cases found.symm.trans there
      cases body.symm.trans body'
      cases read.symm.trans read'
      obtain rfl := spells_nil_iff.1 later
      rwa [List.append_nil]
    | production there allowed =>
      cases found.symm.trans there
      rw [body] at allowed
      exact allowed.elim
  · exact .one found body read

theorem spelled_sequence {terms : List String}
    (body : rule.body = .concatenation terms ∨ rule.body = .attrProduction terms) :
    spelled rules name = (terms.map (spelled rules)).prod := by
  have production : ∀ m, rule.body ≠ .terminal m := fun m => by
    rcases body with body | body <;> exact body ▸ nofun
  have only {sequence : List String} : rule.body.Allows sequence ↔ sequence = terms := by
    rcases body with body | body <;> exact body ▸ Iff.rfl
  ext text
  simp only [mem_spelled_iff found production, only, exists_eq_left]

theorem spelled_alternation {terms : List String} (body : rule.body = .alternation terms) :
    spelled rules name = (terms.map (spelled rules)).sum := by
  ext text
  rw [mem_spelled_iff found (body ▸ nofun), body, mem_sum_iff]
  constructor
  · rintro ⟨_, ⟨term, listed, rfl⟩, spells⟩
    rw [List.map_singleton, List.prod_singleton] at spells
    exact ⟨_, List.mem_map_of_mem listed, spells⟩
  · rintro ⟨L, listed, spells⟩
    obtain ⟨term, member, rfl⟩ := List.mem_map.1 listed
    refine ⟨[term], ⟨term, member, rfl⟩, ?_⟩
    rwa [List.map_singleton, List.prod_singleton]

theorem spelled_repetition {term : String} (body : rule.body = .repetition term) :
    spelled rules name = (spelled rules term)∗ := by
  ext text
  rw [mem_spelled_iff found (body ▸ nofun), body, Language.kstar_eq_iSup_pow, Language.mem_iSup]
  constructor
  · rintro ⟨_, ⟨n, rfl⟩, spells⟩
    rw [List.map_replicate, List.prod_replicate] at spells
    exact ⟨n, spells⟩
  · rintro ⟨n, spells⟩
    refine ⟨_, ⟨n, rfl⟩, ?_⟩
    rwa [List.map_replicate, List.prod_replicate]

theorem spelled_option {term : String} (body : rule.body = .option term) :
    spelled rules name = 1 + spelled rules term := by
  ext text
  rw [mem_spelled_iff found (body ▸ nofun), body, Language.mem_add]
  constructor
  · rintro ⟨_, rfl | rfl, spells⟩
    · exact .inl spells
    · rw [List.map_singleton, List.prod_singleton] at spells
      exact .inr spells
  · rintro (nothing | spells)
    · exact ⟨[], .inl rfl, nothing⟩
    · refine ⟨[term], .inr rfl, ?_⟩
      rwa [List.map_singleton, List.prod_singleton]

end Shapes

/-- Whether the terminals are made of patterns that are valid on their own and free of anchors and
other assertions. -/
def PlainTerminals (rules : List Rule) : Prop :=
  ∀ rule ∈ rules, ∀ m, rule.body = .terminal m →
    ∃ p, Pattern.read m.pattern.toList = .ok p ∧ p.plain = true

/-- The same of one right-hand side, to be computed. -/
def isPlain : RuleBody → Bool
  | .terminal m => (Pattern.read m.pattern.toList).toOption.any Pattern.plain
  | _ => true

theorem isPlain_iff {body : RuleBody} : isPlain body = true ↔ ∀ m, body = .terminal m →
    ∃ p, Pattern.read m.pattern.toList = .ok p ∧ p.plain = true := by
  cases body with
  | terminal m =>
    simp only [RuleBody.terminal.injEq, forall_eq']
    rw [isPlain]
    cases Pattern.read m.pattern.toList with
    | error e => exact ⟨nofun, nofun⟩
    | ok p => exact ⟨fun plain => ⟨p, rfl, plain⟩, fun ⟨_, same, plain⟩ => Except.ok.inj same ▸ plain⟩
  | concatenation | alternation | repetition | option | attrTerminal | attrProduction =>
    exact ⟨fun _ => nofun, fun _ => rfl⟩

instance (rules : List Rule) : Decidable (PlainTerminals rules) :=
  decidable_of_iff (∀ rule ∈ rules, isPlain rule.body = true)
    (forall₂_congr fun _ _ => isPlain_iff)

/-- Whether every choice has a branch. -/
def Chosen (rules : List Rule) : Prop := ∀ rule ∈ rules, rule.body ≠ .alternation []

instance (rules : List Rule) : Decidable (Chosen rules) :=
  inferInstanceAs (Decidable (∀ rule ∈ rules, rule.body ≠ .alternation []))

/-- Whether the matchers of all terminals are made of their patterns. -/
def MadeTerminals (rules : List Rule) : Prop :=
  ∀ rule ∈ rules, ∀ m, rule.body = .terminal m → m.Made

/-- A matcher reads the texts of a name. -/
def ReadsName (rules : List Rule) (name : String) (m : Matcher) : Prop :=
  m.Reads (.ofLanguage (spelled rules name))

theorem eq_ok_of_toOption {r : Except PatternError Matcher} {m : Matcher}
    (kept : r.toOption = some m) : r = .ok m := by
  cases r with
  | error e => cases kept
  | ok m' => exact congrArg Except.ok (Option.some.inj kept)

/-- Composing follows the shapes of EBNF. -/
theorem reads_composed? {rule : Rule} (found : findRule? rules name = some rule)
    (chosen : Chosen rules) {own : List Matcher} {m : Matcher}
    (terms : List.Forall₂ (ReadsName rules) rule.terms own)
    (made : composed? rule.body own = some m) : ReadsName rules name m := by
  have parts : List.Forall₂ Matcher.Reads own
      (rule.terms.map fun term => .ofLanguage (spelled rules term)) :=
    List.forall₂_map_right_iff.2 terms.flip
  unfold ReadsName
  cases body : rule.body with
  | terminal | attrTerminal =>
    rw [body] at made
    cases made
  | concatenation names =>
    rw [body] at made
    rw [Rule.terms, body] at parts
    rw [spelled_sequence found (.inl body), map_list_prod, List.map_map]
    exact .concatenation parts (eq_ok_of_toOption made)
  | attrProduction names =>
    rw [body] at made
    rw [Rule.terms, body] at parts
    rw [spelled_sequence found (.inr body), map_list_prod, List.map_map]
    exact .concatenation parts (eq_ok_of_toOption made)
  | alternation names =>
    rw [body] at made
    have nonempty : own ≠ [] := by
      rintro rfl
      have empty : rule.terms = [] := List.forall₂_nil_right_iff.1 terms
      rw [Rule.terms, body] at empty
      exact chosen rule (List.mem_of_find?_eq_some found) (body.trans (congrArg _ empty))
    rw [Rule.terms, body] at parts
    rw [spelled_alternation found body, map_list_sum, List.map_map]
    exact .alternation parts nonempty (eq_ok_of_toOption made)
  | repetition term =>
    rw [body] at made
    rw [Rule.terms, body] at terms
    obtain ⟨part, _, reads, last, rfl⟩ := List.forall₂_cons_left_iff.1 terms
    obtain rfl := List.forall₂_nil_left_iff.1 last
    rw [spelled_repetition found body, Passage.ofLanguage_kstar]
    exact .repetition reads (eq_ok_of_toOption made)
  | option term =>
    rw [body] at made
    rw [Rule.terms, body] at terms
    obtain ⟨part, _, reads, last, rfl⟩ := List.forall₂_cons_left_iff.1 terms
    obtain rfl := List.forall₂_nil_left_iff.1 last
    rw [spelled_option found body, map_add, map_one]
    exact .option reads (eq_ok_of_toOption made)

/-- What names compose to reads the texts of the names. -/
theorem Composes.reads {parts : List Matcher} (plain : PlainTerminals rules)
    (genuine : MadeTerminals rules) (chosen : Chosen rules)
    (composes : Composes rules names parts) : List.Forall₂ (ReadsName rules) names parts := by
  induction composes with
  | nil => exact .nil
  | @terminal name rule m names parts found body _ later =>
    have listed := List.mem_of_find?_eq_some found
    obtain ⟨p, read, free⟩ := plain rule listed m body
    refine .cons ?_ later
    rw [ReadsName, spelled_terminal found body read, ← Pattern.reads_of_plain free]
    exact .of_read (genuine rule listed m body) read
  | composed found _ made _ terms later => exact .cons (reads_composed? found chosen terms made) later

/-- Whether the matchers that a call takes over are made of their patterns. -/
def Call.TakesMade : Call → Prop
  | .importTerminal g _ => ∀ rule ∈ g.rules, ∀ m, rule.matcher = some m → m.Made
  | _ => True

theorem composed?_made {body : RuleBody} {own : List Matcher} {m : Matcher}
    (made : composed? body own = some m) : m.Made := by
  have ofPattern {text : String} (made : (Matcher.ofPattern text).toOption = some m) : m.Made := by
    have made := eq_ok_of_toOption made
    exact (congrArg Matcher.ofPattern (Matcher.ofPattern_eq_ok made).1).trans made
  unfold composed? at made
  split at made
  · exact ofPattern made
  · exact ofPattern made
  · exact ofPattern made
  · exact ofPattern made
  · exact ofPattern made
  · cases made

/-- All matchers are made of their patterns if those of the terminals are. -/
theorem MadeTerminals.matcher (genuine : MadeTerminals rules) (composed : Composed rules)
    {rule : Rule} (listed : rule ∈ rules) {m : Matcher} (stored : rule.matcher = some m) : m.Made := by
  cases (composed rule listed m).1 stored with
  | terminal found body => exact genuine _ (List.mem_of_find?_eq_some found) m body
  | composed _ _ made => exact composed?_made made

theorem MadeTerminals.refresh (genuine : MadeTerminals rules) : MadeTerminals (refresh rules) := by
  obtain ⟨f, same, refreshed⟩ := refresh_eq_map rules
  rw [same]
  exact List.forall_mem_map.2 fun rule listed m body =>
    genuine rule listed m ((refreshed rule).body ▸ body)

theorem MadeTerminals.of_coherent {base : List Rule} (genuine : MadeTerminals base)
    (coherent : Coherent base rules) : MadeTerminals rules := by
  intro rule listed m body
  obtain ⟨old, before, same⟩ := List.mem_map.1 (coherent.same ▸ List.mem_map_of_mem listed)
  have same : old.bare.body = rule.bare.body := congrArg Rule.body same
  exact genuine old before m (same.trans body)

theorem made_of_terminal_body {name : String} {matcher : Option Matcher} {synthesized : List Attr}
    {m : Matcher} (made : ∀ m, matcher = some m → m.Made)
    (body : (Rule.terminal name matcher synthesized).body = .terminal m) : m.Made := by
  cases matcher with
  | none => cases body
  | some own =>
    cases body
    exact made _ rfl

theorem Call.TakesMade.rule {c : Call} (takes : c.TakesMade) {rule : Rule}
    (defines : c.rule? = some rule) {m : Matcher} (body : rule.body = .terminal m) : m.Made := by
  cases c with
  | terminal name pattern =>
    rw [Call.rule?] at defines
    split at defines
    · next own made =>
      cases defines
      cases body
      exact (congrArg Matcher.ofPattern (Matcher.ofPattern_eq_ok made).1).trans made
    · cases defines
  | importTerminal g name =>
    obtain ⟨known, found, formed⟩ := Option.bind_eq_some_iff.1 defines
    obtain ⟨_, rfl⟩ := toTerminal?_cases formed
    exact made_of_terminal_body (takes known (List.mem_of_find?_eq_some found)) body
  | attrTerminal | concatenation | alternation | repetition | option | attrProduction =>
    cases defines
    cases body
  | makeTerminal | firstSet => cases defines

/-- One call. -/
theorem MadeTerminals.call {d d' : Draft} (genuine : MadeTerminals d.rules)
    (consistent : Consistent d.rules) (composed : Composed d.rules) {c : Call} (takes : c.TakesMade)
    (called : d.call c = .ok d') : MadeTerminals d'.rules := by
  rcases call_cases called with ⟨rule, defines, inserted⟩ | ⟨name, -, made⟩ | ⟨name, _, -, found⟩
  · rw [insert_eq] at inserted
    split at inserted
    · cases inserted
    · cases inserted
      refine MadeTerminals.refresh fun new listed m body => ?_
      rcases List.mem_append.1 listed with old | last
      · exact genuine new old m body
      · exact takes.rule defines (List.mem_singleton.1 last ▸ body)
  · obtain ⟨rule, listed, rfl, rfl⟩ := makeTerminal_cases made
    refine MadeTerminals.refresh (List.forall_mem_map.2 fun old before m body => ?_)
    rw [Rule.forgetFirst_body] at body
    split at body
    · exact made_of_terminal_body (fun m stored => genuine.matcher composed listed stored) body
    · exact genuine old before m body
  · rw [firstSet_eq] at found
    split at found
    · cases found
      exact genuine.of_coherent (consistent.finds name).coherent
    · cases found

theorem madeTerminals_ran {calls : List Call} (takes : ∀ c ∈ calls, c.TakesMade) :
    MadeTerminals (ran calls).rules := by
  have run : ∀ (calls : List Call) (d : Draft), (∀ c ∈ calls, c.TakesMade) →
      Consistent d.rules → Composed d.rules → MadeTerminals d.rules →
      MadeTerminals (calls.foldl next d).rules := by
    intro calls
    induction calls with
    | nil => exact fun _ _ _ _ genuine => genuine
    | cons c rest ih =>
      intro d takes consistent composed genuine
      obtain ⟨here, later⟩ := List.forall_mem_cons.1 takes
      rw [List.foldl_cons, next]
      cases called : d.call c with
      | error e => exact ih d later consistent composed genuine
      | ok d' =>
        exact ih d' later (consistent.call called) (composed.call consistent called)
          (genuine.call consistent composed here called)
  rw [ran_eq_after]
  exact run calls {} takes .empty (List.forall_mem_nil _) (List.forall_mem_nil _)

/-- The matchers of a grammar that is built are made of their patterns, so they may be taken over
into other drafts. -/
theorem takesMade_of_build {calls : List Call} (takes : ∀ c ∈ calls, c.TakesMade) {name : String}
    {top : Option String} {g : Grammar} (built : (ran calls).build name top = .ok g)
    (term : String) : (Call.importTerminal g term).TakesMade := by
  obtain ⟨start, d', -, extended, -, gapless, rfl⟩ := build_eq_ok_iff.1 built
  have genuine := madeTerminals_ran takes
  have consistent := after_consistent calls
  have composed := after_composed calls
  rw [← ran_eq_after] at consistent composed
  have after : MadeTerminals d'.rules ∧ Composed d'.rules := by
    have extended' := extended
    unfold withNullable at extended'
    split at extended'
    · cases extended'
      exact ⟨genuine, composed⟩
    · exact ⟨genuine.call consistent composed (c := .terminal nullable "") trivial extended',
        composed.call (c := .terminal nullable "") consistent extended'⟩
  have consistent := consistent.withNullable extended
  have resolved := consistent.resolved (danglingTerm?_eq_none_iff.1 gapless)
  have coherent := (settleFirst_spec consistent resolved).1
  have distinct : ((settleFirst d'.rules).map Rule.name).Nodup :=
    coherent.names ▸ consistent.distinct
  intro rule listed m stored
  obtain ⟨old, before, rfl⟩ := List.mem_map.1 listed
  exact (after.1.of_coherent coherent).matcher (after.2.of_coherent coherent distinct) before stored

/-- Whether the terminals that calls take over come from grammars that were built by such calls. -/
inductive FromBuilt : List Call → Prop
  | nil : FromBuilt []
  | call {c : Call} {calls : List Call} (own : ∀ g term, c ≠ .importTerminal g term)
      (later : FromBuilt calls) : FromBuilt (c :: calls)
  | imports {before calls : List Call} {name : String} {top : Option String} {g : Grammar}
      (term : String) (there : FromBuilt before) (built : (ran before).build name top = .ok g)
      (later : FromBuilt calls) : FromBuilt (.importTerminal g term :: calls)

theorem FromBuilt.takesMade {calls : List Call} (founded : FromBuilt calls) :
    ∀ c ∈ calls, c.TakesMade := by
  induction founded with
  | nil => exact List.forall_mem_nil _
  | @call c calls own _ ih =>
    refine List.forall_mem_cons.2 ⟨?_, ih⟩
    cases c with
    | importTerminal g term => exact absurd rfl (own g term)
    | _ => trivial
  | imports term _ built _ there ih =>
    exact List.forall_mem_cons.2 ⟨takesMade_of_build there built term, ih⟩

/-- After any calls that take terminals from built grammars only: a rule with a matcher accepts just
the texts that it spells. -/
theorem accepts_iff_spells {calls : List Call} (founded : FromBuilt calls)
    (plain : PlainTerminals (ran calls).rules) (chosen : Chosen (ran calls).rules) {rule : Rule}
    (listed : rule ∈ (ran calls).rules) (matched : rule.matcher.isSome = true) (text : String) :
    rule.accepts text = true ↔ Spells (ran calls).rules [rule.name] text.toList := by
  obtain ⟨m, stored⟩ := Option.isSome_iff_exists.1 matched
  have composed := after_composed calls
  rw [← ran_eq_after] at composed
  have parts :=
    ((composed rule listed m).1 stored).reads plain (madeTerminals_ran founded.takesMade) chosen
  obtain ⟨_, _, reads, _, same⟩ := List.forall₂_cons_left_iff.1 parts
  cases same
  rw [Rule.accepts, stored]
  exact Matcher.Reads.accepts_iff_mem reads

/-- A digit, or a letter in either case. -/
def digitCalls : List Call := [.terminal "digit" "0|(?i-u:[1-9a-f])"]

/-- The digits that were built, taken over. -/
def digitImports : List Call :=
  (((ran digitCalls).build "digits" (some "digit")).toOption.map fun g =>
    .importTerminal g "digit").toList

/-- A sum whose terms are defined after it, of digits that another grammar defines. -/
def sumCalls : List Call :=
  .concatenation "sum" ["first", "more"] :: .option "first" "digit" ::
    .repetition "more" "term" :: .concatenation "term" ["sign", "digit"] ::
    .terminal "sign" "(?x)-|\\+ # either sign\n" :: digitImports

theorem fromBuilt_digitImports : FromBuilt digitImports := by
  have digits : FromBuilt digitCalls := .call nofun .nil
  unfold digitImports
  cases built : (ran digitCalls).build "digits" (some "digit") with
  | ok g => exact .imports "digit" digits built .nil
  | error e => exact .nil

theorem fromBuilt_sumCalls : FromBuilt sumCalls :=
  .call nofun (.call nofun (.call nofun (.call nofun (.call nofun fromBuilt_digitImports))))

theorem accepts_iff_spells_sum : FromBuilt sumCalls ∧
    PlainTerminals (ran sumCalls).rules ∧ Chosen (ran sumCalls).rules ∧
    ∃ rule ∈ (ran sumCalls).rules, rule.name = "sum" ∧ rule.matcher.isSome = true ∧
      Spells (ran sumCalls).rules ["sum"] "1+B-c".toList ∧
      ¬ Spells (ran sumCalls).rules ["sum"] "1+".toList := by
  have facts : PlainTerminals (ran sumCalls).rules ∧ Chosen (ran sumCalls).rules ∧
      ∃ rule ∈ (ran sumCalls).rules, rule.name = "sum" ∧ rule.matcher.isSome = true ∧
        rule.accepts "1+B-c" = true ∧ rule.accepts "1+" = false := by decide +kernel
  obtain ⟨plain, chosen, rule, listed, named, matched, accepted, refused⟩ := facts
  have spells := accepts_iff_spells fromBuilt_sumCalls plain chosen listed matched
  rw [named] at spells
  refine ⟨fromBuilt_sumCalls, plain, chosen, rule, listed, named, matched, (spells _).1 accepted,
    fun other => ?_⟩
  exact Bool.false_ne_true (refused.symm.trans ((spells _).2 other))

end Draft

end AttrGrammar
