import AttrGrammar.Proofs.Grammar.Matchers

/-!
What holds of drafts at any time, whatever was called before and whether it failed.

A matcher is stored just where there is one: a rule that has just been resolved gets what its name
composes to, and what a resolved name composes to never changes, not even where a rule below it is
replaced by its terminal form.
-/

namespace AttrGrammar.Draft

variable {rules : List Rule} {d d' : Draft}

/-- The rules in `names` are still to be composed. -/
theorem foldl_storeMatcher_matchers {gaps : List String} (distinct : (rules.map Rule.name).Nodup)
    (marks : ∀ name, gaps.contains name = true → name ∈ unresolvedNames rules)
    (names : List String) {f : Rule → Rule} {memo : Memo}
    (refreshed : ∀ rule, Refreshed gaps rule (f rule)) (sound : Sound rules memo)
    (settled : ∀ rule ∈ rules, rule.name ∉ names →
      ∀ m, (f rule).matcher = some m ↔ Composes rules [rule.name] [m]) :
    ∀ rule ∈ (names.foldl storeMatcher (rules.map f, memo)).1,
      ∀ m, rule.matcher = some m ↔ Composes rules [rule.name] [m] := by
  induction names generalizing f memo with
  | nil =>
    rw [List.foldl_nil, List.forall_mem_map]
    intro rule listed
    rw [(refreshed rule).name]
    exact settled rule listed List.not_mem_nil
  | cons name rest ih =>
    have named := fun rule => (refreshed rule).name
    have body := fun rule => (refreshed rule).body
    have once : ((rules.map f).map Rule.name).Nodup := by
      rw [List.map_map]
      simpa only [Function.comp_def, named] using distinct
    have marked : ∀ rule ∈ rules.map f, rule.unresolved = true →
        rule.name ∈ unresolvedNames (rules.map f) := by
      rw [unresolvedNames_map named body, List.forall_mem_map]
      intro rule _ gap
      rw [named]
      exact marks _ ((refreshed rule).mark.symm.trans gap)
    have answers : Answers (rules.map f) name _ := matcherOf?_answers once marked
      ((rules.map f).length + 1) (sound.map named body) List.nodup_nil (List.forall_mem_nil _)
      (List.forall_mem_nil _) (Nat.lt_succ_self _)
    have kept : Sound rules (matcherOf? (rules.map f) ((rules.map f).length + 1) [] memo name).2 := by
      intro other known there m
      rw [← composes_map_iff named body]
      exact answers.sound other known there m
    rw [List.foldl_cons, storeMatcher]
    dsimp only
    rw [List.map_map]
    refine ih (fun rule => (refreshed rule).storing name _) kept fun rule listed later m => ?_
    rw [Function.comp_apply]
    split
    · next here =>
      rw [← composes_map_iff named body, ← named rule, here]
      exact answers.right m
    · next other =>
      refine settled rule listed (fun member => ?_) m
      rcases List.mem_cons.1 member with same | among
      · exact other ((named rule).trans same)
      · exact later among

/-- A matcher is stored just where there is one. -/
def Composed (rules : List Rule) : Prop :=
  ∀ rule ∈ rules, ∀ m, rule.matcher = some m ↔ Composes rules [rule.name] [m]

/-- Rules without a gap must have the right matchers before they are brought up to date. -/
theorem refresh_composed (distinct : (rules.map Rule.name).Nodup)
    (bare : ∀ rule ∈ rules, rule.unresolved = true → rule.matcher = none)
    (right : ∀ rule ∈ rules, rule.unresolved = false → rule.name ∉ unresolvedNames rules →
      ∀ m, rule.matcher = some m ↔ Composes rules [rule.name] [m]) : Composed (refresh rules) := by
  obtain ⟨f, same, refreshed⟩ := refresh_eq_map rules
  have named := fun rule => (refreshed rule).name
  have body := fun rule => (refreshed rule).body
  have stored := foldl_storeMatcher_matchers distinct (fun _ => List.contains_iff_mem.1)
    (resolvedNames (unresolvedNames rules) rules) (refreshed_mark _) (sound_empty rules) ?_
  · intro rule listed m
    have moved := stored rule listed m
    rw [same, composes_map_iff named body]
    exact moved
  · intro rule listed waits m
    unfold mark
    dsimp only
    by_cases gap : rule.name ∈ unresolvedNames rules
    · have never : ¬ Composes rules [rule.name] [m] := fun composes =>
        (composes.whole distinct).2 gap
      have bareMatcher : (if rule.unresolved = (unresolvedNames rules).contains rule.name then rule
          else rule.setUnresolved ((unresolvedNames rules).contains rule.name)).matcher = none := by
        rw [List.contains_iff_mem.2 gap]
        split
        · next marked => exact bare rule listed marked
        · rfl
      rw [bareMatcher]
      exact ⟨nofun, fun composes => absurd composes never⟩
    · have missing : (unresolvedNames rules).contains rule.name = false :=
        Bool.eq_false_iff.2 fun member => gap (List.contains_iff_mem.1 member)
      have resolved : rule.unresolved = false := by
        refine Bool.eq_false_iff.2 fun marked => waits (List.mem_map.2 ⟨rule, ?_, rfl⟩)
        rw [List.mem_filter, marked, missing]
        exact ⟨listed, rfl⟩
      rw [resolved, missing, if_pos rfl]
      exact right rule listed resolved gap m

theorem Composed.bare (composed : Composed rules) (distinct : (rules.map Rule.name).Nodup)
    {rule : Rule} (listed : rule ∈ rules) (gap : rule.name ∈ unresolvedNames rules) :
    rule.matcher = none := by
  refine Option.eq_none_iff_forall_ne_some.2 fun m found => ?_
  exact (((composed rule listed m).1 found).whole distinct).2 gap

theorem Consistent.gap_iff (consistent : Consistent rules) {rule : Rule} (listed : rule ∈ rules) :
    rule.unresolved = true ↔ rule.name ∈ unresolvedNames rules := by
  rw [consistent.marks rule listed, List.contains_iff_mem]

theorem Consistent.whole_iff (consistent : Consistent rules) {rule : Rule} (listed : rule ∈ rules) :
    Whole rules rule.name ↔ rule.unresolved = false := by
  rw [← Bool.not_eq_true, consistent.gap_iff listed]
  exact and_iff_right (List.mem_map_of_mem listed)

/-- A terminal composes to its own matcher. -/
theorem composes_terminal_iff {name : String} {matcher : Option Matcher} {synthesized : List Attr}
    {m : Matcher} (found : findRule? rules name = some (.terminal name matcher synthesized)) :
    Composes rules [name] [m] ↔ matcher = some m := by
  rw [composes_one_iff found]
  cases matcher with
  | none => exact ⟨fun composes => composes.elim nofun fun ⟨_, _, made⟩ => (nomatch made), nofun⟩
  | some own =>
    rw [Option.some.injEq]
    refine ⟨fun composes => ?_, fun same => Or.inl (congrArg RuleBody.terminal same)⟩
    rcases composes with body | ⟨_, _, made⟩
    · exact RuleBody.terminal.inj body
    · cases made

theorem Composed.insert {rule : Rule} (consistent : Consistent d.rules) (composed : Composed d.rules)
    {c : Call} (defines : c.rule? = some rule) (inserted : d.insert rule = .ok d')
    (after : Consistent d'.rules) : Composed d'.rules := by
  rw [insert_eq] at inserted
  split at inserted
  · cases inserted
  · cases inserted
    have distinct : ((d.rules ++ [rule]).map Rule.name).Nodup := names_refresh _ ▸ after.distinct
    refine refresh_composed distinct (fun r listed gap => ?_) fun r listed resolved _ m => ?_
    · rcases List.mem_append.1 listed with old | new
      · exact composed.bare consistent.distinct old ((consistent.gap_iff old).1 gap)
      · cases List.mem_singleton.1 new
        obtain ⟨_, _, _, rfl⟩ | ⟨_, _, _, _, rfl⟩ := Call.rule?_cases defines
        · cases gap
        · rfl
    · rcases List.mem_append.1 listed with old | new
      · have shared : SharedPart d.rules (d.rules ++ [rule]) _ := sharedPart_append [rule]
        have whole := (consistent.whole_iff old).2 resolved
        have here : ∀ name ∈ [r.name], Whole d.rules name := by simpa using whole
        rw [composed r old m]
        exact ⟨fun composes => composes.shared shared here,
          fun composes => composes.shared shared.symm here⟩
      · cases List.mem_singleton.1 new
        obtain ⟨_, _, _, rfl⟩ | ⟨_, _, _, _, rfl⟩ := Call.rule?_cases defines
        · exact (composes_terminal_iff (findRule?_of_mem distinct listed)).symm
        · cases resolved

/-- The terminal form of a rule has the matcher that its terms composed to, so nothing changes for
the rules above. -/
theorem composes_replaceRule_iff (consistent : Consistent rules) (composed : Composed rules)
    {rule : Rule} (listed : rule ∈ rules) {synthesized : List Attr} {names : List String}
    {parts : List Matcher} :
    Composes (replaceRule rule.name (.terminal rule.name rule.matcher synthesized) rules) names parts ↔
      Composes rules names parts := by
  generalize replaced : replaceRule rule.name (.terminal rule.name rule.matcher synthesized) rules =
    others
  have found := findRule?_of_mem consistent.distinct listed
  have find : ∀ name, findRule? others name = (findRule? rules name).map fun r =>
      (if r.name = rule.name then Rule.terminal rule.name rule.matcher synthesized
        else r).forgetFirst := fun name =>
    replaced ▸ findRule?_map (fun r => (Rule.forgetFirst_replaced _ _ _ r).1) rules name
  have here : findRule? others rule.name = some (.terminal rule.name rule.matcher synthesized) := by
    rw [find, found, Option.map_some, if_pos rfl, Rule.forgetFirst,
      if_pos (Rule.isTerminal_terminal ..)]
  have beside : ∀ {name}, name ≠ rule.name →
      (findRule? others name).map Rule.body = (findRule? rules name).map Rule.body := by
    intro name other
    rw [find, Option.map_map]
    refine Option.map_congr fun r there => ?_
    rw [Function.comp_apply, if_neg (findRule?_name there ▸ other), Rule.forgetFirst_body]
  have one := fun m => composed rule listed m
  constructor
  · refine fun composes => composes.transfer (fun _ => True) (fun name r _ there => ?_)
      fun _ _ => trivial
    by_cases same : name = rule.name
    · subst same
      exact Or.inr fun m composes => (one m).1 ((composes_terminal_iff here).1 composes)
    · have shape := beside same
      rw [there, Option.map_some, eq_comm, Option.map_eq_some_iff] at shape
      obtain ⟨r', known, body⟩ := shape
      exact Or.inl ⟨r', known, body, fun _ _ => trivial⟩
  · refine fun composes => composes.transfer (fun _ => True) (fun name r _ there => ?_)
      fun _ _ => trivial
    by_cases same : name = rule.name
    · subst same
      exact Or.inr fun m composes => (composes_terminal_iff here).2 ((one m).2 composes)
    · have shape := beside same
      rw [there, Option.map_some, Option.map_eq_some_iff] at shape
      obtain ⟨r', known, body⟩ := shape
      exact Or.inl ⟨r', known, body, fun _ _ => trivial⟩

/-- Nothing else that matters for matchers changes either. -/
theorem exists_of_mem_replaceRule (consistent : Consistent rules) {rule new : Rule}
    (listed : rule ∈ rules) {synthesized : List Attr}
    (member : new ∈ replaceRule rule.name (.terminal rule.name rule.matcher synthesized) rules) :
    ∃ old ∈ rules, new.name = old.name ∧ new.matcher = old.matcher ∧
      (new.unresolved = true → old.unresolved = true) := by
  obtain ⟨old, before, rfl⟩ := List.mem_map.1 member
  refine ⟨old, before, ?_⟩
  rw [Rule.forgetFirst_name, Rule.forgetFirst_matcher, Rule.forgetFirst_unresolved]
  split
  · next same =>
    have found := findRule?_of_mem consistent.distinct before
    rw [same, findRule?_of_mem consistent.distinct listed] at found
    cases found
    exact ⟨rfl, rfl, Bool.noConfusion⟩
  · exact ⟨rfl, rfl, id⟩

theorem Composed.replaceRule (consistent : Consistent rules) (composed : Composed rules) {rule : Rule}
    (listed : rule ∈ rules) (synthesized : List Attr) :
    Composed (replaceRule rule.name (.terminal rule.name rule.matcher synthesized) rules) := by
  intro new member m
  obtain ⟨old, before, name, matcher, -⟩ := exists_of_mem_replaceRule consistent listed member
  rw [composes_replaceRule_iff consistent composed listed, name, matcher]
  exact composed old before m

theorem Composed.makeTerminal {name : String} (consistent : Consistent d.rules)
    (composed : Composed d.rules) (made : d.makeTerminal name = .ok d')
    (after : Consistent d'.rules) : Composed d'.rules := by
  obtain ⟨rule, listed, rfl, rfl⟩ := makeTerminal_cases made
  refine refresh_composed (names_refresh _ ▸ after.distinct) (fun new member gap => ?_)
    fun new member _ _ => composed.replaceRule consistent listed _ new member
  obtain ⟨old, before, -, matcher, marked⟩ := exists_of_mem_replaceRule consistent listed member
  exact matcher.trans (composed.bare consistent.distinct before
    ((consistent.gap_iff before).1 (marked gap)))

/-- Storing FIRST sets leaves matchers as they are. -/
theorem Composed.of_coherent {base : List Rule} (composed : Composed base)
    (coherent : Coherent base rules) (distinct : (rules.map Rule.name).Nodup) : Composed rules := by
  intro rule listed m
  obtain ⟨known, found, same⟩ := coherent.exists_rule (findRule?_of_mem distinct listed)
  have matcher : known.bare.matcher = rule.bare.matcher := congrArg Rule.matcher same
  have name : known.bare.name = rule.bare.name := congrArg Rule.name same
  change known.matcher = rule.matcher at matcher
  change known.name = rule.name at name
  have moves : Composes rules [rule.name] [m] ↔ Composes base [rule.name] [m] :=
    ⟨fun composes => composes.shared coherent.sharedPart.symm fun _ _ => trivial,
      fun composes => composes.shared coherent.sharedPart fun _ _ => trivial⟩
  rw [moves, ← matcher, ← name]
  exact composed known (List.mem_of_find?_eq_some found) m

theorem Composed.firstSet {name : String} {first : NameSet} (consistent : Consistent d.rules)
    (composed : Composed d.rules) (found : d.firstSet name = .ok (first, d'))
    (after : Consistent d'.rules) : Composed d'.rules := by
  rw [firstSet_eq] at found
  split at found
  · cases found
    exact composed.of_coherent (consistent.finds name).coherent after.distinct
  · cases found

/-- One call. -/
theorem Composed.call (consistent : Consistent d.rules) (composed : Composed d.rules) {c : Call}
    (called : d.call c = .ok d') : Composed d'.rules := by
  have after := consistent.call called
  rcases call_cases called with ⟨rule, defines, inserted⟩ | ⟨name, -, made⟩ | ⟨name, _, -, found⟩
  · exact composed.insert consistent defines inserted after
  · exact composed.makeTerminal consistent made after
  · exact composed.firstSet consistent found after

theorem after_composed (calls : List Call) : Composed (after calls).rules :=
  (foldl_next (P := fun d => Consistent d.rules ∧ Composed d.rules)
    (fun ⟨consistent, composed⟩ called => ⟨consistent.call called, composed.call consistent called⟩)
    calls ⟨.empty, fun _ member => absurd member List.not_mem_nil⟩).2

theorem whole_refresh {name : String} (whole : Whole rules name) : Whole (refresh rules) name := by
  obtain ⟨f, same, refreshed⟩ := refresh_eq_map rules
  rw [same]
  refine whole.map (fun rule => (refreshed rule).name) fun rule term refers => ?_
  rwa [Rule.terms, (refreshed rule).body] at refers

/-- A rule without a gap never gets one. -/
theorem Whole.call (consistent : Consistent d.rules) {c : Call} (called : d.call c = .ok d')
    {name : String} (whole : Whole d.rules name) : Whole d'.rules name := by
  rcases call_cases called with ⟨rule, -, inserted⟩ | ⟨target, -, made⟩ | ⟨target, _, -, found⟩
  · rw [insert_eq] at inserted
    split at inserted
    · cases inserted
    · next missing =>
      cases inserted
      refine whole_refresh (whole.append _ fun new member there => missing ?_)
      cases List.mem_singleton.1 member
      exact definesRule_iff.2 there
  · obtain ⟨rule, -, rfl, rfl⟩ := makeTerminal_cases made
    refine whole_refresh (whole.map (fun r => ?_) fun r term refers => ?_)
    · exact (Rule.forgetFirst_replaced _ _ _ r).1
    · rw [Rule.terms, Rule.forgetFirst_body, ← Rule.terms] at refers
      split at refers
      · exact absurd (Rule.terms_terminal .. ▸ refers) List.not_mem_nil
      · exact refers
  · rw [firstSet_eq] at found
    split at found
    · cases found
      have coherent := (consistent.finds target).coherent
      rwa [Whole, coherent.names, unresolvedNames_coherent coherent]
    · cases found

theorem whole_after {calls : List Call} (more : List Call) {name : String}
    (whole : Whole (after calls).rules name) : Whole (after (calls ++ more)).rules name := by
  rw [after, List.foldl_append]
  exact (foldl_next (P := fun d => Consistent d.rules ∧ Whole d.rules name)
    (fun ⟨consistent, whole⟩ called => ⟨consistent.call called, whole.call consistent called⟩)
    more ⟨after_consistent calls, whole⟩).2

/-- The matcher that is stored for a name. -/
def matcherIn? (rules : List Rule) (name : String) : Option Matcher :=
  (findRule? rules name).bind Rule.matcher

/-- The name of a terminal that folding makes. -/
def Folded (rules : List Rule) (name : String) : Prop :=
  ∃ rule, findRule? rules name = some rule ∧ rule.body = .attrTerminal

/-- The pattern of every composition of stored matchers can be read. -/
def Composable (rules : List Rule) : Prop :=
  ∀ rule ∈ rules, rule.isTerminal = false → ∀ parts,
    rule.terms.mapM (matcherIn? rules) = some parts → (composed? rule.body parts).isSome = true

instance (rules : List Rule) : Decidable (Composable rules) :=
  decidable_of_iff (∀ rule ∈ rules, rule.isTerminal = false →
      (rule.terms.mapM (matcherIn? rules)).all (fun parts => (composed? rule.body parts).isSome) = true)
    (forall₂_congr fun rule _ => imp_congr_right fun _ => by simp [Option.all_eq_true])

section

variable {name : String} {names : List String} {m : Matcher} {parts : List Matcher}

theorem Composed.matcherIn?_iff (composed : Composed rules) (distinct : (rules.map Rule.name).Nodup) :
    matcherIn? rules name = some m ↔ Composes rules [name] [m] := by
  rw [matcherIn?]
  cases found : findRule? rules name with
  | none =>
    refine ⟨nofun, fun composes => ?_⟩
    obtain ⟨rule, listed, rfl⟩ := List.mem_map.1 (composes.whole distinct).1
    cases found.symm.trans (findRule?_of_mem distinct listed)
  | some rule =>
    obtain rfl := findRule?_name found
    exact composed rule (List.mem_of_find?_eq_some found) m

theorem Composed.mapM_iff (composed : Composed rules) (distinct : (rules.map Rule.name).Nodup) :
    names.mapM (matcherIn? rules) = some parts ↔ Composes rules names parts := by
  induction names generalizing parts with
  | nil =>
    rw [composes_nil_iff, List.mapM_nil]
    exact ⟨fun same => (Option.some.inj same).symm, fun same => congrArg some same.symm⟩
  | cons name rest ih =>
    simp only [List.mapM_cons, Option.bind_eq_bind, Option.bind_eq_some_iff, Option.pure_def,
      Option.some.injEq, composed.matcherIn?_iff distinct, ih,
      (composes_cons_iff : Composes rules (name :: rest) parts ↔ _)]
    exact ⟨fun ⟨m, here, more, later, same⟩ => ⟨m, more, same.symm, here, later⟩,
      fun ⟨m, more, same, here, later⟩ => ⟨m, here, more, later, same.symm⟩⟩

theorem body_ne_terminal {rule : Rule} (production : rule.isTerminal = false) :
    rule.body ≠ .terminal m := by
  intro body
  rw [Rule.isTerminal, Rule.kind, body] at production
  cases production

/-- The matcher of a rule that is no terminal is composed of those of its terms. -/
theorem Composed.eq_composed? (composed : Composed rules) (distinct : (rules.map Rule.name).Nodup)
    {rule : Rule} (listed : rule ∈ rules) (production : rule.isTerminal = false) :
    rule.matcher = (rule.terms.mapM (matcherIn? rules)).bind (composed? rule.body) := by
  refine Option.ext fun m => ?_
  rw [composed rule listed m, composes_one_iff (findRule?_of_mem distinct listed),
    or_iff_right (body_ne_terminal production), Option.bind_eq_some_iff]
  exact exists_congr fun own => and_congr_left' (composed.mapM_iff distinct).symm

theorem exists_composes_all (each : ∀ name ∈ names, ∃ m, Composes rules [name] [m]) :
    ∃ parts, Composes rules names parts := by
  induction names with
  | nil => exact ⟨[], .nil⟩
  | cons name rest ih =>
    obtain ⟨⟨m, here⟩, each⟩ := List.forall_mem_cons.1 each
    obtain ⟨more, later⟩ := ih each
    exact ⟨m :: more, composes_cons_iff.2 ⟨m, more, rfl, here, later⟩⟩

/-- There are finitely many names, so where none below reaches itself the ways down end. -/
theorem exists_composes (composed : Composed rules) (distinct : (rules.map Rule.name).Nodup)
    (composable : Composable rules) (whole : Whole rules name)
    (straight : ∀ b, Relation.ReflTransGen (Refers rules) name b →
      ¬ Reaches rules b b ∧ ¬ Folded rules b) : ∃ m, Composes rules [name] [m] := by
  let Below := {b // Whole rules b ∧ Relation.ReflTransGen (Refers rules) name b}
  have finite : Finite Below :=
    ((finite_names rules).subset fun b below => below.1.1 : Set.Finite
      {b | Whole rules b ∧ Relation.ReflTransGen (Refers rules) name b}).to_subtype
  let lower : Below → Below → Prop := fun b a => Reaches rules a.1 b.1
  have transitive : IsTrans Below lower := ⟨fun _ _ _ first second => second.trans first⟩
  have irreflexive : Std.Irrefl lower := ⟨fun b circle => (straight b.1 b.2.2).1 circle⟩
  have falls : WellFounded lower := Finite.wellFounded_of_trans_of_irrefl lower
  suffices all : ∀ b : Below, ∃ m, Composes rules [b.1] [m] from all ⟨name, whole, .refl⟩
  intro b
  induction b using falls.induction with
  | h b ih =>
    obtain ⟨b, whole, path⟩ := b
    obtain ⟨rule, listed, rfl⟩ := List.mem_map.1 whole.1
    have found := findRule?_of_mem distinct listed
    have each : ∀ term ∈ rule.terms, ∃ m, Composes rules [term] [m] := fun term refers =>
      have step : Refers rules rule.name term := ⟨rule, found, refers⟩
      ih ⟨term, Whole.terms listed whole term refers, path.tail step⟩ (.single step)
    obtain ⟨own, below⟩ := exists_composes_all each
    cases shape : rule.body with
    | terminal m => exact ⟨m, (composes_one_iff found).2 (Or.inl shape)⟩
    | attrTerminal => exact absurd ⟨rule, found, shape⟩ (straight rule.name path).2
    | concatenation | alternation | repetition | option | attrProduction =>
      have production : rule.isTerminal = false := by
        rw [Rule.isTerminal, Rule.kind, shape]
        rfl
      obtain ⟨m, made⟩ := Option.isSome_iff_exists.1
        (composable rule listed production own ((composed.mapM_iff distinct).2 below))
      exact ⟨m, (composes_one_iff found).2 (Or.inr ⟨own, below, made⟩)⟩

theorem Composes.not_folded (composes : Composes rules [name] [m]) : ¬ Folded rules name := by
  rintro ⟨rule, found, body⟩
  rcases (composes_one_iff found).1 composes with other | ⟨_, _, made⟩
  · cases body.symm.trans other
  · rw [body] at made
    cases made

end

/-- What holds of a rule of a draft. A rule that reaches itself reaches a name that does. -/
structure Standing (rules : List Rule) (rule : Rule) : Prop where
  gap : rule.unresolved = true ↔
    ∃ name, Reaches rules rule.name name ∧ definesRule rules name = false
  bare : rule.unresolved = true → rule.matcher = none ∧ rule.first = ∅
  matched : Composable rules → rule.unresolved = false → rule.isTerminal = false →
    (rule.matcher.isSome = true ↔
      ∀ name, Reaches rules rule.name name → ¬ Reaches rules name name ∧ ¬ Folded rules name)
  composed : rule.isTerminal = false →
    rule.matcher = (rule.terms.mapM (matcherIn? rules)).bind (composed? rule.body)

theorem Consistent.standing (consistent : Consistent rules) (composed : Composed rules) {rule : Rule}
    (listed : rule ∈ rules) : Standing rules rule where
  gap := (consistent.gap_iff listed).trans (mem_unresolvedNames_iff_reaches consistent.distinct)
  bare gap := ⟨composed.bare consistent.distinct listed ((consistent.gap_iff listed).1 gap),
    (consistent.coherent.blank rule listed gap).empty⟩
  matched composable resolved production := by
    constructor
    · intro there name path
      obtain ⟨m, stored⟩ := Option.isSome_iff_exists.1 there
      obtain ⟨m', composes⟩ := ((composed rule listed m).1 stored).of_reaches path
      exact ⟨composes.not_reaches_self, composes.not_folded⟩
    · intro straight
      have whole := (consistent.whole_iff listed).2 resolved
      obtain ⟨m, composes⟩ := exists_composes composed consistent.distinct composable whole
        fun b path => by
          rcases Relation.reflTransGen_iff_eq_or_transGen.1 path with rfl | path
          · refine ⟨fun circle => (straight _ circle).1 circle, ?_⟩
            rintro ⟨known, found, body⟩
            cases found.symm.trans (findRule?_of_mem consistent.distinct listed)
            rw [Rule.isTerminal, Rule.kind, body] at production
            cases production
          · exact straight b path
      exact Option.isSome_iff_exists.2 ⟨m, (composed rule listed m).2 composes⟩
  composed := composed.eq_composed? consistent.distinct listed

/-- The step that a call makes. -/
def Call.step : Call → DraftM Unit
  | .terminal name pattern => discard (defineTerminal name pattern)
  | .attrTerminal name synthesized => discard (define (.terminal name none synthesized))
  | .concatenation name terms => discard (define (.production name (.concatenation terms)))
  | .alternation name terms => discard (define (.production name (.alternation terms)))
  | .repetition name term => discard (define (.production name (.repetition term)))
  | .option name term => discard (define (.production name (.option term)))
  | .attrProduction name terms synthesized inherited =>
    discard (define (.production name (.attrProduction terms) synthesized inherited))
  | .makeTerminal name => discard (replaceByTerminal name)
  | .importTerminal g name => discard (takeTerminal g name)
  | .firstSet name => discard (requestFirst name)

/-- The draft that is there after a step, whether it failed or not. -/
def left {α : Type} (step : DraftM α) (d : Draft) : Draft :=
  match step.run d with
  | .ok _ d => d
  | .error _ d => d

/-- The draft after steps one after the other. -/
def ran (calls : List Call) : Draft := calls.foldl (fun d c => left c.step d) {}

theorem discard_run {α : Type} (step : DraftM α) (d : Draft) :
    (discard step).run d = match step.run d with
      | .ok _ after => .ok () after
      | .error e after => .error e after := by
  change EStateM.map (Function.const α ()) step d = _
  rw [EStateM.run, EStateM.map]
  cases step d <;> rfl

theorem keeps_discard {α : Type} {step : DraftM α} (keeps : Keeps step) : Keeps (discard step) := by
  intro d d' e failed
  rw [discard_run] at failed
  cases run : step.run d with
  | ok a after =>
    rw [run] at failed
    cases failed
  | error e' after =>
    rw [run] at failed
    cases failed
    exact keeps d _ _ run

/-- A call that fails leaves the draft as it was. -/
theorem keeps_step (c : Call) : Keeps c.step := by
  cases c with
  | terminal name pattern => exact keeps_discard (keeps_defineTerminal name pattern)
  | attrTerminal | concatenation | alternation | repetition | option | attrProduction =>
    exact keeps_discard (keeps_define _)
  | makeTerminal name => exact keeps_discard (keeps_replaceByTerminal name)
  | importTerminal g name => exact keeps_discard (keeps_takeTerminal g name)
  | firstSet name => exact keeps_discard (keeps_requestFirst name)

theorem left_discard {α : Type} {step : DraftM α} (keeps : Keeps step) (d : Draft) :
    left (discard step) d = (stepped step d).toOption.getD d := by
  rw [left, discard_run, stepped, outcome]
  cases run : step.run d with
  | ok a after => rfl
  | error e after => exact keeps d after e run

theorem left_step (d : Draft) (c : Call) : left c.step d = d.next c := by
  cases c with
  | terminal name pattern => exact left_discard (keeps_defineTerminal name pattern) d
  | attrTerminal | concatenation | alternation | repetition | option | attrProduction =>
    exact left_discard (keeps_define _) d
  | makeTerminal name => exact left_discard (keeps_replaceByTerminal name) d
  | importTerminal g name => exact left_discard (keeps_takeTerminal g name) d
  | firstSet name => exact left_discard (keeps_requestFirst name) d

theorem ran_eq_after (calls : List Call) : ran calls = after calls := by
  rw [ran, after]
  congr 1
  funext d c
  exact left_step d c

/-- After any calls: every rule of the draft stands as described; a rule without a gap has none after
more calls; and a call that fails leaves the whole draft as it was. -/
theorem ran_invariant (calls : List Call) :
    (∀ rule ∈ (ran calls).rules, Standing (ran calls).rules rule) ∧
    (∀ more, ∀ rule ∈ (ran calls).rules, rule.unresolved = false →
      ∃ later, (ran (calls ++ more)).find? rule.name = some later ∧ later.unresolved = false) ∧
    ∀ (c : Call) (e : GrammarError) (d : Draft),
      c.step.run (ran calls) = .error e d → d = ran calls := by
  simp only [ran_eq_after]
  have consistent := after_consistent calls
  refine ⟨fun rule => consistent.standing (after_composed calls), fun more rule listed resolved => ?_,
    fun c e d => keeps_step c _ d e⟩
  have whole := whole_after more ((consistent.whole_iff listed).2 resolved)
  obtain ⟨later, there, named⟩ := List.mem_map.1 whole.1
  have still := after_consistent (calls ++ more)
  refine ⟨later, ?_, (still.whole_iff there).1 (named ▸ whole)⟩
  rw [find?, ← named]
  exact findRule?_of_mem still.distinct there

/-- A pair whose parts are defined after it. -/
def pairCalls : List Call :=
  [.concatenation "pair" ["key", "value"], .firstSet "pair", .terminal "key" "k",
    .terminal "value" "[0-9]+"]

theorem pair_stands : Composable (ran pairCalls).rules ∧
    ∀ name, Reaches (ran pairCalls).rules "pair" name →
      ¬ Reaches (ran pairCalls).rules name name ∧ ¬ Folded (ran pairCalls).rules name := by
  have composable : Composable (ran pairCalls).rules := by decide +kernel
  have found : ∃ rule ∈ (ran pairCalls).rules, rule.name = "pair" ∧ rule.unresolved = false ∧
      rule.isTerminal = false ∧ rule.matcher.isSome = true := by decide +kernel
  obtain ⟨rule, listed, named, resolved, production, there⟩ := found
  have standing := (ran_invariant pairCalls).1 rule listed
  exact ⟨composable, named ▸ (standing.matched composable resolved production).1 there⟩

end AttrGrammar.Draft
