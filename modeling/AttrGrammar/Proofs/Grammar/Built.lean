import AttrGrammar.Proofs.Grammar.Follow
import AttrGrammar.Proofs.Grammar.History
import AttrGrammar.Proofs.Parsing.Predictive

/-!
Grammars that are built of drafts.

A draft without gaps has no unresolved rule, so each request for a FIRST set is stored, and the FOLLOW
sets are computed from exact FIRST sets. Without left recursion the sets of the grammar are closed
under their equations.
-/

namespace AttrGrammar

namespace Follow

/-- The conditions depend on names, right-hand sides and FIRST sets only. -/
theorem Closed.congr {rules others : List Rule} {top : String} {family : String → Set String}
    (defines : definesRule others = definesRule rules)
    (sets : firstSetOf others = firstSetOf rules)
    (known : ∀ rule ∈ others, ∃ old ∈ rules, old.name = rule.name ∧ old.body = rule.body)
    (closed : Closed rules top family) : Closed others top family := by
  have seeds : Seeds others = Seeds rules := by
    funext body term x
    cases body <;> simp only [Seeds, Begins, AllNullable, sets]
  have flows : Flows others = Flows rules := by
    funext body term
    cases body <;> simp only [Flows, AllNullable, sets]
  refine ⟨?_, fun rule listed term x defined seeded => ?_, fun rule listed term defined flowing => ?_⟩
  · rw [defines]
    exact closed.top
  · obtain ⟨old, member, -, body⟩ := known rule listed
    rw [seeds, ← body] at seeded
    exact closed.seeds old member (defines ▸ defined) seeded
  · obtain ⟨old, member, name, body⟩ := known rule listed
    rw [flows, ← body] at flowing
    rw [← name]
    exact closed.flows old member (defines ▸ defined) flowing

theorem closed_map_iff {f : Rule → Rule} (named : ∀ rule, (f rule).name = rule.name)
    (body : ∀ rule, (f rule).body = rule.body) (first : ∀ rule, (f rule).first = rule.first)
    {rules : List Rule} {top : String} {family : String → Set String} :
    Closed (rules.map f) top family ↔ Closed rules top family := by
  have sets : firstSetOf (rules.map f) = firstSetOf rules := by
    funext name
    rw [firstSetOf, findRule?_map named, firstSetOf]
    cases findRule? rules name with
    | none => rfl
    | some rule => exact first rule
  have defines : definesRule (rules.map f) = definesRule rules := by
    funext name
    simp only [definesRule, List.any_map, Function.comp_def, named]
  constructor
  · exact Closed.congr defines.symm sets.symm fun rule listed =>
      ⟨f rule, List.mem_map_of_mem listed, named rule, body rule⟩
  · refine Closed.congr defines sets ?_
    rw [List.forall_mem_map]
    exact fun rule listed => ⟨rule, listed, (named rule).symm, (body rule).symm⟩

end Follow

namespace Draft

/-- Requests for some names one after the other leave all of them with stored sets. -/
theorem foldl_firstOf_spec {base : List Rule} (consistent : Consistent base)
    (resolved : ∀ rule ∈ base, rule.unresolved = false) (names : List String) {rules : List Rule}
    (coherent : Coherent base rules) :
    let out := names.foldl (fun rules name => (firstOf (rules.length + 1) [] rules name).2) rules
    Coherent base out ∧ (∀ name, Stored rules name → Stored out name) ∧
      ∀ name ∈ names, name ∈ base.map Rule.name → Stored out name := by
  induction names generalizing rules with
  | nil => exact ⟨coherent, fun _ stored => stored, fun _ member => nomatch member⟩
  | cons first rest ih =>
    obtain ⟨finds, stored⟩ := firstOf_request consistent.distinct coherent first
    obtain ⟨last, keeps, later⟩ := ih finds.coherent
    refine ⟨last, fun name stored => keeps name (finds.keeps name stored), ?_⟩
    intro name member defined
    rcases List.mem_cons.1 member with rfl | member
    · obtain ⟨rule, listed, rfl⟩ := List.mem_map.1 defined
      exact keeps _ (stored rule (findRule?_of_mem consistent.distinct listed)
        (resolved rule listed))
    · exact later name member defined

/-- The rules get their FIRST sets one after the other. -/
theorem settleFirst_spec {base : List Rule} (consistent : Consistent base)
    (resolved : ∀ rule ∈ base, rule.unresolved = false) :
    Coherent base (settleFirst base) ∧ ∀ rule ∈ settleFirst base, rule.hasFirst = true := by
  obtain ⟨coherent, _, all⟩ :=
    foldl_firstOf_spec consistent resolved (base.map Rule.name) consistent.coherent
  refine ⟨coherent, fun rule listed => ?_⟩
  have distinct : ((settleFirst base).map Rule.name).Nodup := coherent.names ▸ consistent.distinct
  have defined : rule.name ∈ base.map Rule.name := coherent.names ▸ List.mem_map_of_mem listed
  obtain ⟨same, found, ready⟩ := all _ defined defined
  cases (findRule?_of_mem distinct listed).symm.trans found
  exact ready

/-- Where all references are defined no rule reaches a gap. -/
theorem Consistent.resolved {rules : List Rule} (consistent : Consistent rules)
    (defined : ∀ rule ∈ rules, ∀ term ∈ rule.terms, definesRule rules term = true) :
    ∀ rule ∈ rules, rule.unresolved = false := by
  intro rule listed
  rw [consistent.marks rule listed, Bool.eq_false_iff]
  intro gap
  have closed : ∀ rule ∈ rules, True → ∀ term ∈ rule.terms, definesRule rules term = true ∧ True :=
    fun rule listed _ term refers => ⟨defined rule listed term refers, trivial⟩
  exact @not_mem_unresolvedNames rules (fun _ => True) closed rule.name trivial
    (List.contains_iff_mem.1 gap)

end Draft

namespace Grammar

/-- The rules of a grammar refer to each other, and their FIRST and FOLLOW sets are what they should
be. -/
structure Solved (g : Grammar) : Prop where
  distinct : (g.rules.map Rule.name).Nodup
  top : g.top ∈ g.rules.map Rule.name
  terms : ∀ rule ∈ g.rules, ∀ term ∈ rule.terms, term ∈ g.rules.map Rule.name
  exact : ∀ rule ∈ g.rules, rule.Exact g.rules
  follow : IsLeast {family | Follow.Closed g.rules g.top family} fun name => {x | x ∈ g.followSet name}

end Grammar

namespace Draft

theorem danglingTerm?_eq_none_iff {rules : List Rule} : danglingTerm? rules = none ↔
    ∀ rule ∈ rules, ∀ term ∈ rule.terms, definesRule rules term = true := by
  simp [danglingTerm?, List.findSome?_eq_none_iff]

/-- What a draft without gaps is made into. -/
theorem build_eq_ok_iff {d : Draft} {name : String} {top : Option String} {g : Grammar} :
    d.build name top = .ok g ↔ ∃ start d', (top <|> d.lastName?) = some start ∧
      d.withNullable = .ok d' ∧ d'.contains start = true ∧ danglingTerm? d'.rules = none ∧
      g = { name, top := start, rules := settleFollow (settleFirst d'.rules) start } := by
  unfold build
  cases top <|> d.lastName? with
  | none => exact ⟨nofun, nofun⟩
  | some start =>
    change ((d.withNullable).bind fun d' => if !d'.contains start then _ else _) = _ ↔ _
    cases d.withNullable with
    | error e => exact ⟨nofun, nofun⟩
    | ok d' =>
      rw [Except.bind]
      constructor
      · intro built
        split at built
        · cases built
        · next known =>
          split at built
          · cases built
          · next gapless =>
            cases built
            exact ⟨start, d', rfl, rfl, by simpa using known, gapless, rfl⟩
      · rintro ⟨_, e, chosen, extended, known, gapless, rfl⟩
        cases chosen
        cases extended
        rw [known, Bool.not_true, if_neg Bool.false_ne_true, gapless]

theorem Consistent.withNullable {d d' : Draft} (consistent : Consistent d.rules)
    (extended : d.withNullable = .ok d') : Consistent d'.rules := by
  unfold Draft.withNullable at extended
  split at extended
  · cases extended
    exact consistent
  · exact consistent.call (c := .terminal nullable "") extended

/-- The rules of a grammar with the FOLLOW sets that are computed for them. -/
theorem settleFollow_spec (rules : List Rule) (top : String) :
    ∃ f, settleFollow rules top = rules.map f ∧
      (∀ rule, (f rule).name = rule.name) ∧ (∀ rule, (f rule).body = rule.body) ∧
      (∀ rule, (f rule).first = rule.first) ∧
      ∀ rule ∈ rules, (f rule).follow = Follow.held (Follow.sets rules top) rule.name := by
  refine ⟨_, rfl, fun _ => rfl, fun _ => rfl, fun _ => rfl, fun rule listed => ?_⟩
  have known : rule.name ∈ (Follow.sets rules top).names :=
    ((Follow.sets_least rules top).1 rule.name).2 (definesRule_iff.2 (List.mem_map_of_mem listed))
  obtain ⟨set, found⟩ := Option.isSome_iff_exists.1 ((Table.isSome_find?_iff _ _).2 known)
  rw [Follow.held, found]
  rfl

theorem followSet_eq_held {rules : List Rule} {f : Rule → Rule} {g : Grammar}
    (settled : g.rules = rules.map f) (named : ∀ rule, (f rule).name = rule.name)
    (follow : ∀ rule ∈ rules,
      (f rule).follow = Follow.held (Follow.sets rules g.top) rule.name) :
    g.followSet = Follow.held (Follow.sets rules g.top) := by
  funext name
  rw [Grammar.followSet, Grammar.find?, settled, findRule?_map named]
  cases found : findRule? rules name with
  | none =>
    have missing : name ∉ (Follow.sets rules g.top).names := by
      rw [(Follow.sets_least rules g.top).1, definesRule_iff]
      exact fun defined => absurd found (by simpa [findRule?] using defined)
    rw [Follow.held_of_not_mem missing]
    rfl
  | some rule =>
    have here := follow rule (List.mem_of_find?_eq_some found)
    rw [findRule?_name found] at here
    rw [← here]
    rfl

theorem build_solved {d : Draft} (consistent : Consistent d.rules) {name : String}
    {top : Option String} {g : Grammar} (built : d.build name top = .ok g) : g.Solved := by
  obtain ⟨start, d', -, extended, known, gapless, made⟩ := build_eq_ok_iff.1 built
  obtain rfl : g.top = start := by rw [made]
  have rules : g.rules = settleFollow (settleFirst d'.rules) g.top := congrArg Grammar.rules made
  have consistent := consistent.withNullable extended
  have defined := danglingTerm?_eq_none_iff.1 gapless
  obtain ⟨coherent, ready⟩ := settleFirst_spec consistent (consistent.resolved defined)
  obtain ⟨f, settled, named, body, first, follow⟩ := settleFollow_spec (settleFirst d'.rules) g.top
  rw [settled] at rules
  generalize settleFirst d'.rules = exact at coherent ready rules follow
  have names : g.rules.map Rule.name = d'.rules.map Rule.name := by
    rw [rules, List.map_map, ← coherent.names]
    simp only [Function.comp_def, named]
  have distinct : (g.rules.map Rule.name).Nodup := names ▸ consistent.distinct
  refine ⟨distinct, ?_, ?_, ?_, ?_⟩
  · rw [names]
    exact definesRule_iff.1 known
  · rw [names, rules, List.forall_mem_map]
    intro rule listed term refers
    have found := findRule?_of_mem (coherent.names ▸ consistent.distinct) listed
    obtain ⟨old, there, same⟩ := coherent.exists_rule found
    have same : old.bare.body = rule.bare.body := congrArg Rule.body same
    change old.body = rule.body at same
    rw [Rule.terms, body, ← same] at refers
    exact definesRule_iff.1 (defined old (List.mem_of_find?_eq_some there) term refers)
  · rw [rules, List.forall_mem_map]
    intro rule listed
    have before := coherent.self.exact rule listed (ready rule listed)
    exact ((SharedPart.map named body exact).exact trivial before).congr (named rule) (first rule)
  · have least := Follow.sets_least exact g.top
    have sets : g.followSet = Follow.held (Follow.sets exact g.top) :=
      followSet_eq_held rules named follow
    have closed : Follow.Closed g.rules g.top = Follow.Closed exact g.top := by
      funext family
      rw [rules]
      exact propext (Follow.closed_map_iff named body first)
    rw [sets, closed]
    exact least.2

end Draft

theorem sequenceStarts_single (family : String → Set String) (term : String) :
    sequenceStarts family [term] = family term := by
  ext x
  by_cases same : x = nullable
  · subst same
    exact ⟨fun begins => begins.elim (fun here => absurd rfl here.2) fun silent => silent.1,
      fun silent => Or.inr ⟨silent, rfl⟩⟩
  · exact ⟨fun begins => begins.elim (fun here => here.1) fun silent => absurd silent.2 same,
      fun begins => Or.inl ⟨begins, same⟩⟩

/-- What begins a right-hand side begins a sequence that it allows. -/
theorem RuleBody.mem_starts_iff {body : RuleBody} (production : body.kind.isTerminal = false)
    (name : String) {family : String → Set String} {x : String} :
    x ∈ body.starts name family ↔
      ∃ sequence, body.Allows sequence ∧ x ∈ sequenceStarts family sequence := by
  cases body with
  | terminal | attrTerminal => cases production
  | concatenation terms | attrProduction terms =>
    exact ⟨fun begins => ⟨terms, rfl, begins⟩, fun ⟨_, same, begins⟩ => same ▸ begins⟩
  | alternation terms =>
    constructor
    · rintro ⟨term, listed, begins⟩
      exact ⟨[term], ⟨term, listed, rfl⟩, sequenceStarts_single family term ▸ begins⟩
    · rintro ⟨_, ⟨term, listed, rfl⟩, begins⟩
      exact ⟨term, listed, sequenceStarts_single family term ▸ begins⟩
  | repetition term =>
    constructor
    · rintro (nothing | begins)
      · exact ⟨[], ⟨0, rfl⟩, nothing⟩
      · exact ⟨[term], ⟨1, rfl⟩, sequenceStarts_single family term ▸ begins⟩
    · rintro ⟨_, ⟨n, rfl⟩, begins⟩
      induction n with
      | zero => exact Or.inl begins
      | succ n ih =>
        rcases begins with ⟨begins, _⟩ | ⟨_, later⟩
        · exact Or.inr begins
        · exact ih later
  | option term =>
    constructor
    · rintro (nothing | begins)
      · exact ⟨[], Or.inl rfl, nothing⟩
      · exact ⟨[term], Or.inr rfl, sequenceStarts_single family term ▸ begins⟩
    · rintro ⟨_, rfl | rfl, begins⟩
      · exact Or.inl begins
      · exact Or.inr (sequenceStarts_single family term ▸ begins)

/-- A right-hand side that allows a sequence is that of no terminal. -/
theorem RuleBody.Allows.production {body : RuleBody} {sequence : List String}
    (allowed : body.Allows sequence) : body.kind.isTerminal = false := by
  cases body with
  | terminal | attrTerminal => exact allowed.elim
  | concatenation | attrProduction | alternation | repetition | option => rfl

namespace Grammar

variable {g : Grammar}

theorem mem_of_find? {name : String} {rule : Rule} (found : g.find? name = some rule) :
    rule ∈ g.rules := List.mem_of_find?_eq_some found

/-- Without left recursion the stored FIRST sets are the least. -/
theorem Solved.mem_first_iff (solved : g.Solved) (straight : ∀ name, ¬ LeftRecursive g.rules name)
    {name : String} {rule : Rule} (found : g.find? name = some rule) {x : String} :
    x ∈ rule.first ↔ x ∈ leastFirst g.rules name := by
  have exact := solved.exact rule (mem_of_find? found)
  rw [← g.find?_name found]
  exact ⟨exact.sound x, exact.complete (grounded_of_straight straight _) x⟩

theorem Solved.mem_firstSet_iff (solved : g.Solved)
    (straight : ∀ name, ¬ LeftRecursive g.rules name) {name x : String} :
    x ∈ g.firstSet name ↔ x ∈ leastFirst g.rules name := by
  cases found : g.find? name with
  | none =>
    rw [leastFirst_undefined found, firstSet, found]
    exact ⟨fun member => absurd member NameSet.not_mem_empty, fun absent => absent.elim⟩
  | some rule =>
    rw [firstSet_eq found]
    exact solved.mem_first_iff straight found

/-- The stored FIRST sets as a family. -/
def firsts (g : Grammar) (name : String) : Set String := {x | x ∈ g.firstSet name}

theorem Solved.firsts_eq (solved : g.Solved) (straight : ∀ name, ¬ LeftRecursive g.rules name) :
    g.firsts = leastFirst g.rules := by
  funext name
  exact Set.ext fun x => solved.mem_firstSet_iff straight

theorem nullable_mem_sequenceStarts {sequence : List String} :
    nullable ∈ sequenceStarts g.firsts sequence ↔ g.Vanishes sequence := by
  induction sequence with
  | nil => exact ⟨fun _ _ member => absurd member List.not_mem_nil, fun _ => rfl⟩
  | cons term rest ih =>
    rw [Vanishes, List.forall_mem_cons]
    constructor
    · rintro (⟨_, visible⟩ | ⟨silent, later⟩)
      · exact absurd rfl visible
      · exact ⟨silent, ih.1 later⟩
    · rintro ⟨silent, later⟩
      exact Or.inr ⟨silent, ih.2 later⟩

theorem mem_sequenceStarts {sequence : List String} {next : String} (visible : next ≠ nullable) :
    next ∈ sequenceStarts g.firsts sequence ↔ g.Meets next ∅ sequence := by
  induction sequence with
  | nil => exact ⟨fun nothing => absurd nothing visible, fun member => absurd member NameSet.not_mem_empty⟩
  | cons term rest ih =>
    constructor
    · rintro (⟨begins, _⟩ | ⟨silent, later⟩)
      · exact Or.inl begins
      · exact Or.inr ⟨silent, ih.1 later⟩
    · rintro (begins | ⟨silent, later⟩)
      · exact Or.inl ⟨begins, visible⟩
      · exact Or.inr ⟨silent, ih.2 later⟩

/-- Sets that are closed under their equations hold at least what the least sets hold. -/
theorem Analysed.leastFirst_subset (analysed : g.Analysed) (name : String) :
    leastFirst g.rules name ⊆ g.firsts name := by
  refine leastFirst_le (fun name x begins => ?_) name
  unfold starts at begins
  cases found : findRule? g.rules name with
  | none =>
    rw [found] at begins
    exact begins.elim
  | some rule =>
    rw [found] at begins
    dsimp only at begins
    change x ∈ g.firstSet name
    rw [firstSet_eq found]
    cases terminal : rule.isTerminal with
    | true =>
      rw [starts_terminal terminal] at begins
      exact begins ▸ analysed.terminal found terminal
    | false =>
      obtain ⟨sequence, allowed, begins⟩ := (RuleBody.mem_starts_iff terminal name).1 begins
      by_cases same : x = nullable
      · rw [same] at begins ⊢
        exact analysed.vanishing found allowed (nullable_mem_sequenceStarts.1 begins)
      · exact analysed.first found allowed same ((mem_sequenceStarts same).1 begins)

/-- A predictive grammar has no left recursion. -/
theorem Predictive.straight {rank : String → Nat} (predictive : g.Predictive rank) (name : String) :
    ¬ LeftRecursive g.rules name := by
  refine straight_of_leads rank ?_ name
  rintro a b ⟨rule, before, after, found, allowed, silent⟩
  refine predictive.falling found allowed fun term member => ?_
  exact predictive.toAnalysed.leastFirst_subset term (silent term member)

theorem Solved.exists_rule (solved : g.Solved) {name : String} (defined : name ∈ g.rules.map Rule.name) :
    ∃ rule, g.find? name = some rule := by
  obtain ⟨rule, listed, rfl⟩ := List.mem_map.1 defined
  exact ⟨rule, findRule?_of_mem solved.distinct listed⟩

theorem firstSetOf_eq (g : Grammar) (name : String) :
    Follow.firstSetOf g.rules name = g.firstSet name := by
  rw [Follow.firstSetOf, firstSet, find?]
  cases findRule? g.rules name <;> rfl

/-- A sequence meets a token that begins one of its terms, or that comes after all of them. -/
theorem meets_iff {next : String} {after : NameSet} {sequence : List String} :
    g.Meets next after sequence ↔ Follow.Begins g.rules sequence next ∨
      Follow.AllNullable g.rules sequence ∧ next ∈ after := by
  induction sequence with
  | nil => simp [Meets, Follow.Begins, Follow.AllNullable]
  | cons term rest ih =>
    rw [Meets, ih, Follow.begins_cons, Follow.allNullable_cons, firstSetOf_eq]
    tauto

theorem Solved.followSet_of_allows (solved : g.Solved) {name : String} {rule : Rule}
    {before after : List String} {term next : String} (found : g.find? name = some rule)
    (allowed : rule.body.Allows (before ++ term :: after)) (visible : next ≠ nullable)
    (meets : g.Meets next rule.follow after) : next ∈ g.followSet term := by
  have listed := mem_of_find? found
  have refers := allowed.mem_terms term (List.mem_append_right _ List.mem_cons_self)
  have defined : definesRule g.rules term = true :=
    Draft.definesRule_iff.2 (solved.terms rule listed term refers)
  have closed : Follow.Closed g.rules g.top fun name => {x | x ∈ g.followSet name} := solved.follow.1
  have flows : Follow.Flows g.rules rule.body term → next ∈ rule.follow → next ∈ g.followSet term := by
    intro flows ends
    refine closed.flows rule listed defined flows ?_
    have named := g.find?_name found
    rwa [← followSet_eq found, ← named] at ends
  have seeds : Follow.Seeds g.rules rule.body term next → next ∈ g.followSet term :=
    closed.seeds rule listed defined
  have cases := meets_iff.1 meets
  have single : ∀ {only}, before ++ term :: after = [only] → term = only ∧ after = [] := by
    intro only split
    obtain ⟨_, last⟩ | ⟨_, nothing⟩ := List.append_eq_singleton_iff.1 split
    · exact ⟨(List.cons.inj last).1, (List.cons.inj last).2⟩
    · cases nothing
  cases shape : rule.body with
  | terminal | attrTerminal =>
    rw [shape] at allowed
    exact allowed.elim
  | concatenation terms | attrProduction terms =>
    rw [shape] at allowed seeds flows
    rcases cases with begins | ⟨silent, ends⟩
    · exact seeds ⟨visible, before, after, allowed.symm, begins⟩
    · exact flows ⟨before, after, allowed.symm, silent⟩ ends
  | alternation terms =>
    rw [shape] at allowed flows
    obtain ⟨only, among, split⟩ := allowed
    obtain ⟨rfl, rfl⟩ := single split
    exact flows among meets
  | option only =>
    rw [shape] at allowed flows
    obtain ⟨rfl, rfl⟩ := single (allowed.resolve_left (by simp))
    exact flows rfl meets
  | repetition only =>
    rw [shape] at allowed seeds flows
    obtain ⟨n, split⟩ := allowed
    have all : ∀ t ∈ before ++ term :: after, t = only :=
      fun t member => List.eq_of_mem_replicate (split ▸ member)
    have same := all term (List.mem_append_right _ List.mem_cons_self)
    rcases cases with ⟨between, other, others, rfl, _, begins⟩ | ⟨_, ends⟩
    · have again : other = only := all other (by simp)
      exact seeds ⟨visible, same, same ▸ again ▸ begins⟩
    · exact flows same ends

/-- The sets are closed under their equations. -/
theorem Solved.analysed (solved : g.Solved) (straight : ∀ name, ¬ LeftRecursive g.rules name) :
    g.Analysed where
  known found term refers :=
    solved.exists_rule (solved.terms _ (mem_of_find? found) term refers)
  terminal found terminal := by
    rw [solved.mem_first_iff straight found, leastFirst_of_find? found, starts_terminal terminal]
    rfl
  first := by
    intro name rule sequence next found allowed visible meets
    rw [solved.mem_first_iff straight found, leastFirst_of_find? found,
      RuleBody.mem_starts_iff allowed.production, ← solved.firsts_eq straight]
    exact ⟨sequence, allowed, (mem_sequenceStarts visible).2 meets⟩
  vanishing := by
    intro name rule sequence found allowed vanishes
    rw [solved.mem_first_iff straight found, leastFirst_of_find? found,
      RuleBody.mem_starts_iff allowed.production, ← solved.firsts_eq straight]
    exact ⟨sequence, allowed, nullable_mem_sequenceStarts.2 vanishes⟩
  follow := solved.followSet_of_allows

/-- Without left recursion a rule ranks above those that it can reach before it reads a token. -/
theorem Solved.ranked (solved : g.Solved) (straight : ∀ name, ¬ LeftRecursive g.rules name) :
    g.Ranked (rank g.rules) where
  toAnalysed := solved.analysed straight
  bounded found := rank_lt_length (mem_names_of_find? found) (straight _)
  falling := by
    intro name rule before term after found allowed vanishes
    have refers := allowed.mem_terms term (List.mem_append_right _ List.mem_cons_self)
    have leads : Leads g.rules name term := ⟨rule, before, after, found, allowed,
      fun t member => (solved.mem_firstSet_iff straight).1 (vanishes t member)⟩
    exact rank_lt_rank leads (solved.terms rule (mem_of_find? found) term refers) (straight term)

/-- Without left recursion the parser reads all that it can tell apart by one token. -/
theorem Solved.predictive (solved : g.Solved) (straight : ∀ name, ¬ LeftRecursive g.rules name)
    (oneToken : g.OneToken) : g.Predictive (rank g.rules) where
  toAnalysed := solved.analysed straight
  toOneToken := oneToken
  bounded := (solved.ranked straight).bounded
  falling := (solved.ranked straight).falling

end Grammar

end AttrGrammar
