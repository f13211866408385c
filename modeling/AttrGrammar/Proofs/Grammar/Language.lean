import AttrGrammar.Proofs.Grammar.Built
import AttrGrammar.Proofs.Outcome
import AttrGrammar.Proofs.Parsing.Lookahead

/-!
What the sets of a grammar say about what it derives.

FIRST sets hold the names of the tokens that derivations begin with, and tell whether a rule derives
nothing; FOLLOW sets hold the names of the tokens that come after a rule. The main statements are
about grammars that are built of drafts after any calls.
-/

namespace AttrGrammar

namespace Grammar

variable {g : Grammar}

/-- Every rule derives something. -/
def Productive (g : Grammar) : Prop :=
  ∀ name, g.contains name = true → ∃ f tokens, g.Derives [name] f tokens

/-- A sequence derives nothing, if `x` is the mark of that, or else tokens of which `x` is the first. -/
def Yields (g : Grammar) (sequence : List String) (x : String) : Prop :=
  (x = nullable → ∃ f, g.Derives sequence f []) ∧
    (x ≠ nullable → g.Productive →
      ∃ f token later, token.name = x ∧ g.Derives sequence f (token :: later))

theorem contains_iff {name : String} :
    g.contains name = true ↔ ∃ rule, g.find? name = some rule := by
  rw [contains, find?, findRule?, definesRule, ← Option.isSome_iff_exists, List.find?_isSome,
    List.any_eq_true]

theorem Productive.rule (productive : g.Productive) {name : String} {rule : Rule}
    (found : g.find? name = some rule) : ∃ f tokens, g.Derives [name] f tokens :=
  productive name (contains_iff.2 ⟨rule, found⟩)

/-- A sequence derives something if each of its terms does. -/
theorem exists_derives {terms : List String}
    (each : ∀ term ∈ terms, ∃ f tokens, g.Derives [term] f tokens) :
    ∃ f tokens, g.Derives terms f tokens := by
  induction terms with
  | nil => exact ⟨.nil, [], .nil⟩
  | cons term rest ih =>
    obtain ⟨here, later⟩ := List.forall_mem_cons.1 each
    obtain ⟨f, used, first⟩ := here
    obtain ⟨h, tokens, others⟩ := ih later
    exact ⟨f ++ h, used ++ tokens, first.append others⟩

theorem Productive.sequence (productive : g.Productive) {terms : List String}
    (defined : ∀ term ∈ terms, g.contains term = true) : ∃ f tokens, g.Derives terms f tokens :=
  exists_derives fun term member => productive term (defined term member)

/-- Whether a right-hand side allows a sequence of lower terms. -/
def thrives (height : String → Nat) (rule : Rule) : RuleBody → Bool
  | .terminal _ | .attrTerminal | .repetition _ | .option _ => true
  | .concatenation terms | .attrProduction terms =>
    terms.all fun term => height term < height rule.name
  | .alternation terms => terms.any fun term => height term < height rule.name

theorem exists_lower {height : String → Nat} {rule : Rule} (production : rule.isTerminal = false)
    (thrives : thrives height rule rule.body = true) :
    ∃ sequence, rule.body.Allows sequence ∧ ∀ term ∈ sequence, height term < height rule.name := by
  cases shape : rule.body with
  | terminal | attrTerminal =>
    rw [Rule.isTerminal, Rule.kind, shape] at production
    cases production
  | concatenation terms | attrProduction terms =>
    rw [shape, Grammar.thrives] at thrives
    exact ⟨terms, rfl, by simpa using thrives⟩
  | alternation terms =>
    rw [shape, Grammar.thrives, List.any_eq_true] at thrives
    obtain ⟨term, member, lower⟩ := thrives
    exact ⟨[term], ⟨term, member, rfl⟩, by simpa using lower⟩
  | repetition term => exact ⟨[], ⟨0, rfl⟩, List.forall_mem_nil _⟩
  | option term => exact ⟨[], Or.inl rfl, List.forall_mem_nil _⟩

/-- Each rule derives something if each allows a sequence of lower terms, by induction on heights. -/
theorem productive_of_thrives (analysed : g.Analysed) (height : String → Nat)
    (thrives : ∀ rule ∈ g.rules, thrives height rule rule.body = true) : g.Productive := by
  intro name defined
  induction high : height name using Nat.strong_induction_on generalizing name with
  | _ n ih =>
    obtain ⟨rule, found⟩ := contains_iff.1 defined
    cases terminal : rule.isTerminal with
    | true =>
      by_cases silent : name = nullable
      · subst silent
        exact ⟨_, _, .nothing found terminal .nil⟩
      · exact ⟨_, [⟨name, "", {}⟩], .token found terminal silent rfl .nil⟩
    | false =>
      obtain ⟨sequence, allowed, lower⟩ :=
        exists_lower terminal (thrives rule (List.mem_of_find?_eq_some found))
      rw [g.find?_name found, high] at lower
      obtain ⟨children, tokens, body⟩ := exists_derives fun term member =>
        ih _ (lower term member) term
          (contains_iff.2 (analysed.known found term (allowed.mem_terms term member))) rfl
      obtain ⟨f, whole⟩ := (exists_derives_iff found terminal).2 ⟨sequence, children, allowed, body⟩
      exact ⟨f, tokens, whole⟩

theorem yields_sequence {terms : List String} {x : String}
    (defined : ∀ term ∈ terms, g.contains term = true)
    (begins : x ∈ sequenceStarts (fun term => {x | g.Yields [term] x}) terms) :
    g.Yields terms x := by
  induction terms with
  | nil => exact ⟨fun _ => ⟨.nil, .nil⟩, fun visible => absurd begins visible⟩
  | cons term rest ih =>
    obtain ⟨_, known⟩ := List.forall_mem_cons.1 defined
    rcases begins with ⟨here, visible⟩ | ⟨silent, later⟩
    · refine ⟨fun nothing => absurd nothing visible, fun _ productive => ?_⟩
      obtain ⟨f, token, more, named, first⟩ := here.2 visible productive
      obtain ⟨h, tokens, others⟩ := productive.sequence known
      exact ⟨f ++ h, token, more ++ tokens, named, first.append others⟩
    · obtain ⟨f, first⟩ := silent.1 rfl
      obtain ⟨nothing, something⟩ := ih known later
      refine ⟨fun same => ?_, fun visible productive => ?_⟩
      · obtain ⟨h, others⟩ := nothing same
        exact ⟨f ++ h, first.append others⟩
      · obtain ⟨h, token, more, named, others⟩ := something visible productive
        exact ⟨f ++ h, token, more, named, first.append others⟩

theorem yields_terminal {name : String} {rule : Rule} (found : g.find? name = some rule)
    (terminal : rule.isTerminal = true) : g.Yields [name] name := by
  refine ⟨fun nothing => ?_, fun visible _ => ?_⟩
  · subst nothing
    exact ⟨.nil, .nothing found terminal .nil⟩
  · exact ⟨_, ⟨name, "", {}⟩, [], rfl, .token found terminal visible rfl .nil⟩

theorem yields_node {name x : String} {rule : Rule} {sequence : List String}
    (found : g.find? name = some rule) (production : rule.isTerminal = false)
    (allowed : rule.body.Allows sequence) (yields : g.Yields sequence x) : g.Yields [name] x := by
  refine ⟨fun nothing => ?_, fun visible productive => ?_⟩
  · obtain ⟨f, body⟩ := yields.1 nothing
    exact ⟨_, .node found production allowed body .nil⟩
  · obtain ⟨f, token, later, named, body⟩ := yields.2 visible productive
    exact ⟨_, token, later ++ [], named, .node found production allowed body .nil⟩

/-- What begins a rule, given what begins its terms, is what its derivations begin with. -/
theorem yields_body {name x : String} {rule : Rule} (found : g.find? name = some rule)
    (defined : ∀ term ∈ rule.terms, g.contains term = true)
    (begins : x ∈ rule.body.starts name fun term => {x | g.Yields [term] x}) : g.Yields [name] x := by
  cases terminal : rule.isTerminal with
  | true =>
    rw [starts_terminal terminal] at begins
    cases begins
    exact yields_terminal found terminal
  | false =>
    obtain ⟨sequence, allowed, begins⟩ := (RuleBody.mem_starts_iff terminal name).1 begins
    refine yields_node found terminal allowed (yields_sequence (fun term member => ?_) begins)
    exact defined term (allowed.mem_terms term member)

/-- The least FIRST sets hold nothing but what derivations begin with. -/
theorem yields_of_mem_leastFirst (solved : g.Solved) {name x : String}
    (member : x ∈ leastFirst g.rules name) : g.Yields [name] x := by
  have closed : ∀ name, starts g.rules (fun term => {x | g.Yields [term] x}) name ⊆
      {x | g.Yields [name] x} := by
    intro name x begins
    unfold starts at begins
    cases found : findRule? g.rules name with
    | none =>
      rw [found] at begins
      exact begins.elim
    | some rule =>
      rw [found] at begins
      have defined := solved.terms rule (mem_of_find? found)
      exact yields_body found (fun term refers => Draft.definesRule_iff.2 (defined term refers)) begins
  exact leastFirst_le closed name member

/-- FIRST sets are exact. What a draft answers after any calls without left recursion is the least
solution of the equations over the definitions at that moment. In a grammar that is built of it
without left recursion they hold the names of the tokens that derivations begin with, and the mark of
nothing if a rule derives no tokens; when every rule derives something they hold nothing else. -/
theorem firstSets_exact (calls : List Draft.Call) :
    ((∀ name, ¬ LeftRecursive (Draft.after calls).rules name) →
      ∀ name, (Draft.after calls).contains name = true →
        ∃ first d, (Draft.after calls).firstSet name = .ok (first, d) ∧
          ∀ x, x ∈ first ↔ x ∈ leastFirst (Draft.after calls).rules name) ∧
    ∀ title top g, (Draft.after calls).build title top = .ok g →
      (∀ name, ¬ LeftRecursive g.rules name) →
        ∀ name rule, g.find? name = some rule →
          (∀ f token later, g.Derives [name] f (token :: later) → token.name ∈ rule.first) ∧
          (nullable ∈ rule.first ↔ ∃ f, g.Derives [name] f []) ∧
          (g.Productive → ∀ x ∈ rule.first, x ≠ nullable →
            ∃ f token later, token.name = x ∧ g.Derives [name] f (token :: later)) := by
  have consistent := Draft.after_consistent calls
  constructor
  · intro straight name defined
    have finds := consistent.finds name
    refine ⟨_, _, (Draft.firstSet_eq _ _).trans (if_pos defined), fun x => ⟨finds.sound x, finds.complete ?_ x⟩⟩
    exact grounded_of_straight straight name
  · intro title top g built straight name rule found
    have solved := Draft.build_solved consistent built
    have analysed := solved.analysed straight
    have yields : ∀ x ∈ rule.first, g.Yields [name] x := fun x member =>
      yields_of_mem_leastFirst solved ((solved.mem_first_iff straight found).1 member)
    refine ⟨fun f token later derived => ?_, ⟨fun silent => (yields nullable silent).1 rfl, ?_⟩,
      fun productive x member visible => (yields x member).2 visible productive⟩
    · have begins := derived.begins analysed rfl
      rw [← firstSet_eq found]
      exact begins.resolve_right fun beyond => NameSet.not_mem_empty beyond.2
    · rintro ⟨f, derived⟩
      rw [← firstSet_eq found]
      exact derived.vanishes analysed rfl name List.mem_cons_self

/-- An optional sign before a number, with a request while the sign is not defined. -/
def signedCalls : List Draft.Call :=
  [.concatenation "signed" ["sign", "number"], .firstSet "signed", .option "sign" "minus",
    .attrTerminal "minus" [], .firstSet "sign", .attrTerminal "number" []]

/-- How far references go down from a name. -/
def signedHeight (name : String) : Nat :=
  if name = "signed" then 2 else if name = "sign" then 1 else 0

theorem firstSets_exact_signed :
    (∃ first d, (Draft.after signedCalls).firstSet "signed" = .ok (first, d) ∧
      ∀ x, x ∈ first ↔ x ∈ leastFirst (Draft.after signedCalls).rules "signed") ∧
    ∃ g rule, (Draft.after signedCalls).build "signed" (some "signed") = .ok g ∧
      g.find? "sign" = some rule ∧ (nullable ∈ rule.first ↔ ∃ f, g.Derives ["sign"] f []) := by
  have straight := straight_of_falling signedHeight
    (by decide +kernel : ∀ rule ∈ (Draft.after signedCalls).rules, ∀ term ∈ rule.terms,
      signedHeight term < signedHeight rule.name)
  obtain ⟨answers, builds⟩ := firstSets_exact signedCalls
  refine ⟨answers straight "signed" (by decide +kernel), ?_⟩
  have checked : (match (Draft.after signedCalls).build "signed" (some "signed") with
      | .ok g => (g.find? "sign").isSome && g.rules.all fun rule =>
        rule.terms.all fun term => decide (signedHeight term < signedHeight rule.name)
      | .error _ => false) = true := by decide +kernel
  cases built : (Draft.after signedCalls).build "signed" (some "signed") with
  | error e =>
    rw [built] at checked
    cases checked
  | ok g =>
    rw [built] at checked
    simp only [Bool.and_eq_true, List.all_eq_true, decide_eq_true_eq] at checked
    obtain ⟨found, falls⟩ := checked
    obtain ⟨rule, found⟩ := Option.isSome_iff_exists.1 found
    have facts := builds "signed" (some "signed") g built (straight_of_falling signedHeight falls)
    exact ⟨g, rule, rfl, found, (facts "sign" rule found).2.1⟩

/-- Items with commas between them. -/
def listCalls : List Draft.Call :=
  [.attrTerminal "item" [], .attrTerminal "comma" [], .concatenation "list" ["item", "more"],
    .option "more" "rest", .concatenation "rest" ["comma", "list"]]

/-- A rank for the rules of lists: above those that come next before a token is read. -/
def listRank (name : String) : Nat :=
  if name = "list" ∨ name = "more" then 2 else if name = "rest" then 1 else 0

/-- The grammar of lists, and what some of its names stand for. -/
theorem exists_list : ∃ g, (Draft.after listCalls).build "list" (some "list") = .ok g ∧
    g.top = "list" ∧ g.Predictive listRank ∧
    (∃ rule, g.find? "list" = some rule ∧ rule.body = .concatenation ["item", "more"]) ∧
    (∃ rule, g.find? "more" = some rule ∧ rule.body = .option "rest") ∧
    ∃ rule, g.find? "item" = some rule ∧ rule.body = .attrTerminal := by
  have checked : ((Draft.after listCalls).build "list" (some "list")).toOption.any (fun g =>
      g.top == "list" && g.rules.all (g.decides listRank) &&
        decide ((g.find? "list").map Rule.body = some (.concatenation ["item", "more"])) &&
        decide ((g.find? "more").map Rule.body = some (.option "rest")) &&
        decide ((g.find? "item").map Rule.body = some .attrTerminal)) = true := by decide +kernel
  obtain ⟨g, built, checked⟩ := exists_ok_of_any checked
  simp only [Bool.and_eq_true, beq_iff_eq, decide_eq_true_eq, List.all_eq_true,
    Option.map_eq_some_iff] at checked
  obtain ⟨⟨⟨⟨top, decided⟩, list⟩, more⟩, item⟩ := checked
  exact ⟨g, built, top, predictive_of_decides decided, list, more, item⟩

/-- FOLLOW sets are the least that meet their conditions, and in a grammar without left recursion the
token after any occurrence of a rule is in its FOLLOW set. -/
theorem followSets_exact :
    (∀ rules top,
      (∀ name, name ∈ (Follow.sets rules top).names ↔ definesRule rules name = true) ∧
      IsLeast {family | Follow.Closed rules top family}
        fun name => {x | x ∈ Follow.held (Follow.sets rules top) name}) ∧
    ∀ calls title top g, (Draft.after calls).build title top = .ok g →
      (∀ name, ¬ LeftRecursive g.rules name) →
        ∀ name f tokens following, g.Occurs name [g.top] f tokens following →
          ahead following ∈ g.followSet name := by
  refine ⟨Follow.sets_least, fun calls title top g built straight name f tokens following occurs => ?_⟩
  have solved := Draft.build_solved (Draft.after_consistent calls) built
  exact occurs.follow (solved.analysed straight)
    (solved.follow.1.top (Draft.definesRule_iff.2 solved.top))

/-- The last item of a list is followed by the end of the input. -/
theorem followSets_exact_list :
    ∃ g f, (Draft.after listCalls).build "list" (some "list") = .ok g ∧
      (∀ name, ¬ LeftRecursive g.rules name) ∧
      g.Occurs "item" [g.top] f [⟨"item", "1", {}⟩] [] ∧ ahead [] ∈ g.followSet "item" := by
  obtain ⟨g, built, top, predictive, ⟨list, foundList, listBody⟩, ⟨more, foundMore, moreBody⟩,
    item, foundItem, itemBody⟩ := exists_list
  have isProduction : list.isTerminal = false ∧ more.isTerminal = false ∧ item.isTerminal = true := by
    rw [Rule.isTerminal, Rule.isTerminal, Rule.isTerminal, Rule.kind, Rule.kind, Rule.kind, listBody,
      moreBody, itemBody]
    decide
  obtain ⟨listProduction, moreProduction, itemTerminal⟩ := isProduction
  have first : g.Derives ["item"] _ [⟨"item", "1", {}⟩] :=
    .token foundItem itemTerminal (by decide) rfl .nil
  have nothing : g.Derives ["more"] _ ([] ++ []) :=
    .node foundMore moreProduction (moreBody ▸ Or.inl rfl) .nil .nil
  have occurs : g.Occurs "item" ["list"] _ _ _ :=
    .inside foundList listProduction (listBody ▸ rfl) (.here first nothing) .nil
  rw [← top] at occurs
  exact ⟨g, _, built, predictive.straight, occurs,
    followSets_exact.2 listCalls "list" (some "list") g built predictive.straight "item" _ _ _ occurs⟩

/-- The parser accepts what a grammar derives, where one token of lookahead is enough and no rule is
left recursive. -/
theorem buildTree_complete (calls : List Draft.Call) {title : String} {top : Option String}
    {g : Grammar} (built : (Draft.after calls).build title top = .ok g)
    (straight : ∀ name, ¬ LeftRecursive g.rules name) (oneToken : g.OneToken) (tokens : List Token) :
    (∃ tree, g.buildTree tokens = .ok tree) ↔ ∃ f, g.Derives [g.top] f tokens := by
  have solved := Draft.build_solved (Draft.after_consistent calls) built
  obtain ⟨rule, found⟩ := solved.exists_rule solved.top
  have ends := solved.follow.1.top (Draft.definesRule_iff.2 solved.top)
  have ends : endOfInput ∈ g.followSet g.top := ends
  rw [followSet_eq found] at ends
  exact (solved.predictive straight oneToken).buildTree_iff found ends tokens

theorem buildTree_complete_list :
    ∃ g, (Draft.after listCalls).build "list" (some "list") = .ok g ∧
      (∀ name, ¬ LeftRecursive g.rules name) ∧ g.OneToken ∧
      ∀ tokens, (∃ tree, g.buildTree tokens = .ok tree) ↔ ∃ f, g.Derives [g.top] f tokens := by
  obtain ⟨g, built, _, predictive, _⟩ := exists_list
  exact ⟨g, built, predictive.straight, predictive.toOneToken,
    buildTree_complete listCalls built predictive.straight predictive.toOneToken⟩

end Grammar

end AttrGrammar
