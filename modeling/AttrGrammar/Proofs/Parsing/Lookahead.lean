import AttrGrammar.Proofs.Parsing.Predictive

/-!
Deciding whether a grammar is predictive.

Each rule is checked by itself against the stored sets of its terms.
-/

namespace AttrGrammar

namespace NameSet

/-- Whether every name of a set is in another one. -/
def within (s t : NameSet) : Bool := s.toList.all t.contains

theorem mem_of_within {s t : NameSet} (inside : s.within t = true) {name : String}
    (member : name ∈ s) : name ∈ t := by
  have all := List.all_eq_true.1 inside name member
  simpa using all

/-- Whether no name of a set is in another one. -/
def misses (s t : NameSet) : Bool := s.toList.all fun name => !t.contains name

theorem not_mem_of_misses {s t : NameSet} (outside : s.misses t = true) {name : String}
    (member : name ∈ s) : name ∉ t := by
  have all := List.all_eq_true.1 outside name member
  intro inside
  rw [contains_iff.2 inside] at all
  cases all

end NameSet

namespace Grammar

variable (g : Grammar) (rank : String → Nat)

/-- Whether a term can read nothing. -/
def silent (term : String) : Bool := (g.firstSet term).contains nullable

/-- The names that can come next where a sequence stands with `after` behind it. -/
def leads (after : NameSet) : List String → NameSet
  | [] => after
  | term :: rest =>
    if g.silent term then (g.firstSet term).erase nullable ∪ leads after rest
    else g.firstSet term

/-- Whether the terms of a sequence pass on their FOLLOW sets, and reach only lower ranks while all
terms before them can read nothing. -/
def passesOn (rule : Rule) : Bool → List String → Bool
  | _, [] => true
  | start, term :: rest =>
    (g.leads rule.follow rest).within (g.followSet term) &&
      (!start || rank term < rank rule.name) &&
      passesOn rule (start && g.silent term) rest

/-- Whether two alternatives are told apart by the next token. -/
def apart (follow : NameSet) (a b : String) : Bool :=
  (g.firstSet a).misses (g.firstSet b) &&
    (!g.silent a || (g.firstSet b).misses follow) &&
    (!g.silent b || (g.firstSet a).misses follow)

/-- What a predictive grammar asks of a sequence of terms. -/
def decidesSequence (rule : Rule) (terms : List String) : Bool :=
  (g.leads ∅ terms).within rule.first && (!terms.all g.silent || rule.isNullable) &&
    g.passesOn rank rule true terms

/-- What it asks of one term of an alternation, an option or a repetition. -/
def decidesTerm (rule : Rule) (term : String) : Bool :=
  ((g.firstSet term).erase nullable).within rule.first &&
    rule.follow.within (g.followSet term) && rank term < rank rule.name

def decidesBody (rule : Rule) : RuleBody → Bool
  | .terminal _ | .attrTerminal => rule.first.contains rule.name
  | .concatenation terms | .attrProduction terms => g.decidesSequence rank rule terms
  | .alternation terms =>
    terms.all (fun term => g.decidesTerm rank rule term && (!g.silent term || rule.isNullable)) &&
      decide (terms.Pairwise fun a b => g.apart rule.follow a b = true)
  | .repetition term =>
    g.decidesTerm rank rule term && rule.isNullable &&
      ((g.firstSet term).erase nullable).within (g.followSet term) &&
      ((g.firstSet term).erase nullable).misses rule.follow
  | .option term =>
    g.decidesTerm rank rule term && rule.isNullable &&
      ((g.firstSet term).erase nullable).misses rule.follow

/-- Whether one token of lookahead is enough for a rule. -/
def decides (rule : Rule) : Bool :=
  rule.terms.all (fun term => (g.find? term).isSome) && rank rule.name < g.rules.length &&
    g.decidesBody rank rule rule.body

variable {g rank}

theorem silent_iff {term : String} : g.silent term = true ↔ nullable ∈ g.firstSet term := by
  rw [silent, NameSet.contains_iff]

theorem mem_leads {next : String} {after : NameSet} {terms : List String}
    (visible : next ≠ nullable) (meets : g.Meets next after terms) :
    next ∈ g.leads after terms := by
  induction terms with
  | nil => exact meets
  | cons term rest ih =>
    rw [leads]
    by_cases quiet : g.silent term = true
    · rw [if_pos quiet, NameSet.mem_union, NameSet.mem_erase]
      exact meets.imp (⟨·, visible⟩) fun beyond => ih beyond.2
    · rw [if_neg quiet]
      exact meets.resolve_right fun beyond => quiet (silent_iff.2 beyond.1)

theorem passesOn_at {rule : Rule} {start : Bool} {before after : List String} {term : String}
    (passes : g.passesOn rank rule start (before ++ term :: after) = true) :
    (g.leads rule.follow after).within (g.followSet term) = true ∧
      (start = true → g.Vanishes before → rank term < rank rule.name) := by
  induction before generalizing start with
  | nil =>
    simp only [List.nil_append, passesOn, Bool.and_eq_true, Bool.or_eq_true, Bool.not_eq_true',
      decide_eq_true_eq] at passes
    obtain ⟨⟨follow, low⟩, _⟩ := passes
    exact ⟨follow, fun begun _ => low.resolve_left (by simp [begun])⟩
  | cons first rest ih =>
    simp only [List.cons_append, passesOn, Bool.and_eq_true] at passes
    obtain ⟨follow, low⟩ := ih passes.2
    refine ⟨follow, fun begun vanishes => ?_⟩
    refine low ?_ fun t member => vanishes t (List.mem_cons_of_mem _ member)
    rw [begun, Bool.true_and, silent_iff]
    exact vanishes first List.mem_cons_self

theorem apart_of_apart {follow : NameSet} {a b : String} (told : g.apart follow a b = true) :
    g.Apart follow a b := by
  simp only [apart, Bool.and_eq_true, Bool.or_eq_true, Bool.not_eq_true'] at told
  obtain ⟨⟨differ, left⟩, right⟩ := told
  refine ⟨fun next => NameSet.not_mem_of_misses differ, fun quiet next => ?_, fun quiet next => ?_⟩
  · exact NameSet.not_mem_of_misses (left.resolve_left (by simp [silent_iff.2 quiet]))
  · exact NameSet.not_mem_of_misses (right.resolve_left (by simp [silent_iff.2 quiet]))

/-- The checked facts about the sequences that a right-hand side allows. -/
structure Settles (g : Grammar) (rank : String → Nat) (rule : Rule) (sequence : List String) :
    Prop where
  first : ∀ next ≠ nullable, g.Meets next ∅ sequence → next ∈ rule.first
  vanishing : g.Vanishes sequence → nullable ∈ rule.first
  follow : ∀ {before term after}, sequence = before ++ term :: after → ∀ next ≠ nullable,
    g.Meets next rule.follow after → next ∈ g.followSet term
  falling : ∀ {before term after}, sequence = before ++ term :: after → g.Vanishes before →
    rank term < rank rule.name

theorem settles_sequence {rule : Rule} {terms : List String}
    (decided : g.decidesSequence rank rule terms = true) : g.Settles rank rule terms := by
  simp only [decidesSequence, Bool.and_eq_true, Bool.or_eq_true, Bool.not_eq_true'] at decided
  obtain ⟨⟨first, quiet⟩, passes⟩ := decided
  refine ⟨fun next visible meets => ?_, fun vanishes => ?_, ?_, ?_⟩
  · exact NameSet.mem_of_within first (mem_leads visible meets)
  · have all : terms.all g.silent = true :=
      List.all_eq_true.2 fun term member => silent_iff.2 (vanishes term member)
    have silent := quiet.resolve_left (by simp [all])
    rwa [Rule.isNullable, NameSet.contains_iff] at silent
  · rintro before term after rfl next visible meets
    exact NameSet.mem_of_within (passesOn_at passes).1 (mem_leads visible meets)
  · rintro before term after rfl vanishes
    exact (passesOn_at passes).2 rfl vanishes

theorem decidesTerm_iff {rule : Rule} {term : String} :
    g.decidesTerm rank rule term = true ↔
      ((g.firstSet term).erase nullable).within rule.first = true ∧
        rule.follow.within (g.followSet term) = true ∧ rank term < rank rule.name := by
  simp only [decidesTerm, Bool.and_eq_true, decide_eq_true_eq, and_assoc]

/-- A single term settles a rule that can read nothing when the term can. -/
theorem settles_term {rule : Rule} {term : String} (decided : g.decidesTerm rank rule term = true)
    (quiet : nullable ∈ g.firstSet term → nullable ∈ rule.first) :
    g.Settles rank rule [term] := by
  obtain ⟨first, follow, low⟩ := decidesTerm_iff.1 decided
  have alone : ∀ {before after : List String} {other : String},
      [term] = before ++ other :: after → before = [] ∧ other = term ∧ after = [] := by
    intro before after other same
    cases before with
    | nil =>
      obtain ⟨rfl, rfl⟩ := List.cons.inj same
      exact ⟨rfl, rfl, rfl⟩
    | cons head rest =>
      obtain ⟨_, same⟩ := List.cons.inj same
      simp at same
  refine ⟨fun next visible meets => ?_, fun vanishes => ?_, ?_, ?_⟩
  · have here := meets.resolve_right fun beyond => NameSet.not_mem_empty beyond.2
    exact NameSet.mem_of_within first (NameSet.mem_erase.2 ⟨here, visible⟩)
  · exact quiet (vanishes term List.mem_cons_self)
  · intro before other after split next _ meets
    obtain ⟨rfl, rfl, rfl⟩ := alone split
    exact NameSet.mem_of_within follow meets
  · intro before other after split _
    obtain ⟨rfl, rfl, rfl⟩ := alone split
    exact low

theorem settles_nothing {rule : Rule} (quiet : nullable ∈ rule.first) :
    g.Settles rank rule [] := by
  refine ⟨fun next _ meets => absurd meets NameSet.not_mem_empty, fun _ => quiet, ?_, ?_⟩
  · intro before term after split
    simp at split
  · intro before term after split
    simp at split

/-- Rounds of a term that can follow itself settle a rule that can read nothing. -/
theorem settles_rounds {rule : Rule} {term : String} (n : Nat)
    (decided : g.decidesTerm rank rule term = true) (quiet : nullable ∈ rule.first)
    (again : ((g.firstSet term).erase nullable).within (g.followSet term) = true) :
    g.Settles rank rule (List.replicate n term) := by
  obtain ⟨first, follow, low⟩ := decidesTerm_iff.1 decided
  have later : ∀ (m : Nat) (next : String) (after : NameSet), next ≠ nullable →
      g.Meets next after (List.replicate m term) →
        next ∈ (g.firstSet term).erase nullable ∨ next ∈ after := by
    intro m next after visible meets
    induction m with
    | zero => exact Or.inr meets
    | succ m ih =>
      rcases meets with here | ⟨_, beyond⟩
      · exact Or.inl (NameSet.mem_erase.2 ⟨here, visible⟩)
      · exact ih beyond
  have inside : ∀ {before after : List String} {other : String},
      List.replicate n term = before ++ other :: after →
        other = term ∧ ∃ m, after = List.replicate m term := by
    intro before after other split
    obtain ⟨_, _, rest⟩ := List.append_eq_replicate_iff.1 split.symm
    rw [List.length_cons, List.replicate_succ] at rest
    obtain ⟨rfl, same⟩ := List.cons.inj rest
    exact ⟨rfl, _, same⟩
  refine ⟨fun next visible meets => ?_, fun _ => quiet, ?_, ?_⟩
  · have here := (later n next ∅ visible meets).resolve_right NameSet.not_mem_empty
    exact NameSet.mem_of_within first here
  · intro before other after split next visible meets
    obtain ⟨rfl, m, rfl⟩ := inside split
    rcases later m next rule.follow visible meets with here | beyond
    · exact NameSet.mem_of_within again here
    · exact NameSet.mem_of_within follow beyond
  · intro before other after split _
    obtain ⟨rfl, _⟩ := inside split
    exact low

theorem settles_of_decides {rule : Rule} {sequence : List String}
    (decided : g.decides rank rule = true) (allowed : rule.body.Allows sequence) :
    g.Settles rank rule sequence := by
  simp only [decides, Bool.and_eq_true] at decided
  have body := decided.2
  cases shape : rule.body with
  | terminal | attrTerminal =>
    rw [shape] at allowed
    exact allowed.elim
  | concatenation terms | attrProduction terms =>
    rw [shape] at allowed body
    exact allowed ▸ settles_sequence body
  | alternation terms =>
    rw [shape] at allowed body
    obtain ⟨term, member, rfl⟩ := allowed
    simp only [decidesBody, Bool.and_eq_true] at body
    have each := List.all_eq_true.1 body.1 term member
    simp only [Bool.and_eq_true, Bool.or_eq_true, Bool.not_eq_true'] at each
    refine settles_term each.1 fun quiet => ?_
    have silent := each.2.resolve_left (by simp [silent_iff.2 quiet])
    rwa [Rule.isNullable, NameSet.contains_iff] at silent
  | repetition term =>
    rw [shape] at allowed body
    obtain ⟨n, rfl⟩ := allowed
    simp only [decidesBody, Bool.and_eq_true, Rule.isNullable, NameSet.contains_iff] at body
    obtain ⟨⟨⟨single, quiet⟩, again⟩, _⟩ := body
    exact settles_rounds n single quiet again
  | option term =>
    rw [shape] at allowed body
    simp only [decidesBody, Bool.and_eq_true, Rule.isNullable, NameSet.contains_iff] at body
    obtain ⟨⟨single, quiet⟩, _⟩ := body
    rcases allowed with rfl | rfl
    · exact settles_nothing quiet
    · exact settles_term single fun _ => quiet

theorem parts_of_decides (decided : ∀ rule ∈ g.rules, g.decides rank rule = true)
    {name : String} {rule : Rule} (found : g.find? name = some rule) :
    (∀ term ∈ rule.terms, ∃ r, g.find? term = some r) ∧ rank name < g.rules.length ∧
      g.decidesBody rank rule rule.body = true := by
  have all := decided rule (List.mem_of_find?_eq_some found)
  simp only [decides, Bool.and_eq_true, decide_eq_true_eq, List.all_eq_true] at all
  obtain ⟨⟨terms, low⟩, body⟩ := all
  exact ⟨fun term member => Option.isSome_iff_exists.1 (terms term member),
    g.find?_name found ▸ low, body⟩

theorem analysed_of_decides (decided : ∀ rule ∈ g.rules, g.decides rank rule = true) :
    g.Analysed := by
  have checked : ∀ {name rule}, g.find? name = some rule → g.decides rank rule = true :=
    fun found => decided _ (List.mem_of_find?_eq_some found)
  constructor
  case known => exact fun found => (parts_of_decides decided found).1
  case terminal =>
    intro name rule found terminal
    have body := (parts_of_decides decided found).2.2
    have named := g.find?_name found
    cases shape : rule.body with
    | terminal | attrTerminal =>
      rw [shape, decidesBody, NameSet.contains_iff] at body
      exact named ▸ body
    | concatenation | attrProduction | alternation | repetition | option =>
      rw [Rule.isTerminal, Rule.kind, shape] at terminal
      cases terminal
  case first => exact fun found allowed => (settles_of_decides (checked found) allowed).first _
  case vanishing => exact fun found allowed => (settles_of_decides (checked found) allowed).vanishing
  case follow =>
    exact fun found allowed => (settles_of_decides (checked found) allowed).follow rfl _

theorem oneToken_of_decides (decided : ∀ rule ∈ g.rules, g.decides rank rule = true) :
    g.OneToken := by
  constructor
  case apart =>
    intro name rule terms found shape
    have body := (parts_of_decides decided found).2.2
    rw [shape] at body
    simp only [decidesBody, Bool.and_eq_true, decide_eq_true_eq] at body
    exact body.2.imp apart_of_apart
  case leaving =>
    intro name rule term found shape next member visible
    have body := (parts_of_decides decided found).2.2
    have away : ((g.firstSet term).erase nullable).misses rule.follow = true := by
      rcases shape with shape | shape <;> rw [shape] at body <;>
        simp only [decidesBody, Bool.and_eq_true] at body
      · exact body.2
      · exact body.2
    exact NameSet.not_mem_of_misses away (NameSet.mem_erase.2 ⟨member, visible⟩)

/-- A grammar whose rules are all decided by one token is predictive. -/
theorem predictive_of_decides (decided : ∀ rule ∈ g.rules, g.decides rank rule = true) :
    g.Predictive rank where
  toAnalysed := analysed_of_decides decided
  toOneToken := oneToken_of_decides decided
  bounded found := (parts_of_decides decided found).2.1
  falling found allowed vanishes := by
    have checked := decided _ (List.mem_of_find?_eq_some found)
    exact g.find?_name found ▸ (settles_of_decides checked allowed).falling rfl vanishes

end Grammar

end AttrGrammar
