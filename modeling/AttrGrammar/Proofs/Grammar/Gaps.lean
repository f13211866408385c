import AttrGrammar.Grammar.Draft
import AttrGrammar.Proofs.Grammar.First

/-!
Rules with gaps: those from which an undefined name can be reached.

Going back along references adds names until a round adds none, so a rule without a gap refers to
defined names without gaps only, and what refers to such names only never gets a gap. A definition
added to a draft, or put in the place of another, leaves rules without gaps as they are.
-/

namespace AttrGrammar.Draft

theorem definesRule_iff {rules : List Rule} {name : String} :
    definesRule rules name = true ↔ name ∈ rules.map Rule.name := by
  simp [definesRule]

theorem mem_referrers {rules : List Rule} {names : List String} {name : String} :
    name ∈ referrers rules names ↔
      ∃ rule ∈ rules, rule.name = name ∧
        ∃ term ∈ rule.terms, definesRule rules term = false ∨ term ∈ names := by
  simp only [referrers, List.mem_map, List.mem_filter, List.any_eq_true, Bool.or_eq_true,
    Bool.not_eq_true', List.contains_iff_mem]
  exact ⟨fun ⟨rule, ⟨listed, gap⟩, named⟩ => ⟨rule, listed, named, gap⟩,
    fun ⟨rule, listed, named, gap⟩ => ⟨rule, ⟨listed, gap⟩, named⟩⟩

/-- More names have more referrers, in the same order. -/
theorem referrers_sublist {rules : List Rule} {names more : List String}
    (grows : ∀ name ∈ names, name ∈ more) :
    (referrers rules names).Sublist (referrers rules more) := by
  refine (List.monotone_filter_right rules fun rule => ?_).map Rule.name
  simp only [List.any_eq_true, Bool.or_eq_true, Bool.not_eq_true', List.contains_iff_mem]
  exact fun ⟨term, listed, gap⟩ => ⟨term, listed, gap.imp_right (grows term)⟩

theorem length_referrers_le (rules : List Rule) (names : List String) :
    (referrers rules names).length ≤ rules.length := by
  rw [referrers, List.length_map]
  exact List.length_filter_le _ _

/-- The rounds end with names whose referrers are among them. -/
theorem referrersFrom_spec (rules : List Rule) (fuel : Nat) {names : List String}
    (inside : names.Sublist (referrers rules names)) (enough : rules.length < fuel + names.length) :
    referrers rules (referrersFrom rules fuel names) = referrersFrom rules fuel names := by
  induction fuel generalizing names with
  | zero =>
    have short := inside.length_le
    have bound := length_referrers_le rules names
    omega
  | succ fuel ih =>
    rw [referrersFrom]
    split
    · next same => exact (inside.eq_of_length same.symm).symm
    · next differs =>
      have grows := inside.length_le
      exact ih (referrers_sublist fun name member => inside.subset member) (by omega)

theorem mem_unresolvedNames {rules : List Rule} {name : String} :
    name ∈ unresolvedNames rules ↔
      ∃ rule ∈ rules, rule.name = name ∧
        ∃ term ∈ rule.terms, definesRule rules term = false ∨ term ∈ unresolvedNames rules := by
  have fixed := referrersFrom_spec rules (rules.length + 1) (List.nil_sublist _) (by simp)
  conv_lhs => rw [unresolvedNames, ← fixed]
  exact mem_referrers

section

variable {rules : List Rule} {inside : String → Prop}

/-- No round of looking for gaps comes to names that are defined by each other only. -/
theorem referrersFrom_outside
    (closed : ∀ rule ∈ rules, inside rule.name →
      ∀ term ∈ rule.terms, definesRule rules term = true ∧ inside term)
    (fuel : Nat) {names : List String} (outside : ∀ name ∈ names, ¬ inside name) :
    ∀ name ∈ referrersFrom rules fuel names, ¬ inside name := by
  induction fuel generalizing names with
  | zero => exact outside
  | succ fuel ih =>
    rw [referrersFrom]
    split
    · exact outside
    · refine ih fun name member here => ?_
      obtain ⟨rule, listed, rfl, term, refers, gap⟩ := mem_referrers.1 member
      obtain ⟨defined, within⟩ := closed rule listed here term refers
      rcases gap with missing | among
      · exact absurd (defined.symm.trans missing) Bool.noConfusion
      · exact outside term among within

/-- Names that are defined by each other only have no gaps. -/
theorem not_mem_unresolvedNames
    (closed : ∀ rule ∈ rules, inside rule.name →
      ∀ term ∈ rule.terms, definesRule rules term = true ∧ inside term)
    {name : String} (here : inside name) : name ∉ unresolvedNames rules :=
  fun gap => referrersFrom_outside closed _ (by simp) name gap here

end

/-- Gaps depend on names and right-hand sides only. -/
theorem unresolvedNames_map {f : Rule → Rule} (named : ∀ rule, (f rule).name = rule.name)
    (body : ∀ rule, (f rule).body = rule.body) (rules : List Rule) :
    unresolvedNames (rules.map f) = unresolvedNames rules := by
  have defines : ∀ name, definesRule (rules.map f) name = definesRule rules name := by
    intro name
    simp only [definesRule, List.any_map, Function.comp_def, named]
  have same : ∀ names, referrers (rules.map f) names = referrers rules names := by
    intro names
    simp only [referrers, defines, List.filter_map, List.map_map, Function.comp_def, named,
      Rule.terms, body]
  have rounds : ∀ fuel names,
      referrersFrom (rules.map f) fuel names = referrersFrom rules fuel names := by
    intro fuel
    induction fuel with
    | zero => exact fun _ => rfl
    | succ fuel ih =>
      intro names
      rw [referrersFrom, referrersFrom, same, ih]
  rw [unresolvedNames, unresolvedNames, List.length_map, rounds]

/-- The names that are defined and have no gap. -/
def Whole (rules : List Rule) (name : String) : Prop :=
  name ∈ rules.map Rule.name ∧ name ∉ unresolvedNames rules

theorem Whole.terms {rules : List Rule} {rule : Rule} (listed : rule ∈ rules)
    (whole : Whole rules rule.name) : ∀ term ∈ rule.terms, Whole rules term := by
  intro term refers
  have closed : ¬ (definesRule rules term = false ∨ term ∈ unresolvedNames rules) :=
    fun gap => whole.2 (mem_unresolvedNames.2 ⟨rule, listed, rfl, term, refers, gap⟩)
  rw [not_or, Bool.not_eq_false, definesRule_iff] at closed
  exact closed

/-- Rules without gaps stay as they are when others are added. -/
theorem sharedPart_append {rules : List Rule} (more : List Rule) :
    SharedPart rules (rules ++ more) (Whole rules) where
  same name whole := by
    obtain ⟨rule, listed, rfl⟩ := List.mem_map.1 whole.1
    have found : (findRule? rules rule.name).isSome = true := by
      rw [findRule?, List.find?_isSome]
      exact ⟨rule, listed, beq_self_eq_true _⟩
    rw [findRule?, List.find?_append]
    rw [findRule?] at found ⊢
    rw [Option.or_of_isSome found]
  closed name rule whole found := by
    have named := findRule?_name found
    exact Whole.terms (List.mem_of_find?_eq_some found) (named ▸ whole)

theorem Whole.append {rules : List Rule} (more : List Rule)
    (fresh : ∀ rule ∈ more, rule.name ∉ rules.map Rule.name) {name : String}
    (whole : Whole rules name) : Whole (rules ++ more) name := by
  refine ⟨?_, not_mem_unresolvedNames (fun rule listed whole term refers => ?_) whole⟩
  · rw [List.map_append]
    exact List.mem_append_left _ whole.1
  · rcases List.mem_append.1 listed with old | new
    · have within := Whole.terms old whole term refers
      refine ⟨?_, within⟩
      rw [definesRule_iff, List.map_append]
      exact List.mem_append_left _ within.1
    · exact absurd whole.1 (fresh rule new)

/-- Rules without gaps stay as they are when terms are taken away. -/
theorem Whole.map {rules : List Rule} {f : Rule → Rule} (named : ∀ rule, (f rule).name = rule.name)
    (fewer : ∀ rule, ∀ term ∈ (f rule).terms, term ∈ rule.terms) {name : String}
    (whole : Whole rules name) : Whole (rules.map f) name := by
  have names : (rules.map f).map Rule.name = rules.map Rule.name := by
    rw [List.map_map]
    exact List.map_congr_left fun rule _ => named rule
  refine ⟨names ▸ whole.1, @not_mem_unresolvedNames _ (Whole rules) ?_ _ whole⟩
  rw [List.forall_mem_map]
  intro rule listed here term refers
  have within := Whole.terms listed (named rule ▸ here) term (fewer rule term refers)
  exact ⟨definesRule_iff.2 (names ▸ within.1), within⟩

end AttrGrammar.Draft
