import AttrGrammar.Proofs.Grammar.First

/-!
Rules without their references to themselves.

A reference of a rule to itself is only met while the set of the rule is being computed, so it adds
nothing, from wherever the rule is reached. Such references can as well go to a name that has no
definition: requests answer the same and store the same. What is left then is grounded unless two
different names lead to each other.
-/

namespace AttrGrammar

/-- A right-hand side with other terms. -/
def RuleBody.rename (f : String → String) : RuleBody → RuleBody
  | .terminal matcher => .terminal matcher
  | .concatenation terms => .concatenation (terms.map f)
  | .alternation terms => .alternation (terms.map f)
  | .repetition term => .repetition (f term)
  | .option term => .option (f term)
  | .attrTerminal => .attrTerminal
  | .attrProduction terms => .attrProduction (terms.map f)

/-- What stands for a term in a rule called `name`: the rule itself is replaced by `dead`. -/
def detour (dead name term : String) : String := if term = name then dead else term

/-- A rule that refers to `dead` instead of itself. -/
def Rule.detoured (dead : String) (rule : Rule) : Rule :=
  { rule with body := rule.body.rename (detour dead rule.name) }

/-- The rules, each of which refers to `dead` instead of itself. -/
def detoured (dead : String) (rules : List Rule) : List Rule := rules.map (Rule.detoured dead)

theorem RuleBody.terms_rename (f : String → String) (body : RuleBody) :
    (body.rename f).terms = body.terms.map f := by
  cases body <;> rfl

theorem RuleBody.exists_of_allows_rename {f : String → String} {body : RuleBody}
    {sequence : List String} (allowed : (body.rename f).Allows sequence) :
    ∃ original, body.Allows original ∧ sequence = original.map f := by
  cases body with
  | terminal | attrTerminal => exact allowed.elim
  | concatenation terms | attrProduction terms => exact ⟨terms, rfl, allowed⟩
  | alternation terms =>
    obtain ⟨_, listed, rfl⟩ := allowed
    obtain ⟨term, member, rfl⟩ := List.mem_map.1 listed
    exact ⟨[term], ⟨term, member, rfl⟩, rfl⟩
  | repetition term =>
    obtain ⟨n, rfl⟩ := allowed
    exact ⟨List.replicate n term, ⟨n, rfl⟩, List.map_replicate.symm⟩
  | option term =>
    rcases allowed with rfl | rfl
    · exact ⟨[], Or.inl rfl, rfl⟩
    · exact ⟨[term], Or.inr rfl, rfl⟩

theorem sequenceStarts_map (f : String → String) (family : String → Set String)
    (terms : List String) :
    sequenceStarts family (terms.map f) = sequenceStarts (family ∘ f) terms := by
  induction terms with
  | nil => rfl
  | cons term rest ih => rw [List.map_cons, sequenceStarts, sequenceStarts, ih, Function.comp_apply]

theorem RuleBody.starts_rename (f : String → String) (name : String)
    (family : String → Set String) (body : RuleBody) :
    (body.rename f).starts name family = body.starts name (family ∘ f) := by
  cases body with
  | terminal | attrTerminal | repetition | option => rfl
  | concatenation terms | attrProduction terms => exact sequenceStarts_map f family terms
  | alternation terms =>
    ext x
    simp [RuleBody.rename, RuleBody.starts]

theorem findRule?_detoured (dead : String) (rules : List Rule) (name : String) :
    findRule? (detoured dead rules) name = (findRule? rules name).map (Rule.detoured dead) :=
  findRule?_map (f := Rule.detoured dead) (fun _ => rfl) rules name

theorem isTerminal_detoured (dead : String) (rule : Rule) :
    (rule.detoured dead).isTerminal = rule.isTerminal := by
  unfold Rule.detoured Rule.isTerminal Rule.kind
  cases rule.body <;> rfl

theorem names_detoured (dead : String) (rules : List Rule) :
    (detoured dead rules).map Rule.name = rules.map Rule.name := by
  rw [detoured, List.map_map]
  rfl

section

variable {dead : String} {rules : List Rule}

theorem missing_detoured (gap : findRule? rules dead = none) :
    findRule? (detoured dead rules) dead = none := by
  rw [findRule?_detoured, gap]
  rfl

theorem leastFirst_detoured_subset (gap : findRule? rules dead = none) (name : String) :
    leastFirst (detoured dead rules) name ⊆ leastFirst rules name := by
  refine leastFirst_le (fun name => ?_) name
  unfold starts
  rw [findRule?_detoured]
  cases found : findRule? rules name with
  | none => exact Set.empty_subset _
  | some rule =>
    have below : ∀ term ∈ rule.body.terms,
        (leastFirst rules ∘ detour dead rule.name) term ⊆ leastFirst rules term := by
      intro term _
      rw [Function.comp_apply, detour]
      split
      · rw [leastFirst_undefined gap]
        exact Set.empty_subset _
      · exact subset_rfl
    change (rule.body.rename _).starts name _ ⊆ _
    rw [RuleBody.starts_rename, leastFirst_of_find? found]
    exact RuleBody.starts_mono below name

theorem leads_detoured (gap : findRule? rules dead = none) {a b : String}
    (leads : Leads (detoured dead rules) a b) : b = dead ∨ Leads rules a b ∧ b ≠ a := by
  obtain ⟨other, before, after, known, allowed, silent⟩ := leads
  rw [findRule?_detoured, Option.map_eq_some_iff] at known
  obtain ⟨rule, found, rfl⟩ := known
  obtain ⟨original, allows, split⟩ := RuleBody.exists_of_allows_rename allowed
  obtain ⟨front, back, rfl, rfl, later⟩ := List.map_eq_append_iff.1 split.symm
  obtain ⟨term, rest, rfl, here, -⟩ := List.map_eq_cons_iff.1 later
  unfold detour at here
  split at here
  · exact Or.inl here.symm
  · next other =>
    subst here
    rw [findRule?_name found] at other
    refine Or.inr ⟨⟨rule, front, rest, found, allows, fun t member => ?_⟩, other⟩
    have nothing := silent _ (List.mem_map_of_mem member)
    unfold detour at nothing
    split at nothing
    · rw [leastFirst_undefined (missing_detoured gap)] at nothing
      exact nothing.elim
    · exact leastFirst_detoured_subset gap t nothing

/-- Nothing is led to from the name that has no definition. -/
theorem defined_of_leads {a b : String} (leads : Leads rules a b) :
    ∃ rule, findRule? rules a = some rule :=
  let ⟨rule, _, _, found, _⟩ := leads
  ⟨rule, found⟩

theorem reaches_detoured (gap : findRule? rules dead = none) {a b : String}
    (path : Relation.ReflTransGen (Leads (detoured dead rules)) a b) :
    b = dead ∨ Relation.ReflTransGen (Leads rules) a b := by
  induction path with
  | refl => exact Or.inr .refl
  | tail _ leads ih =>
    obtain ⟨rule, found⟩ := defined_of_leads leads
    rcases ih with rfl | ih
    · cases found.symm.trans (missing_detoured gap)
    · exact (leads_detoured gap leads).imp_right fun leads => ih.tail leads.1

end

/-- A name that leads to another one, and from there back to itself. -/
def MutuallyLeftRecursive (rules : List Rule) (name : String) : Prop :=
  ∃ other, other ≠ name ∧ Relation.TransGen (Leads rules) name other ∧
    Relation.TransGen (Leads rules) other name

/-- Left recursion goes away with the references of rules to themselves, unless it is mutual. -/
theorem grounded_detoured {dead : String} {rules : List Rule} (gap : findRule? rules dead = none)
    {name : String} (alone : ∀ n, Relation.ReflTransGen (Leads rules) name n →
      ¬ MutuallyLeftRecursive rules n) : Grounded (detoured dead rules) name := by
  refine grounded_of_reach fun n path circle => ?_
  obtain ⟨b, leads, back⟩ := Relation.TransGen.head'_iff.1 circle
  obtain ⟨rule, found⟩ := defined_of_leads leads
  have living : n ≠ dead := by
    rintro rfl
    cases found.symm.trans (missing_detoured gap)
  have there := (reaches_detoured gap path).resolve_left living
  have back := (reaches_detoured gap back).resolve_left living
  rcases leads_detoured gap leads with rfl | ⟨leads, other⟩
  · rcases Relation.ReflTransGen.cases_head back with rfl | ⟨c, further, _⟩
    · exact living rfl
    · obtain ⟨rule, found⟩ := defined_of_leads further
      cases found.symm.trans (missing_detoured gap)
  · refine alone n there ⟨b, other, .single leads, ?_⟩
    exact (Relation.reflTransGen_iff_eq_or_transGen.1 back).resolve_left other.symm

/-- Rules where `dead` has no definition, and the rules called `visiting` have no set yet. -/
structure Visited (dead : String) (visiting : List String) (rules : List Rule) : Prop where
  gap : findRule? rules dead = none
  unset : ∀ name ∈ visiting, ∀ rule, findRule? rules name = some rule → rule.hasFirst = false

/-- A name without a definition begins with nothing, and so does one that is being visited. -/
theorem firstOf_nothing {rules : List Rule} {visiting : List String} {name : String}
    (nothing : ∀ rule, findRule? rules name = some rule →
      rule.hasFirst = false ∧ name ∈ visiting) (fuel : Nat) :
    firstOf fuel visiting rules name = (∅, rules) := by
  cases fuel with
  | zero => rfl
  | succ fuel =>
    rw [firstOf]
    cases found : findRule? rules name with
    | none => rfl
    | some rule =>
      obtain ⟨unset, again⟩ := nothing rule found
      simp [unset, again]

section

variable {dead : String} {holds : List Rule → Prop} {f : String → String}
  {of of' : List Rule → String → NameSet × List Rule}

theorem sequenceFirst_detoured
    (each : ∀ rules, holds rules → ∀ term, holds (of rules term).2 ∧
      of' (detoured dead rules) (f term) = ((of rules term).1, detoured dead (of rules term).2))
    {rules : List Rule} (before : holds rules) (terms : List String) :
    holds (sequenceFirst of rules terms).2 ∧
      sequenceFirst of' (detoured dead rules) (terms.map f) =
        ((sequenceFirst of rules terms).1, detoured dead (sequenceFirst of rules terms).2) := by
  induction terms generalizing rules with
  | nil => exact ⟨before, rfl⟩
  | cons term rest ih =>
    obtain ⟨now, same⟩ := each rules before term
    simp only [List.map_cons, sequenceFirst, same]
    split
    · obtain ⟨after, rest⟩ := ih now
      rw [rest]
      exact ⟨after, rfl⟩
    · exact ⟨now, rfl⟩

theorem choiceFirst_detoured
    (each : ∀ rules, holds rules → ∀ term, holds (of rules term).2 ∧
      of' (detoured dead rules) (f term) = ((of rules term).1, detoured dead (of rules term).2))
    {rules : List Rule} (before : holds rules) (terms : List String) :
    holds (choiceFirst of rules terms).2 ∧
      choiceFirst of' (detoured dead rules) (terms.map f) =
        ((choiceFirst of rules terms).1, detoured dead (choiceFirst of rules terms).2) := by
  induction terms generalizing rules with
  | nil => exact ⟨before, rfl⟩
  | cons term rest ih =>
    obtain ⟨now, same⟩ := each rules before term
    obtain ⟨after, rest⟩ := ih now
    simp only [List.map_cons, choiceFirst, same, rest]
    exact ⟨after, trivial⟩

theorem bodyFirst_detoured
    (each : ∀ rules, holds rules → ∀ term, holds (of rules term).2 ∧
      of' (detoured dead rules) (f term) = ((of rules term).1, detoured dead (of rules term).2))
    {rules : List Rule} (before : holds rules) (name : String) (body : RuleBody) :
    holds (bodyFirst of rules name body).2 ∧
      bodyFirst of' (detoured dead rules) name (body.rename f) =
        ((bodyFirst of rules name body).1, detoured dead (bodyFirst of rules name body).2) := by
  cases body with
  | terminal | attrTerminal => exact ⟨before, rfl⟩
  | concatenation terms | attrProduction terms => exact sequenceFirst_detoured each before terms
  | alternation terms => exact choiceFirst_detoured each before terms
  | repetition term | option term =>
    obtain ⟨now, same⟩ := each rules before term
    simp only [RuleBody.rename, bodyFirst, same]
    exact ⟨now, trivial⟩

end

theorem storeFirst_detoured (dead : String) (rules : List Rule) (name : String) (first : NameSet) :
    storeFirst (detoured dead rules) name first = detoured dead (storeFirst rules name first) := by
  simp only [storeFirst, detoured, List.map_map]
  refine List.map_congr_left fun rule _ => ?_
  rw [Function.comp_apply, Function.comp_apply]
  by_cases same : rule.name = name
  · have same' : (rule.detoured dead).name = name := same
    rw [if_pos same, if_pos same']
    rfl
  · have other : (rule.detoured dead).name ≠ name := same
    rw [if_neg same, if_neg other]

theorem Visited.storeFirst {dead : String} {visiting : List String} {rules : List Rule}
    {name : String} (visited : Visited dead (name :: visiting) rules) (new : name ∉ visiting)
    (first : NameSet) : Visited dead visiting (storeFirst rules name first) where
  gap := by
    rw [findRule?_storeFirst, visited.gap]
    rfl
  unset other member rule found := by
    rw [findRule?_storeFirst, Option.map_eq_some_iff] at found
    obtain ⟨old, known, rfl⟩ := found
    have different : old.name ≠ name := by
      rw [findRule?_name known]
      rintro rfl
      exact new member
    rw [if_neg different]
    exact visited.unset other (List.mem_cons_of_mem _ member) old known

/-- A request answers the same and stores the same where no rule refers to itself. -/
theorem firstOf_detoured {dead : String} (fuel : Nat) {visiting : List String} {rules : List Rule}
    (name : String) (visited : Visited dead visiting rules) :
    Visited dead visiting (firstOf fuel visiting rules name).2 ∧
      firstOf fuel visiting (detoured dead rules) name =
        ((firstOf fuel visiting rules name).1, detoured dead (firstOf fuel visiting rules name).2) := by
  induction fuel generalizing visiting rules name with
  | zero => exact ⟨visited, rfl⟩
  | succ fuel ih =>
    rw [firstOf, firstOf, findRule?_detoured]
    cases found : findRule? rules name with
    | none => exact ⟨visited, rfl⟩
    | some rule =>
      rw [Option.map_some]
      dsimp only
      have same : (rule.detoured dead).hasFirst = rule.hasFirst := rfl
      rw [same]
      cases ready : rule.hasFirst with
      | true => exact ⟨visited, rfl⟩
      | false =>
        rw [if_neg Bool.false_ne_true, if_neg Bool.false_ne_true]
        by_cases again : visiting.contains name = true
        · rw [if_pos again, if_pos again]
          exact ⟨visited, rfl⟩
        · rw [if_neg again, if_neg again]
          have new : name ∉ visiting := fun member => again (List.contains_iff_mem.2 member)
          have inside : Visited dead (name :: visiting) rules := by
            refine ⟨visited.gap, List.forall_mem_cons.2 ⟨fun r known => ?_, visited.unset⟩⟩
            cases found.symm.trans known
            exact ready
          -- A reference of the rule to itself finds nothing on both sides.
          have each : ∀ now, Visited dead (name :: visiting) now → ∀ term,
              Visited dead (name :: visiting) (firstOf fuel (name :: visiting) now term).2 ∧
                firstOf fuel (name :: visiting) (detoured dead now) (detour dead rule.name term) =
                  ((firstOf fuel (name :: visiting) now term).1,
                    detoured dead (firstOf fuel (name :: visiting) now term).2) := by
            intro now state term
            unfold detour
            split
            · next self =>
              rw [findRule?_name found] at self
              subst self
              have unset := state.unset term List.mem_cons_self
              rw [firstOf_nothing (fun r known => ⟨unset r known, List.mem_cons_self⟩) fuel]
              refine ⟨state, firstOf_nothing (fun r known => ?_) fuel⟩
              cases known.symm.trans (missing_detoured state.gap)
            · exact ih term state
          obtain ⟨after, body⟩ := bodyFirst_detoured each inside name rule.body
          change Visited dead visiting (if rule.unresolved then _ else _) ∧ _
          have computed : bodyFirst (firstOf fuel (name :: visiting)) (detoured dead rules) name
              (rule.detoured dead).body = _ := body
          rw [computed]
          cases gap : rule.unresolved with
          | true =>
            refine ⟨⟨after.gap, fun n member => after.unset n (List.mem_cons_of_mem _ member)⟩, ?_⟩
            simp [Rule.detoured, gap]
          | false =>
            refine ⟨after.storeFirst new _, ?_⟩
            simp [Rule.detoured, gap, storeFirst_detoured]

end AttrGrammar
