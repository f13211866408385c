import AttrGrammar.Proofs.Grammar.Staging
import Mathlib.Algebra.GroupWithZero.Nat
import Mathlib.Algebra.Order.BigOperators.Group.List
import Mathlib.Algebra.Order.Group.Nat
import Mathlib.Data.List.Perm.Basic
import Mathlib.Data.Set.Basic
import Mathlib.Order.Bounds.Basic

/-!
FOLLOW sets are the least that a grammar asks for.

The conditions on FOLLOW sets say what a rule puts into the set of a term from FIRST sets, and which
sets flow into which. A stage takes in finished sets only, and the rounds over what is left stop when
they add nothing, so at the end every set holds all that flows into it. Nothing is ever put in that
the conditions do not ask for. The main statement says that the sets are the least family with these
conditions.
-/

namespace AttrGrammar

namespace NameSet

theorem nodup_toList (s : NameSet) : s.toList.Nodup :=
  s.sorted.imp fun {a b} (below : a < b) (same : a = b) => String.lt_irrefl b (same ▸ below)

theorem size_le {s t : NameSet} (inside : ∀ x ∈ s, x ∈ t) : s.size ≤ t.size :=
  (List.subperm_of_subset s.nodup_toList fun x member => inside x member).length_le

/-- A set inside one of the same size is that set. -/
theorem eq_of_size_le {s t : NameSet} (inside : ∀ x ∈ s, x ∈ t) (size : t.size ≤ s.size) : s = t := by
  have below := List.subperm_of_subset s.nodup_toList fun x member => inside x member
  have same := below.perm_of_length_le size
  exact ext fun x => same.mem_iff

end NameSet

namespace Follow

/-- Every term can read nothing. -/
def AllNullable (rules : List Rule) (terms : List String) : Prop :=
  ∀ term ∈ terms, nullable ∈ firstSetOf rules term

/-- `x` begins a term, and all terms before it can read nothing. -/
def Begins (rules : List Rule) (terms : List String) (x : String) : Prop :=
  ∃ between next after, terms = between ++ next :: after ∧ AllNullable rules between ∧
    x ∈ firstSetOf rules next

/-- A body puts the name `x` into the set of `term`: `x` begins what comes after the term, or the
term itself where that is read again. -/
def Seeds (rules : List Rule) : RuleBody → (term x : String) → Prop
  | .concatenation terms, term, x | .attrProduction terms, term, x =>
    x ≠ nullable ∧ ∃ before after, terms = before ++ term :: after ∧ Begins rules after x
  | .repetition only, term, x => x ≠ nullable ∧ term = only ∧ x ∈ firstSetOf rules term
  | .terminal _, _, _ | .attrTerminal, _, _ | .alternation _, _, _ | .option _, _, _ => False

/-- A body can end with `term`, so that what follows the rule follows the term. -/
def Flows (rules : List Rule) : RuleBody → (term : String) → Prop
  | .concatenation terms, term | .attrProduction terms, term =>
    ∃ before after, terms = before ++ term :: after ∧ AllNullable rules after
  | .alternation terms, term => term ∈ terms
  | .repetition only, term | .option only, term => term = only
  | .terminal _, _ | .attrTerminal, _ => False

/-- A family of sets that meets the conditions for all names that are defined. -/
structure Closed (rules : List Rule) (top : String) (family : String → Set String) : Prop where
  top : definesRule rules top = true → endOfInput ∈ family top
  seeds : ∀ rule ∈ rules, ∀ {term x}, definesRule rules term = true →
    Seeds rules rule.body term x → x ∈ family term
  flows : ∀ rule ∈ rules, ∀ {term}, definesRule rules term = true →
    Flows rules rule.body term → family rule.name ⊆ family term

/-- The set of a name, which is empty if there is none. -/
def held (sets : Sets) (name : String) : NameSet := (sets.find? name).getD ∅

theorem held_of_not_mem {sets : Sets} {name : String} (unknown : name ∉ sets.names) :
    held sets name = ∅ := by
  have absent : sets.find? name = none := by
    rw [← Option.not_isSome_iff_eq_none, Table.isSome_find?_iff]
    exact unknown
  rw [held, absent]
  rfl

theorem held_modify (sets : Sets) (name other : String) (change : NameSet → NameSet) :
    held (sets.modify name change) other =
      if other = name ∧ name ∈ sets.names then change (held sets name) else held sets other := by
  rw [held, Table.find?_modify]
  by_cases same : other = name
  · subst same
    by_cases known : other ∈ sets.names
    · obtain ⟨s, found⟩ := Option.isSome_iff_exists.1 ((sets.isSome_find?_iff other).2 known)
      simp [held, found, known]
    · have absent : sets.find? other = none := by
        rw [← Option.not_isSome_iff_eq_none, Table.isSome_find?_iff]
        exact known
      simp [held, absent, known]
  · simp [same, held]

@[simp] theorem names_extend (sets : Sets) (name : String) (names : NameSet) :
    (extend sets name names).names = sets.names := Table.names_modify ..

theorem mem_extend {sets : Sets} {name other x : String} {names : NameSet} :
    x ∈ held (extend sets name names) other ↔ x ∈ held sets other ∨
      other = name ∧ other ∈ sets.names ∧ x ∈ names ∧ x ≠ nullable := by
  rw [extend, held_modify]
  by_cases here : other = name ∧ name ∈ sets.names
  · obtain ⟨rfl, known⟩ := here
    simp [known]
  · rw [if_neg here]
    constructor
    · exact Or.inl
    · rintro (inside | ⟨rfl, known, _⟩)
      · exact inside
      · exact absurd ⟨rfl, known⟩ here

theorem mem_depend {sources : Sources} {term source name s : String} :
    s ∈ sourcesOf (depend sources term source) name ↔
      s ∈ sourcesOf sources name ∨ name ≠ source ∧ name = term ∧ s = source := by
  unfold depend
  by_cases self : term = source
  · rw [if_pos self]
    constructor
    · exact Or.inl
    · rintro (inside | ⟨other, rfl, rfl⟩)
      · exact inside
      · exact absurd self other
  · rw [if_neg self]
    dsimp only
    split
    · next known =>
      constructor
      · exact Or.inl
      · rintro (inside | ⟨_, rfl, rfl⟩)
        · exact inside
        · exact List.contains_iff_mem.1 known
    · rw [sourcesOf, Table.find?_insert]
      by_cases same : name = term
      · subst same
        simp [sourcesOf, self]
      · simp [same, sourcesOf]

theorem begins_cons {rules : List Rule} {next x : String} {rest : List String} :
    Begins rules (next :: rest) x ↔ x ∈ firstSetOf rules next ∨
      nullable ∈ firstSetOf rules next ∧ Begins rules rest x := by
  constructor
  · rintro ⟨between, other, after, split, silent, begins⟩
    cases between with
    | nil =>
      cases split
      exact Or.inl begins
    | cons first between =>
      cases split
      have first := silent _ List.mem_cons_self
      have later : AllNullable rules between := fun t member =>
        silent t (List.mem_cons_of_mem _ member)
      exact Or.inr ⟨first, between, other, after, rfl, later, begins⟩
  · rintro (begins | ⟨first, between, other, after, rfl, silent, begins⟩)
    · exact ⟨[], next, rest, rfl, nofun, begins⟩
    · refine ⟨next :: between, other, after, rfl, fun t member => ?_, begins⟩
      rcases List.mem_cons.1 member with rfl | member
      · exact first
      · exact silent t member

theorem allNullable_cons {rules : List Rule} {next : String} {rest : List String} :
    AllNullable rules (next :: rest) ↔
      nullable ∈ firstSetOf rules next ∧ AllNullable rules rest := List.forall_mem_cons

/-- What the terms after a term add to its set. -/
theorem extendByRest_spec (rules : List Rule) (term : String) (rest : List String) (sets : Sets) :
    (extendByRest rules term rest sets).1.names = sets.names ∧
      ((extendByRest rules term rest sets).2 = true ↔ AllNullable rules rest) ∧
      ∀ name x, x ∈ held (extendByRest rules term rest sets).1 name ↔ x ∈ held sets name ∨
        name = term ∧ name ∈ sets.names ∧ x ≠ nullable ∧ Begins rules rest x := by
  induction rest generalizing sets with
  | nil =>
    refine ⟨rfl, ?_, fun name x => ?_⟩
    · simp [extendByRest, AllNullable]
    · simp [extendByRest, Begins]
  | cons next rest ih =>
    rw [extendByRest]
    by_cases silent : nullable ∈ firstSetOf rules next
    · obtain ⟨names, last, added⟩ := ih (extend sets term (firstSetOf rules next))
      rw [if_pos (NameSet.contains_iff.2 silent)]
      refine ⟨names.trans (names_extend ..), ?_, fun name x => ?_⟩
      · rw [last, allNullable_cons, and_iff_right silent]
      · rw [added, mem_extend, begins_cons, names_extend]
        tauto
    · rw [if_neg (by rwa [NameSet.contains_iff])]
      refine ⟨names_extend .., ?_, fun name x => ?_⟩
      · rw [allNullable_cons]
        simp [silent]
      · rw [mem_extend, begins_cons]
        tauto

/-- What the terms of a concatenation called `name` add. -/
theorem addSequence_spec (rules : List Rule) (name : String) (terms : List String)
    (state : Sets × Sources) :
    (addSequence rules name terms state).1.names = state.1.names ∧
      (∀ term x, x ∈ held (addSequence rules name terms state).1 term ↔ x ∈ held state.1 term ∨
        term ∈ state.1.names ∧ x ≠ nullable ∧
          ∃ before after, terms = before ++ term :: after ∧ Begins rules after x) ∧
      ∀ term s, s ∈ sourcesOf (addSequence rules name terms state).2 term ↔
        s ∈ sourcesOf state.2 term ∨ term ≠ name ∧ s = name ∧
          ∃ before after, terms = before ++ term :: after ∧ AllNullable rules after := by
  induction terms generalizing state with
  | nil => exact ⟨rfl, by simp [addSequence], by simp [addSequence]⟩
  | cons first rest ih =>
    obtain ⟨sets, sources⟩ := state
    obtain ⟨names, last, added⟩ := extendByRest_spec rules first rest sets
    have split : ∀ (term : String) (P : List String → Prop),
        (∃ before after, first :: rest = before ++ term :: after ∧ P after) ↔
          term = first ∧ P rest ∨ ∃ before after, rest = before ++ term :: after ∧ P after := by
      intro term P
      constructor
      · rintro ⟨before, after, same, holds⟩
        cases before with
        | nil =>
          cases same
          exact Or.inl ⟨rfl, holds⟩
        | cons head before =>
          cases same
          exact Or.inr ⟨before, after, rfl, holds⟩
      · rintro (⟨rfl, holds⟩ | ⟨before, after, rfl, holds⟩)
        · exact ⟨[], rest, rfl, holds⟩
        · exact ⟨first :: before, after, rfl, holds⟩
    rw [addSequence]
    obtain ⟨namesLater, addedLater, sourcesLater⟩ := ih
      ((extendByRest rules first rest sets).1,
        if (extendByRest rules first rest sets).2 then depend sources first name else sources)
    refine ⟨namesLater.trans names, fun term x => ?_, fun term s => ?_⟩
    · rw [addedLater, added, names, split]
      tauto
    · rw [sourcesLater, split]
      by_cases silent : AllNullable rules rest
      · rw [if_pos (last.2 silent), mem_depend]
        tauto
      · rw [if_neg fun all => silent (last.1 all)]
        tauto

theorem mem_foldl_depend {source : String} {terms : List String} {sources : Sources}
    {term s : String} :
    s ∈ sourcesOf (terms.foldl (fun sources term => depend sources term source) sources) term ↔
      s ∈ sourcesOf sources term ∨ term ≠ source ∧ s = source ∧ term ∈ terms := by
  induction terms generalizing sources with
  | nil => simp
  | cons first rest ih =>
    rw [List.foldl_cons, ih, mem_depend, List.mem_cons]
    tauto

/-- The sets and the sources after a rule, compared with those before it. -/
structure Adds (rules : List Rule) (rule : Rule) (before after : Sets × Sources) : Prop where
  names : after.1.names = before.1.names
  sets : ∀ term x, x ∈ held after.1 term ↔
    x ∈ held before.1 term ∨ term ∈ before.1.names ∧ Seeds rules rule.body term x
  sources : ∀ term s, s ∈ sourcesOf after.2 term ↔
    s ∈ sourcesOf before.2 term ∨ term ≠ rule.name ∧ s = rule.name ∧ Flows rules rule.body term

theorem addRule_adds (rules : List Rule) (rule : Rule) (state : Sets × Sources) :
    Adds rules rule state (addRule rules state rule) := by
  unfold addRule
  cases body : rule.body with
  | terminal m =>
    refine ⟨rfl, fun term x => ?_, fun term s => ?_⟩ <;> rw [body] <;> simp [Seeds, Flows]
  | attrTerminal =>
    refine ⟨rfl, fun term x => ?_, fun term s => ?_⟩ <;> rw [body] <;> simp [Seeds, Flows]
  | concatenation terms =>
    obtain ⟨names, sets, sources⟩ := addSequence_spec rules rule.name terms state
    refine ⟨names, fun term x => ?_, fun term s => ?_⟩
    · rw [body, sets, Seeds]
    · rw [body, sources, Flows]
  | attrProduction terms =>
    obtain ⟨names, sets, sources⟩ := addSequence_spec rules rule.name terms state
    refine ⟨names, fun term x => ?_, fun term s => ?_⟩
    · rw [body, sets, Seeds]
    · rw [body, sources, Flows]
  | alternation terms =>
    refine ⟨rfl, fun term x => ?_, fun term s => ?_⟩
    · rw [body, Seeds, and_false, or_false]
    · rw [body, Flows, mem_foldl_depend]
  | repetition only =>
    refine ⟨names_extend .., fun term x => ?_, fun term s => ?_⟩
    · rw [body, Seeds, mem_extend]
      constructor
      · rintro (inside | ⟨rfl, known, begins, visible⟩)
        · exact Or.inl inside
        · exact Or.inr ⟨known, visible, rfl, begins⟩
      · rintro (inside | ⟨known, visible, rfl, begins⟩)
        · exact Or.inl inside
        · exact Or.inr ⟨rfl, known, begins, visible⟩
    · rw [body, Flows, mem_depend]
      tauto
  | option only =>
    refine ⟨rfl, fun term x => ?_, fun term s => ?_⟩
    · rw [body, Seeds, and_false, or_false]
    · rw [body, Flows, mem_depend]
      tauto

/-- What all rules put in from FIRST sets, and which sets flow into which. -/
theorem foldl_addRule_spec (rules : List Rule) (added : List Rule) (state : Sets × Sources) :
    (added.foldl (addRule rules) state).1.names = state.1.names ∧
      (∀ term x, x ∈ held (added.foldl (addRule rules) state).1 term ↔ x ∈ held state.1 term ∨
        term ∈ state.1.names ∧ ∃ rule ∈ added, Seeds rules rule.body term x) ∧
      ∀ term s, s ∈ sourcesOf (added.foldl (addRule rules) state).2 term ↔
        s ∈ sourcesOf state.2 term ∨ term ≠ s ∧
          ∃ rule ∈ added, rule.name = s ∧ Flows rules rule.body term := by
  induction added generalizing state with
  | nil => exact ⟨rfl, by simp, by simp⟩
  | cons rule rest ih =>
    have here := addRule_adds rules rule state
    obtain ⟨names, sets, sources⟩ := ih (addRule rules state rule)
    rw [List.foldl_cons]
    refine ⟨names.trans here.names, fun term x => ?_, fun term s => ?_⟩
    · rw [sets, here.sets, here.names]
      simp only [List.mem_cons, exists_eq_or_imp]
      tauto
    · rw [sources, here.sources]
      simp only [List.mem_cons, exists_eq_or_imp]
      constructor
      · rintro ((inside | ⟨other, rfl, flows⟩) | ⟨other, later⟩)
        · exact Or.inl inside
        · exact Or.inr ⟨other, Or.inl ⟨rfl, flows⟩⟩
        · exact Or.inr ⟨other, Or.inr later⟩
      · rintro (inside | ⟨other, ⟨rfl, flows⟩ | later⟩)
        · exact Or.inl (Or.inl inside)
        · exact Or.inl (Or.inr ⟨other, rfl, flows⟩)
        · exact Or.inr ⟨other, later⟩

theorem mem_foldl_union {α : Type} {of : α → NameSet} {parts : List α} {all : NameSet}
    {x : String} : x ∈ parts.foldl (fun all part => all ∪ of part) all ↔
      x ∈ all ∨ ∃ part ∈ parts, x ∈ of part := by
  induction parts generalizing all with
  | nil => simp
  | cons first rest ih =>
    rw [List.foldl_cons, ih, NameSet.mem_union]
    simp [or_assoc]

@[simp] theorem names_absorb (sources : Sources) (sets : Sets) (name : String) :
    (absorb sources sets name).names = sets.names := Table.names_modify ..

theorem mem_absorb {sources : Sources} {sets : Sets} {name other x : String} :
    x ∈ held (absorb sources sets name) other ↔ x ∈ held sets other ∨
      other = name ∧ name ∈ sets.names ∧ ∃ s ∈ sourcesOf sources name, x ∈ held sets s := by
  rw [absorb, held_modify]
  by_cases here : other = name ∧ name ∈ sets.names
  · obtain ⟨rfl, known⟩ := here
    rw [if_pos ⟨rfl, known⟩, mem_foldl_union]
    simp [known, sourcesOf, held]
  · rw [if_neg here]
    tauto

/-- Absorbing sources one rule after the other. -/
def absorbAll (sources : Sources) (names : List String) (sets : Sets) : Sets :=
  names.foldl (absorb sources) sets

variable {sources : Sources}

theorem names_absorbAll (names : List String) (sets : Sets) :
    (absorbAll sources names sets).names = sets.names := by
  induction names generalizing sets with
  | nil => rfl
  | cons name rest ih => exact (ih _).trans (names_absorb ..)

theorem held_absorbAll_grows (names : List String) {sets : Sets} {name x : String}
    (inside : x ∈ held sets name) : x ∈ held (absorbAll sources names sets) name := by
  induction names generalizing sets with
  | nil => exact inside
  | cons first rest ih => exact ih (mem_absorb.2 (Or.inl inside))

/-- Only the sets of the given names change. -/
theorem held_absorbAll_of_not_mem {names : List String} {sets : Sets} {name : String}
    (apart : name ∉ names) : held (absorbAll sources names sets) name = held sets name := by
  induction names generalizing sets with
  | nil => rfl
  | cons first rest ih =>
    obtain ⟨different, later⟩ := not_or.1 (List.mem_cons.not.1 apart)
    refine (ih later).trans (NameSet.ext fun x => ?_)
    rw [mem_absorb]
    tauto

/-- What a family of sets holds already is not exceeded. -/
theorem held_absorbAll_within (family : String → Set String) {known : List String}
    (flows : ∀ {s term}, term ∈ known → s ∈ sourcesOf sources term → family s ⊆ family term)
    (names : List String) {sets : Sets} (same : sets.names = known)
    (within : ∀ name, ∀ x ∈ held sets name, x ∈ family name) :
    ∀ name, ∀ x ∈ held (absorbAll sources names sets) name, x ∈ family name := by
  induction names generalizing sets with
  | nil => exact within
  | cons first rest ih =>
    refine ih ((names_absorb ..).trans same) fun name x inside => ?_
    rcases mem_absorb.1 inside with before | ⟨rfl, member, s, source, begins⟩
    · exact within name x before
    · exact flows (same ▸ member) source (within s x begins)

/-- After a round each set holds what its sources held before. -/
theorem held_absorbAll_of_source {names : List String} {sets : Sets} {name s x : String}
    (listed : name ∈ names) (known : name ∈ sets.names) (source : s ∈ sourcesOf sources name)
    (inside : x ∈ held sets s) : x ∈ held (absorbAll sources names sets) name := by
  induction names generalizing sets with
  | nil => cases listed
  | cons first rest ih =>
    rcases List.mem_cons.1 listed with rfl | later
    · exact held_absorbAll_grows rest (mem_absorb.2 (Or.inr ⟨rfl, known, s, source, inside⟩))
    · exact ih later ((names_absorb ..).symm ▸ known) (mem_absorb.2 (Or.inl inside))

/-- Names in an order in which no source of a name comes with it or after it, nor among `left`. -/
def Staged (sources : Sources) (left : List String) : List String → Prop
  | [] => True
  | name :: rest =>
    (∀ s ∈ sourcesOf sources name, s ∉ name :: rest ∧ s ∉ left) ∧ Staged sources left rest

theorem Staged.append {left first second : List String}
    (front : ∀ name ∈ first, ∀ s ∈ sourcesOf sources name, s ∉ first ++ second ∧ s ∉ left)
    (back : Staged sources left second) : Staged sources left (first ++ second) := by
  induction first with
  | nil => exact back
  | cons name rest ih =>
    refine ⟨fun s source => front name List.mem_cons_self s source, ih fun other member s source => ?_⟩
    obtain ⟨apart, away⟩ := front other (List.mem_cons_of_mem _ member) s source
    exact ⟨fun inside => apart (List.mem_cons_of_mem _ inside), away⟩

/-- A name of the stages waits for none that is left over. -/
theorem Staged.apart {left names : List String} (staged : Staged sources left names)
    {name s : String} (listed : name ∈ names) (source : s ∈ sourcesOf sources name) : s ∉ left := by
  induction names with
  | nil => cases listed
  | cons first rest ih =>
    rcases List.mem_cons.1 listed with rfl | later
    · exact (staged.1 s source).2
    · exact ih staged.2 later

/-- A name in a stage waits for none in its own stage, in a later one, or left over. -/
theorem Rounds.staged {pending left : List String} {stages : List (List String)}
    (rounds : Rounds sources pending stages left) : Staged sources left stages.flatten := by
  induction rounds with
  | ended => trivial
  | stage ready later ih =>
    refine Staged.append (fun name listed s source => ?_) ih
    have apart := isReady_iff.1 (List.mem_filter.1 listed).2 s source
    rw [← (Rounds.stage ready later).perm.mem_iff, List.mem_append, not_or] at apart
    exact apart

/-- After the stages, each of their sets holds what its sources hold. -/
theorem held_absorbAll_staged {left names : List String} (staged : Staged sources left names)
    {sets : Sets} {name s x : String} (listed : name ∈ names) (known : name ∈ sets.names)
    (source : s ∈ sourcesOf sources name) (inside : x ∈ held (absorbAll sources names sets) s) :
    x ∈ held (absorbAll sources names sets) name := by
  induction names generalizing sets with
  | nil => cases listed
  | cons first rest ih =>
    obtain ⟨waits, later⟩ := staged
    rcases List.mem_cons.1 listed with rfl | member
    · rw [held_absorbAll_of_not_mem (waits s source).1] at inside
      exact held_absorbAll_of_source listed known source inside
    · exact ih later member ((names_absorb ..).symm ▸ known) inside

theorem held_of_mem_entries {sets : Sets} {entry : String × NameSet}
    (member : entry ∈ sets.entries) : held sets entry.1 = entry.2 := by
  obtain ⟨before, after, split⟩ := List.append_of_mem member
  have distinct := sets.distinct
  rw [split, List.map_append, List.map_cons, List.nodup_append] at distinct
  have found : sets.find? entry.1 = some entry.2 := by
    refine List.lookup_eq_some_iff.2 ⟨before, after, split, fun other inside => ?_⟩
    have apart := distinct.2.2 other.1 (List.mem_map_of_mem inside) entry.1 List.mem_cons_self
    exact bne_iff_ne.2 apart.symm
  rw [held, found]
  rfl

theorem weight_eq (sets : Sets) :
    weight sets = (sets.names.map fun name => (held sets name).size).sum := by
  have sizes : (sets.names.map fun name => (held sets name).size) =
      sets.entries.map fun entry => entry.2.size := by
    rw [Table.names, List.map_map]
    refine List.map_congr_left fun entry member => ?_
    rw [Function.comp_apply, held_of_mem_entries member]
  rw [sizes, List.sum_eq_foldl, List.foldl_map]
  rfl

theorem eq_of_sum_le {names : List String} {f g : String → Nat} (below : ∀ n ∈ names, f n ≤ g n)
    (sums : (names.map g).sum ≤ (names.map f).sum) : ∀ n ∈ names, f n = g n := by
  induction names with
  | nil => exact nofun
  | cons first rest ih =>
    have here := below first List.mem_cons_self
    have later : ∀ n ∈ rest, f n ≤ g n := fun n member => below n (List.mem_cons_of_mem _ member)
    have total := List.sum_le_sum later
    simp only [List.map_cons, List.sum_cons] at sums
    intro n member
    rcases List.mem_cons.1 member with rfl | member
    · omega
    · exact ih later (by omega) n member

/-- A round that leaves the number of names as it was has changed nothing. -/
theorem held_eq_of_weight {a b : Sets} (names : b.names = a.names)
    (grows : ∀ name, ∀ x ∈ held a name, x ∈ held b name) (same : weight b = weight a)
    (name : String) : held b name = held a name := by
  by_cases known : name ∈ a.names
  · have sizes := eq_of_sum_le (fun n (_ : n ∈ a.names) => NameSet.size_le (grows n))
      (by rw [← weight_eq, ← names, ← weight_eq, same]) name known
    exact (NameSet.eq_of_size_le (grows name) (Nat.le_of_eq sizes.symm)).symm
  · rw [held_of_not_mem known, held_of_not_mem (names ▸ known)]

theorem saturate_succ (names : List String) (fuel : Nat) (sets : Sets) :
    saturate sources names (fuel + 1) sets =
      if weight (absorbAll sources names sets) = weight sets then absorbAll sources names sets
      else saturate sources names fuel (absorbAll sources names sets) := rfl

/-- Rounds go on while they add something. They stop before `fuel` is used up, when each set holds
what its sources hold. -/
theorem saturate_spec (names : List String) {known : List String} (cap : String → NameSet)
    (flows : ∀ {s term}, term ∈ known → s ∈ sourcesOf sources term → ∀ x ∈ cap s, x ∈ cap term)
    (fuel : Nat) {sets : Sets} (same : sets.names = known)
    (within : ∀ name, ∀ x ∈ held sets name, x ∈ cap name)
    (enough : (known.map fun n => (cap n).size).sum < weight sets + fuel) :
    ∃ run, (∀ name ∈ run, name ∈ names) ∧
      saturate sources names fuel sets = absorbAll sources run sets ∧
      ∀ name ∈ names, name ∈ known → ∀ s ∈ sourcesOf sources name,
        ∀ x ∈ held (absorbAll sources run sets) s, x ∈ held (absorbAll sources run sets) name := by
  induction fuel generalizing sets with
  | zero =>
    have total := List.sum_le_sum fun n (_ : n ∈ known) => NameSet.size_le (within n)
    rw [weight_eq, same] at enough
    exact absurd enough (Nat.not_lt.2 total)
  | succ fuel ih =>
    have grows : ∀ name, ∀ x ∈ held sets name, x ∈ held (absorbAll sources names sets) name :=
      fun name x inside => held_absorbAll_grows names inside
    rw [saturate_succ]
    by_cases still : weight (absorbAll sources names sets) = weight sets
    · rw [if_pos still]
      refine ⟨names, fun name member => member, rfl, fun name listed member s source x inside => ?_⟩
      rw [held_eq_of_weight (names_absorbAll names sets) grows still] at inside
      exact held_absorbAll_of_source listed (same ▸ member) source inside
    · rw [if_neg still]
      have more : weight sets < weight (absorbAll sources names sets) := by
        refine Nat.lt_of_le_of_ne ?_ (Ne.symm still)
        rw [weight_eq, weight_eq, names_absorbAll]
        exact List.sum_le_sum fun n _ => NameSet.size_le (grows n)
      obtain ⟨run, listed, result, settled⟩ := ih ((names_absorbAll names sets).trans same)
        (held_absorbAll_within (fun name => {x | x ∈ cap name}) flows names same within)
        (by omega)
      refine ⟨names ++ run, fun name member => ?_, ?_, ?_⟩
      · exact (List.mem_append.1 member).elim id (listed name)
      · rw [result, absorbAll, absorbAll, absorbAll, List.foldl_append]
      · rw [absorbAll, List.foldl_append]
        exact settled

theorem mem_members {sets : Sets} {name x : String} (inside : x ∈ held sets name) :
    x ∈ members sets := by
  by_cases known : name ∈ sets.names
  · obtain ⟨entry, listed, rfl⟩ := List.mem_map.1 known
    rw [held_of_mem_entries listed] at inside
    exact mem_foldl_union.2 (Or.inr ⟨entry, listed, inside⟩)
  · rw [held_of_not_mem known] at inside
    exact absurd inside NameSet.not_mem_empty

/-- The sets before any rule is looked at. -/
def startSets (rules : List Rule) (top : String) : Sets :=
  (rules.foldl (fun t rule => t.insert rule.name ∅) (∅ : Sets)).modify top (·.insert endOfInput)

theorem emptySets_spec (rules : List Rule) (t : Sets) (empty : ∀ name, held t name = ∅) :
    (∀ name, name ∈ (rules.foldl (fun t rule => t.insert rule.name ∅) t).names ↔
        name ∈ t.names ∨ definesRule rules name = true) ∧
      ∀ name, held (rules.foldl (fun t rule => t.insert rule.name ∅) t) name = ∅ := by
  induction rules generalizing t with
  | nil => exact ⟨by simp [definesRule], empty⟩
  | cons rule rest ih =>
    have still : ∀ name, held (t.insert rule.name ∅) name = ∅ := by
      intro name
      rw [held, Table.find?_insert]
      split
      · rfl
      · exact empty name
    obtain ⟨names, all⟩ := ih _ still
    refine ⟨fun name => ?_, all⟩
    have listed : name ∈ (t.insert rule.name ∅).names ↔ name ∈ t.names ∨ rule.name = name := by
      rw [Table.names_insert]
      split
      · next known =>
        exact (or_iff_left_of_imp fun same => same ▸ known).symm
      · rw [List.mem_append, List.mem_singleton, @eq_comm _ name]
    rw [List.foldl_cons, names, listed]
    simp [definesRule, or_assoc]

theorem names_startSets {rules : List Rule} {top name : String} :
    name ∈ (startSets rules top).names ↔ definesRule rules name = true := by
  rw [startSets, Table.names_modify, (emptySets_spec rules ∅ fun _ => rfl).1]
  exact or_iff_right List.not_mem_nil

theorem mem_startSets {rules : List Rule} {top name x : String} :
    x ∈ held (startSets rules top) name ↔
      name = top ∧ definesRule rules top = true ∧ x = endOfInput := by
  obtain ⟨names, empty⟩ := emptySets_spec rules ∅ fun _ => rfl
  have known : top ∈ (rules.foldl (fun t rule => t.insert rule.name ∅) (∅ : Sets)).names ↔
      definesRule rules top = true := (names top).trans (or_iff_right List.not_mem_nil)
  rw [startSets, held_modify, empty, empty, ← known]
  split
  · next here =>
    rw [NameSet.mem_insert, or_iff_left NameSet.not_mem_empty]
    exact ⟨fun same => ⟨here.1, here.2, same⟩, fun found => found.2.2⟩
  · next elsewhere =>
    constructor
    · intro inside
      exact absurd inside NameSet.not_mem_empty
    · rintro ⟨same, here, _⟩
      exact absurd ⟨same, here⟩ elsewhere

/-- The sets with what they take from FIRST sets, and the sources of each. -/
def seeded (rules : List Rule) (top : String) : Sets × Sources :=
  rules.foldl (addRule rules) (startSets rules top, ∅)

theorem names_seeded {rules : List Rule} {top name : String} :
    name ∈ (seeded rules top).1.names ↔ definesRule rules name = true := by
  rw [seeded, (foldl_addRule_spec rules rules (startSets rules top, ∅)).1, names_startSets]

theorem mem_seeded {rules : List Rule} {top name x : String} :
    x ∈ held (seeded rules top).1 name ↔
      (name = top ∧ definesRule rules top = true ∧ x = endOfInput) ∨
        definesRule rules name = true ∧ ∃ rule ∈ rules, Seeds rules rule.body name x := by
  rw [seeded, (foldl_addRule_spec rules rules (startSets rules top, ∅)).2.1, mem_startSets,
    names_startSets]

theorem mem_sources {rules : List Rule} {top term s : String} :
    s ∈ sourcesOf (seeded rules top).2 term ↔
      term ≠ s ∧ ∃ rule ∈ rules, rule.name = s ∧ Flows rules rule.body term := by
  rw [seeded, (foldl_addRule_spec rules rules (startSets rules top, ∅)).2.2]
  exact or_iff_right List.not_mem_nil

/-- Room for `limit` in each of some sets. -/
theorem sum_ite_le {known : List String} (distinct : known.Nodup) (names : List String) (limit : Nat) :
    (known.map fun n => if n ∈ names then limit else 0).sum ≤ names.length * limit := by
  have counted : (known.map fun n => if n ∈ names then limit else 0).sum =
      (known.filter (· ∈ names)).length * limit := by
    clear distinct
    induction known with
    | nil => simp
    | cons first rest ih =>
      by_cases member : first ∈ names
      · simp [member, ih, Nat.add_mul, Nat.add_comm]
      · simp [member, ih]
  have few : (known.filter (· ∈ names)).length ≤ names.length :=
    (List.subperm_of_subset (distinct.filter _) fun n member => by
      simpa using (List.mem_filter.1 member).2).length_le
  rw [counted]
  exact Nat.mul_le_mul_right limit few

/-- A bound for each set while the sets left over are filled. -/
def capOf (staged : Sets) (cyclic : List String) (name : String) : NameSet :=
  if name ∈ cyclic then members staged else held staged name

theorem capOf_of_held {staged : Sets} {cyclic : List String} {name x : String}
    (inside : x ∈ held staged name) : x ∈ capOf staged cyclic name := by
  unfold capOf
  split
  · exact mem_members inside
  · exact inside

theorem mem_capOf {staged : Sets} {cyclic : List String} {name other x : String}
    (inside : x ∈ capOf staged cyclic other) : name ∈ cyclic → x ∈ capOf staged cyclic name := by
  intro member
  rw [capOf, if_pos member]
  unfold capOf at inside
  split at inside
  · exact inside
  · exact mem_members inside

/-- There is enough fuel to fill the sets left over. -/
theorem cap_lt {staged : Sets} {cyclic : List String} :
    (staged.names.map fun n => (capOf staged cyclic n).size).sum <
      weight staged + (cyclic.length * (members staged).size + 1) := by
  have each : ∀ n ∈ staged.names, (capOf staged cyclic n).size ≤
      (held staged n).size + if n ∈ cyclic then (members staged).size else 0 := by
    intro n _
    unfold capOf
    split
    · exact Nat.le_add_left ..
    · exact Nat.le_refl _
  have total := List.sum_le_sum each
  have extra := sum_ite_le staged.distinct cyclic (members staged).size
  rw [List.sum_map_add, ← weight_eq] at total
  exact Nat.lt_succ_of_le (Nat.le_trans total (Nat.add_le_add_left extra _))

/-- Each set is filled by absorbing its sources, until it holds what they hold. -/
theorem sets_settled (rules : List Rule) (top : String) :
    ∃ run, sets rules top = absorbAll (seeded rules top).2 run (seeded rules top).1 ∧
      ∀ name, definesRule rules name = true → ∀ s ∈ sourcesOf (seeded rules top).2 name,
        ∀ x ∈ held (sets rules top) s, x ∈ held (sets rules top) name := by
  have rounds := stages_rounds (seeded rules top).2
  have names := fun name => @names_seeded rules top name
  have whole : sets rules top = (fun (sources : Sources) (start : Sets) =>
      let parts := stages sources
      let staged := absorbAll sources parts.1.flatten start
      saturate sources parts.2 (parts.2.length * (members staged).size + 1) staged)
        (seeded rules top).2 (seeded rules top).1 := rfl
  rw [whole]
  generalize seeded rules top = state at rounds names
  obtain ⟨start, sources⟩ := state
  dsimp only at rounds names ⊢
  generalize Follow.stages sources = parts at rounds
  obtain ⟨stages, cyclic⟩ := parts
  dsimp only at rounds ⊢
  generalize filled : absorbAll sources stages.flatten start = staged
  have known : staged.names = start.names := filled ▸ names_absorbAll stages.flatten start
  -- What is finished after the stages stays as it is, and is bounded by itself.
  have finished : ∀ {name s}, name ∈ stages.flatten → name ∈ start.names →
      s ∈ sourcesOf sources name → s ∉ cyclic ∧ ∀ x ∈ held staged s, x ∈ held staged name := by
    intro name s member listed source
    refine ⟨rounds.staged.apart member source, fun x inside => ?_⟩
    rw [← filled] at inside ⊢
    exact held_absorbAll_staged rounds.staged member listed source inside
  have placed : ∀ {name s}, s ∈ sourcesOf sources name → name ∈ stages.flatten ∨ name ∈ cyclic :=
    fun source => List.mem_append.1 (rounds.perm.mem_iff.2 (mem_names_of_source source))
  have capFlows : ∀ {s term}, term ∈ staged.names → s ∈ sourcesOf sources term →
      ∀ x ∈ capOf staged cyclic s, x ∈ capOf staged cyclic term := by
    intro s term member source x inside
    by_cases left : term ∈ cyclic
    · exact mem_capOf inside left
    · obtain ⟨apart, flows⟩ :=
        finished ((placed source).resolve_right left) (known ▸ member) source
      rw [capOf, if_neg apart] at inside
      rw [capOf, if_neg left]
      exact flows x inside
  obtain ⟨run, within, result, settled⟩ := saturate_spec cyclic (capOf staged cyclic) capFlows
    (cyclic.length * (members staged).size + 1) rfl (fun _ _ => capOf_of_held) cap_lt
  rw [result]
  refine ⟨stages.flatten ++ run, ?_, fun name defined s source x inside => ?_⟩
  · rw [← filled, absorbAll, absorbAll, absorbAll, List.foldl_append]
  · have listed : name ∈ start.names := (names name).2 defined
    by_cases left : name ∈ cyclic
    · exact settled name left (known ▸ listed) s source x inside
    · obtain ⟨apart, flows⟩ := finished ((placed source).resolve_right left) listed source
      rw [held_absorbAll_of_not_mem fun member => apart (within s member)] at inside
      exact held_absorbAll_grows run (flows x inside)

/-- The sets hold what the conditions ask for, and nothing else: they are the least family of sets
that meets the conditions. There is one for each name that is defined. -/
theorem sets_least (rules : List Rule) (top : String) :
    (∀ name, name ∈ (sets rules top).names ↔ definesRule rules name = true) ∧
      IsLeast {family | Closed rules top family} fun name => {x | x ∈ held (sets rules top) name} := by
  obtain ⟨run, result, settled⟩ := sets_settled rules top
  have grows : ∀ name, ∀ x ∈ held (seeded rules top).1 name, x ∈ held (sets rules top) name := by
    intro name x inside
    rw [result]
    exact held_absorbAll_grows run inside
  refine ⟨fun name => ?_, ⟨?_, ?_, ?_⟩, fun family closed => ?_⟩
  · rw [result, names_absorbAll, names_seeded]
  · intro known
    exact grows top endOfInput (mem_seeded.2 (Or.inl ⟨rfl, known, rfl⟩))
  · intro rule listed term x known seeds
    exact grows term x (mem_seeded.2 (Or.inr ⟨known, rule, listed, seeds⟩))
  · intro rule listed term known flows x inside
    by_cases self : term = rule.name
    · exact self ▸ inside
    · have source : rule.name ∈ sourcesOf (seeded rules top).2 term :=
        mem_sources.2 ⟨self, rule, listed, rfl, flows⟩
      exact settled term known rule.name source x inside
  · intro name x inside
    have inside : x ∈ held (sets rules top) name := inside
    rw [result] at inside
    refine held_absorbAll_within family (fun {s term} known source => ?_) run rfl
      (fun term y begins => ?_) name x inside
    · obtain ⟨_, rule, listed, rfl, flows⟩ := mem_sources.1 source
      exact closed.flows rule listed (names_seeded.1 known) flows
    · rcases mem_seeded.1 begins with ⟨rfl, known, rfl⟩ | ⟨known, rule, listed, seeds⟩
      · exact closed.top known
      · exact closed.seeds rule listed known seeds

end Follow

end AttrGrammar
