import AttrGrammar.Grammar.First
import AttrGrammar.Proofs.Parsing.Derivation
import Mathlib.Data.List.Perm.Basic
import Mathlib.Data.Set.Card
import Mathlib.Data.Set.Lattice
import Mathlib.Logic.Relation
import Mathlib.Order.CompletePartialOrder
import Mathlib.Order.FixedPoints

/-!
FIRST sets are the least solution of their equations.

The equation of a name says what begins the name, given what begins each term. Where no name leads
back to itself before anything is read, computing the sets one inside the other solves the equations;
elsewhere it gives too little at most. The main statement is for one request, with sets stored before
by other requests.
-/

namespace AttrGrammar

/-- What begins terms in sequence, given what begins each term. -/
def sequenceStarts (family : String → Set String) : List String → Set String
  | [] => {nullable}
  | term :: rest =>
    {x | x ∈ family term ∧ x ≠ nullable} ∪
      {x | nullable ∈ family term ∧ x ∈ sequenceStarts family rest}

/-- What begins a rule called `name`, given what begins each term. -/
def RuleBody.starts (name : String) (family : String → Set String) : RuleBody → Set String
  | .terminal _ | .attrTerminal => {name}
  | .concatenation terms | .attrProduction terms => sequenceStarts family terms
  | .alternation terms => {x | ∃ term ∈ terms, x ∈ family term}
  | .repetition term | .option term => {x | x = nullable ∨ x ∈ family term}

/-- The right-hand side of the FIRST equations. Nothing begins a name without a definition. -/
def starts (rules : List Rule) (family : String → Set String) (name : String) : Set String :=
  match findRule? rules name with
  | some rule => rule.body.starts name family
  | none => ∅

theorem sequenceStarts_mono {f g : String → Set String} {terms : List String}
    (below : ∀ term ∈ terms, f term ⊆ g term) : sequenceStarts f terms ⊆ sequenceStarts g terms := by
  induction terms with
  | nil => exact subset_rfl
  | cons term rest ih =>
    have here := below term List.mem_cons_self
    rintro x (⟨begins, visible⟩ | ⟨silent, later⟩)
    · exact Or.inl ⟨here begins, visible⟩
    · exact Or.inr ⟨here silent, ih (fun t member => below t (List.mem_cons_of_mem _ member)) later⟩

theorem RuleBody.starts_mono {f g : String → Set String} {body : RuleBody}
    (below : ∀ term ∈ body.terms, f term ⊆ g term) (name : String) :
    body.starts name f ⊆ body.starts name g := by
  cases body with
  | terminal | attrTerminal => exact subset_rfl
  | concatenation terms | attrProduction terms => exact sequenceStarts_mono below
  | alternation terms =>
    rintro x ⟨term, member, begins⟩
    exact ⟨term, member, below term member begins⟩
  | repetition term | option term =>
    rintro x (same | begins)
    · exact Or.inl same
    · exact Or.inr (below term List.mem_cons_self begins)

theorem starts_mono (rules : List Rule) : Monotone (starts rules) := by
  intro f g below name
  unfold starts
  cases findRule? rules name with
  | none => exact subset_rfl
  | some rule => exact RuleBody.starts_mono (fun term _ => below term) name

/-- The least solution of the FIRST equations. -/
def leastFirst (rules : List Rule) : String → Set String :=
  OrderHom.lfp ⟨starts rules, starts_mono rules⟩

theorem leastFirst_eq (rules : List Rule) (name : String) :
    leastFirst rules name = starts rules (leastFirst rules) name :=
  (congrFun (OrderHom.map_lfp ⟨starts rules, starts_mono rules⟩) name).symm

theorem leastFirst_le {rules : List Rule} {family : String → Set String}
    (solves : ∀ name, starts rules family name ⊆ family name) (name : String) :
    leastFirst rules name ⊆ family name :=
  OrderHom.lfp_le ⟨starts rules, starts_mono rules⟩ solves name

theorem leastFirst_of_find? {rules : List Rule} {name : String} {rule : Rule}
    (found : findRule? rules name = some rule) :
    leastFirst rules name = rule.body.starts name (leastFirst rules) := by
  rw [leastFirst_eq, starts, found]

theorem leastFirst_undefined {rules : List Rule} {name : String}
    (missing : findRule? rules name = none) : leastFirst rules name = ∅ := by
  rw [leastFirst_eq, starts, missing]

theorem starts_terminal {rule : Rule} (terminal : rule.isTerminal = true) (name : String)
    (family : String → Set String) : rule.body.starts name family = {name} := by
  rw [Rule.isTerminal, Rule.kind] at terminal
  cases body : rule.body with
  | terminal | attrTerminal => rfl
  | concatenation | attrProduction | alternation | repetition | option =>
    rw [body] at terminal
    cases terminal

theorem findRule?_map {f : Rule → Rule} (named : ∀ rule, (f rule).name = rule.name)
    (rules : List Rule) (name : String) :
    findRule? (rules.map f) name = (findRule? rules name).map f := by
  rw [findRule?, List.find?_map]
  simp only [Function.comp_def, named]
  rfl

/-- The definitions of some names that refer to each other only are the same in two lists of
rules. -/
structure SharedPart (rules others : List Rule) (inside : String → Prop) : Prop where
  same : ∀ name, inside name →
    (findRule? others name).map Rule.body = (findRule? rules name).map Rule.body
  closed : ∀ name rule, inside name → findRule? rules name = some rule →
    ∀ term ∈ rule.terms, inside term

theorem SharedPart.symm {rules others : List Rule} {inside : String → Prop}
    (shared : SharedPart rules others inside) : SharedPart others rules inside where
  same name here := (shared.same name here).symm
  closed name rule here found := by
    have same := shared.same name here
    rw [found, Option.map_some, eq_comm, Option.map_eq_some_iff] at same
    obtain ⟨other, known, body⟩ := same
    have terms : rule.terms = other.terms := congrArg RuleBody.terms body.symm
    exact terms ▸ shared.closed name other here known

theorem SharedPart.leastFirst_subset {rules others : List Rule} {inside : String → Prop}
    (shared : SharedPart rules others inside) {name : String} (here : inside name) :
    leastFirst others name ⊆ leastFirst rules name := by
  let family : String → Set String := fun name => {x | inside name → x ∈ leastFirst rules name}
  have solves : ∀ name, starts others family name ⊆ family name := by
    intro name x begins here
    have same := shared.same name here
    unfold starts at begins
    cases known : findRule? others name with
    | none =>
      rw [known] at begins
      exact begins.elim
    | some other =>
      rw [known, Option.map_some, eq_comm, Option.map_eq_some_iff] at same
      obtain ⟨rule, found, body⟩ := same
      rw [known] at begins
      rw [leastFirst_of_find? found, body]
      have terms : rule.terms = other.body.terms := congrArg RuleBody.terms body
      have below : ∀ term ∈ other.body.terms, family term ⊆ leastFirst rules term :=
        fun term member y given => given (shared.closed name rule here found term (terms ▸ member))
      exact RuleBody.starts_mono below name begins
  exact fun x begins => leastFirst_le solves name begins here

/-- Such a part has a solution of its own. -/
theorem SharedPart.leastFirst_eq {rules others : List Rule} {inside : String → Prop}
    (shared : SharedPart rules others inside) {name : String} (here : inside name) :
    leastFirst others name = leastFirst rules name :=
  Set.Subset.antisymm (shared.leastFirst_subset here) (shared.symm.leastFirst_subset here)

/-- The definitions stay the same where names and right-hand sides do. -/
theorem SharedPart.map {f : Rule → Rule} (named : ∀ rule, (f rule).name = rule.name)
    (body : ∀ rule, (f rule).body = rule.body) (rules : List Rule) :
    SharedPart rules (rules.map f) fun _ => True where
  same name _ := by
    rw [findRule?_map named, Option.map_map]
    simp only [Function.comp_def, body]
  closed _ _ _ _ _ _ := trivial

/-- A rule called `a` can begin with the term `b`: the terms before it can read nothing. -/
def Leads (rules : List Rule) (a b : String) : Prop :=
  ∃ rule before after, findRule? rules a = some rule ∧
    rule.body.Allows (before ++ b :: after) ∧ ∀ term ∈ before, nullable ∈ leastFirst rules term

theorem Leads.refers {rules : List Rule} {a b : String} (leads : Leads rules a b) :
    ∃ rule ∈ rules, rule.name = a ∧ b ∈ rule.terms := by
  obtain ⟨rule, before, after, found, allowed, _⟩ := leads
  exact ⟨rule, List.mem_of_find?_eq_some found, findRule?_name found,
    allowed.mem_terms b (List.mem_append_right _ List.mem_cons_self)⟩

/-- A name that leads back to itself. -/
def LeftRecursive (rules : List Rule) (name : String) : Prop :=
  Relation.TransGen (Leads rules) name name

/-- A name from which no way of leading on goes on forever. -/
def Grounded (rules : List Rule) (name : String) : Prop := Acc (fun b a => Leads rules a b) name

theorem Grounded.of_leads {rules : List Rule} {a b : String} (grounded : Grounded rules a)
    (leads : Leads rules a b) : Grounded rules b := grounded.inv leads

theorem Grounded.not_leftRecursive {rules : List Rule} {name : String}
    (grounded : Grounded rules name) : ¬ LeftRecursive rules name := by
  induction grounded with
  | intro name _ ih =>
    intro circle
    obtain ⟨b, leads, back⟩ := Relation.TransGen.head'_iff.1 circle
    exact ih b leads (Relation.TransGen.tail' back leads)

theorem SharedPart.leads {rules others : List Rule} {inside : String → Prop}
    (shared : SharedPart rules others inside) {a b : String} (here : inside a)
    (leads : Leads others a b) : Leads rules a b ∧ inside b := by
  obtain ⟨other, before, after, known, allowed, silent⟩ := leads
  have terms := shared.symm.closed a other here known
  have same := shared.same a here
  rw [known, Option.map_some, eq_comm, Option.map_eq_some_iff] at same
  obtain ⟨rule, found, body⟩ := same
  have listed := allowed.mem_terms
  refine ⟨⟨rule, before, after, found, body ▸ allowed, fun term member => ?_⟩, ?_⟩
  · have inside := terms term (listed term (List.mem_append_left _ member))
    rw [← shared.leastFirst_eq inside]
    exact silent term member
  · exact terms b (listed b (List.mem_append_right _ List.mem_cons_self))

theorem SharedPart.grounded {rules others : List Rule} {inside : String → Prop}
    (shared : SharedPart rules others inside) {name : String} (here : inside name)
    (grounded : Grounded rules name) : Grounded others name := by
  induction grounded with
  | intro name _ ih =>
    refine Acc.intro name fun b leads => ?_
    obtain ⟨leads, inside⟩ := shared.leads here leads
    exact ih b leads inside

/-- The defined names that a name leads to. -/
def reach (rules : List Rule) (name : String) : Set String :=
  {n | n ∈ rules.map Rule.name ∧ Relation.TransGen (Leads rules) name n}

/-- How many names a name leads to. It falls along the way where no name leads back to itself. -/
noncomputable def rank (rules : List Rule) (name : String) : Nat := (reach rules name).ncard

theorem finite_names (rules : List Rule) : {n | n ∈ rules.map Rule.name}.Finite :=
  List.finite_toSet _

theorem mem_names_of_find? {rules : List Rule} {name : String} {rule : Rule}
    (found : findRule? rules name = some rule) : name ∈ rules.map Rule.name :=
  List.mem_map.2 ⟨rule, List.mem_of_find?_eq_some found, findRule?_name found⟩

theorem rank_lt_length {rules : List Rule} {name : String} (defined : name ∈ rules.map Rule.name)
    (straight : ¬ LeftRecursive rules name) : rank rules name < rules.length := by
  have fewer : reach rules name ⊂ {n | n ∈ rules.map Rule.name} :=
    ⟨fun n reached => reached.1, fun all => straight (all defined).2⟩
  have below := Set.ncard_lt_ncard fewer (finite_names rules)
  have bound := List.toFinset_card_le (rules.map Rule.name)
  rw [← Set.ncard_coe_finset, List.coe_toFinset, List.length_map] at bound
  exact Nat.lt_of_lt_of_le below bound

theorem rank_lt_rank {rules : List Rule} {a b : String} (leads : Leads rules a b)
    (defined : b ∈ rules.map Rule.name) (straight : ¬ LeftRecursive rules b) :
    rank rules b < rank rules a := by
  have fewer : reach rules b ⊂ reach rules a :=
    ⟨fun n reached => ⟨reached.1, .head leads reached.2⟩,
      fun all => straight (all ⟨defined, .single leads⟩).2⟩
  exact Set.ncard_lt_ncard fewer ((finite_names rules).subset fun n reached => reached.1)

theorem grounded_of_reach {rules : List Rule} {name : String}
    (straight : ∀ n, Relation.ReflTransGen (Leads rules) name n → ¬ LeftRecursive rules n) :
    Grounded rules name := by
  induction h : rank rules name using Nat.strong_induction_on generalizing name with
  | h n ih =>
    refine Acc.intro name fun b leads => ?_
    by_cases defined : b ∈ rules.map Rule.name
    · have falls := h ▸ rank_lt_rank leads defined (straight b (.single leads))
      exact ih _ falls (fun n path => straight n (.head leads path)) rfl
    · refine Acc.intro b fun c further => ?_
      obtain ⟨rule, _, _, found, _⟩ := further
      exact absurd (mem_names_of_find? found) defined

theorem grounded_of_straight {rules : List Rule}
    (straight : ∀ name, ¬ LeftRecursive rules name) (name : String) : Grounded rules name :=
  grounded_of_reach fun n _ => straight n

/-- No name leads back to itself where what begins a name is below it. -/
theorem straight_of_leads {rules : List Rule} (height : String → Nat)
    (falls : ∀ {a b}, Leads rules a b → height b < height a) (name : String) :
    ¬ LeftRecursive rules name := by
  have down : ∀ {a b}, Relation.TransGen (Leads rules) a b → height b < height a := by
    intro a b path
    induction path with
    | single leads => exact falls leads
    | tail _ leads ih => exact Nat.lt_trans (falls leads) ih
  exact fun circle => Nat.lt_irrefl _ (down circle)

/-- No name leads back to itself where all references go down. -/
theorem straight_of_falling {rules : List Rule} (height : String → Nat)
    (falls : ∀ rule ∈ rules, ∀ term ∈ rule.terms, height term < height rule.name) (name : String) :
    ¬ LeftRecursive rules name := by
  refine straight_of_leads height (fun {a b} leads => ?_) name
  obtain ⟨rule, listed, rfl, refers⟩ := leads.refers
  exact falls rule listed b refers

/-- A rule without its FIRST set. -/
def Rule.bare (rule : Rule) : Rule := { rule with first := ∅, firstKnown := false }

/-- A FIRST set holds nothing wrong, and is complete where no name leads back to itself. -/
structure Rule.Exact (base : List Rule) (rule : Rule) : Prop where
  sound : ∀ x ∈ rule.first, x ∈ leastFirst base rule.name
  complete : Grounded base rule.name → ∀ x ∈ leastFirst base rule.name, x ∈ rule.first

/-- Only the name and the set of a rule matter. -/
theorem Rule.Exact.congr {base : List Rule} {rule other : Rule} (name : other.name = rule.name)
    (first : other.first = rule.first) (exact : rule.Exact base) : other.Exact base where
  sound := by
    rw [name, first]
    exact exact.sound
  complete := by
    rw [name, first]
    exact exact.complete

theorem SharedPart.exact {rules others : List Rule} {inside : String → Prop}
    (shared : SharedPart rules others inside) {rule : Rule} (here : inside rule.name)
    (exact : rule.Exact rules) : rule.Exact others where
  sound x member := shared.leastFirst_eq here ▸ exact.sound x member
  complete grounded x member :=
    exact.complete (shared.symm.grounded here grounded) x (shared.leastFirst_eq here ▸ member)

/-- A terminal begins with itself, and leads to no other name. -/
theorem Rule.exact_terminal_iff {rules : List Rule} {rule known : Rule}
    (found : findRule? rules rule.name = some known) (terminal : known.isTerminal = true) :
    rule.Exact rules ↔ ∀ x, x ∈ rule.first ↔ x = rule.name := by
  have least : leastFirst rules rule.name = {rule.name} := by
    rw [leastFirst_of_find? found, starts_terminal terminal]
  have grounded : Grounded rules rule.name := by
    refine Acc.intro _ fun b leads => ?_
    obtain ⟨other, before, after, there, allowed, _⟩ := leads
    rw [found] at there
    cases there
    rw [Rule.isTerminal, Rule.kind] at terminal
    cases shape : known.body with
    | terminal | attrTerminal =>
      rw [shape] at allowed
      exact allowed.elim
    | concatenation | attrProduction | alternation | repetition | option =>
      rw [shape] at terminal
      cases terminal
  constructor
  · intro exact x
    refine ⟨fun member => ?_, fun same => exact.complete grounded x ?_⟩
    · have begins := exact.sound x member
      rw [least] at begins
      exact begins
    · rw [least]
      exact same
  · intro only
    refine ⟨fun x member => ?_, fun _ x member => ?_⟩
    · rw [least]
      exact (only x).1 member
    · rw [least] at member
      exact (only x).2 member

/-- No FIRST set is stored. -/
structure Rule.Blank (rule : Rule) : Prop where
  unknown : rule.firstKnown = false
  empty : rule.first = ∅

/-- Rules with FIRST sets of which those that may be used are exact. -/
structure Coherent (base rules : List Rule) : Prop where
  same : rules.map Rule.bare = base.map Rule.bare
  blank : ∀ rule ∈ rules, rule.unresolved = true → rule.Blank
  exact : ∀ rule ∈ rules, rule.hasFirst = true → rule.Exact base

theorem Coherent.find? {base rules : List Rule} (coherent : Coherent base rules) (name : String) :
    (findRule? rules name).map Rule.bare = (findRule? base name).map Rule.bare := by
  rw [← findRule?_map (f := Rule.bare) (fun _ => rfl), coherent.same,
    findRule?_map (f := Rule.bare) (fun _ => rfl)]

theorem Coherent.exists_rule {base rules : List Rule} (coherent : Coherent base rules)
    {name : String} {rule : Rule} (found : findRule? rules name = some rule) :
    ∃ known, findRule? base name = some known ∧ known.bare = rule.bare := by
  have same := coherent.find? name
  rw [found, Option.map_some, eq_comm, Option.map_eq_some_iff] at same
  exact same

theorem Coherent.sharedPart {base rules : List Rule} (coherent : Coherent base rules) :
    SharedPart base rules fun _ => True where
  same name _ := by
    have same := congrArg (Option.map Rule.body) (coherent.find? name)
    rwa [Option.map_map, Option.map_map] at same
  closed _ _ _ _ _ _ := trivial

theorem Coherent.self {base rules : List Rule} (coherent : Coherent base rules) :
    Coherent rules rules where
  same := rfl
  blank := coherent.blank
  exact rule listed ready := coherent.sharedPart.exact trivial (coherent.exact rule listed ready)

theorem Coherent.names {base rules : List Rule} (coherent : Coherent base rules) :
    rules.map Rule.name = base.map Rule.name := by
  have same := congrArg (List.map Rule.name) coherent.same
  rwa [List.map_map, List.map_map] at same

theorem findRule?_of_mem {rules : List Rule} (distinct : (rules.map Rule.name).Nodup) {rule : Rule}
    (member : rule ∈ rules) : findRule? rules rule.name = some rule := by
  induction rules with
  | nil => cases member
  | cons first rest ih =>
    obtain ⟨fresh, distinct⟩ := List.nodup_cons.1 distinct
    rcases List.mem_cons.1 member with rfl | later
    · exact List.find?_cons_of_pos (beq_self_eq_true _)
    · have other : first.name ≠ rule.name :=
        fun same => fresh (same ▸ List.mem_map_of_mem later)
      rw [findRule?, List.find?_cons_of_neg (by simpa using other)]
      exact ih distinct later

/-- Whether a name has a FIRST set that may be used. -/
def Stored (rules : List Rule) (name : String) : Prop :=
  ∃ rule, findRule? rules name = some rule ∧ rule.hasFirst = true

theorem Rule.hasFirst_iff {rule : Rule} :
    rule.hasFirst = true ↔ rule.firstKnown = true ∧ rule.unresolved = false := by
  rw [Rule.hasFirst, Bool.and_eq_true, Bool.not_eq_true']

/-- What is found may be stored. -/
theorem Coherent.storeFirst {base rules : List Rule} (coherent : Coherent base rules)
    (distinct : (base.map Rule.name).Nodup) {name : String} {rule : Rule} {first : NameSet}
    (found : findRule? base name = some rule) (resolved : rule.unresolved = false)
    (sound : ∀ x ∈ first, x ∈ leastFirst base name)
    (complete : Grounded base name → ∀ x ∈ leastFirst base name, x ∈ first) :
    Coherent base (storeFirst rules name first) := by
  have settled : ∀ r ∈ rules, r.name = name → r.unresolved = false := by
    rintro r member rfl
    have here := findRule?_of_mem (coherent.names ▸ distinct) member
    obtain ⟨known, listed, same⟩ := coherent.exists_rule here
    rw [found] at listed
    cases listed
    exact (congrArg Rule.unresolved same).symm.trans resolved
  constructor
  · rw [← coherent.same, AttrGrammar.storeFirst, List.map_map]
    refine List.map_congr_left fun r _ => ?_
    simp only [Function.comp_apply]
    split <;> rfl
  all_goals
    simp only [AttrGrammar.storeFirst, List.forall_mem_map]
    intro r member
    by_cases same : r.name = name
    · simp only [same, if_true]
      first
      | exact fun gap => absurd ((settled r member same).symm.trans gap) Bool.noConfusion
      | exact fun _ => ⟨same ▸ sound, same ▸ complete⟩
    · simp only [same, if_false]
      first
      | exact coherent.blank r member
      | exact coherent.exact r member

theorem findRule?_storeFirst {rules : List Rule} {name other : String} {first : NameSet} :
    findRule? (storeFirst rules name first) other = (findRule? rules other).map fun r =>
      if r.name = name then { r with first, firstKnown := true } else r :=
  findRule?_map (fun r => by split <;> rfl) rules other

theorem stored_storeFirst_self {rules : List Rule} {name : String} {rule : Rule} {first : NameSet}
    (found : findRule? rules name = some rule) (resolved : rule.unresolved = false) :
    Stored (storeFirst rules name first) name := by
  refine ⟨{ rule with first, firstKnown := true }, ?_, Rule.hasFirst_iff.2 ⟨rfl, resolved⟩⟩
  rw [findRule?_storeFirst, found, Option.map_some, if_pos (findRule?_name found)]

theorem Stored.storeFirst {rules : List Rule} {name other : String} {first : NameSet}
    (stored : Stored rules other) : Stored (storeFirst rules name first) other := by
  obtain ⟨rule, found, known⟩ := stored
  by_cases same : rule.name = name
  · have here := (findRule?_name found).symm.trans same
    subst here
    exact stored_storeFirst_self found (Rule.hasFirst_iff.1 known).2
  · exact ⟨rule, by rw [findRule?_storeFirst, found, Option.map_some, if_neg same], known⟩

/-- A result of the computation: nothing wrong, everything where no name leads back to itself, and
no stored set lost. -/
structure Finds (base rules : List Rule) (set : Set String) (grounded : Prop)
    (result : NameSet × List Rule) : Prop where
  coherent : Coherent base result.2
  keeps : ∀ name, Stored rules name → Stored result.2 name
  sound : ∀ x ∈ result.1, x ∈ set
  complete : grounded → ∀ x ∈ set, x ∈ result.1

section

variable {base : List Rule} {of : List Rule → String → NameSet × List Rule} {allowed : String → Prop}

theorem sequenceFirst_finds
    (finds : ∀ rules term, Coherent base rules → allowed term →
      Finds base rules (leastFirst base term) (Grounded base term) (of rules term))
    {rules : List Rule} (coherent : Coherent base rules) {terms : List String}
    (leading : ∀ before term after, terms = before ++ term :: after →
      (∀ t ∈ before, nullable ∈ leastFirst base t) → allowed term) :
    Finds base rules (sequenceStarts (leastFirst base) terms)
      (∀ term, allowed term → Grounded base term) (sequenceFirst of rules terms) := by
  induction terms generalizing rules with
  | nil =>
    refine ⟨coherent, fun _ stored => stored, fun x member => ?_, fun _ x member => ?_⟩
    · exact NameSet.mem_singleton.1 member
    · exact NameSet.mem_singleton.2 member
  | cons term rest ih =>
    have here : allowed term := leading [] term rest rfl (by simp)
    have front := finds rules term coherent here
    simp only [sequenceFirst]
    by_cases silent : (of rules term).1.contains nullable = true
    · rw [if_pos silent]
      have silent := NameSet.contains_iff.1 silent
      have back := ih front.coherent fun before t after split nothing => by
        refine leading (term :: before) t after (congrArg (term :: ·) split) ?_
        exact List.forall_mem_cons.2 ⟨front.sound _ silent, nothing⟩
      refine ⟨back.coherent, fun name stored => back.keeps name (front.keeps name stored),
        fun x member => ?_, fun grounded x member => ?_⟩
      · rcases NameSet.mem_union.1 member with first | more
        · obtain ⟨begins, visible⟩ := NameSet.mem_erase.1 first
          exact Or.inl ⟨front.sound x begins, visible⟩
        · exact Or.inr ⟨front.sound _ silent, back.sound x more⟩
      · rcases member with ⟨begins, visible⟩ | ⟨_, later⟩
        · have first := front.complete (grounded term here) x begins
          exact NameSet.mem_union.2 (Or.inl (NameSet.mem_erase.2 ⟨first, visible⟩))
        · exact NameSet.mem_union.2 (Or.inr (back.complete grounded x later))
    · rw [if_neg silent]
      rw [NameSet.contains_iff] at silent
      refine ⟨front.coherent, front.keeps, fun x member => ?_, fun grounded x member => ?_⟩
      · exact Or.inl ⟨front.sound x member, fun same => silent (same ▸ member)⟩
      · rcases member with ⟨begins, _⟩ | ⟨nothing, _⟩
        · exact front.complete (grounded term here) x begins
        · exact absurd (front.complete (grounded term here) _ nothing) silent

theorem choiceFirst_finds
    (finds : ∀ rules term, Coherent base rules → allowed term →
      Finds base rules (leastFirst base term) (Grounded base term) (of rules term))
    {rules : List Rule} (coherent : Coherent base rules) {terms : List String}
    (leading : ∀ term ∈ terms, allowed term) :
    Finds base rules {x | ∃ term ∈ terms, x ∈ leastFirst base term}
      (∀ term, allowed term → Grounded base term) (choiceFirst of rules terms) := by
  induction terms generalizing rules with
  | nil =>
    refine ⟨coherent, fun _ stored => stored, fun x member => ?_, fun _ x member => ?_⟩
    · exact absurd member NameSet.not_mem_empty
    · obtain ⟨_, absent, _⟩ := member
      cases absent
  | cons term rest ih =>
    obtain ⟨here, later⟩ := List.forall_mem_cons.1 leading
    have front := finds rules term coherent here
    have back := ih front.coherent later
    rw [choiceFirst]
    refine ⟨back.coherent, fun name stored => back.keeps name (front.keeps name stored),
      fun x member => ?_, fun grounded x member => ?_⟩
    · rcases NameSet.mem_union.1 member with first | more
      · exact ⟨term, List.mem_cons_self, front.sound x first⟩
      · obtain ⟨t, listed, begins⟩ := back.sound x more
        exact ⟨t, List.mem_cons_of_mem _ listed, begins⟩
    · obtain ⟨t, listed, begins⟩ := member
      rcases List.mem_cons.1 listed with rfl | listed
      · exact NameSet.mem_union.2 (Or.inl (front.complete (grounded t here) x begins))
      · exact NameSet.mem_union.2 (Or.inr (back.complete grounded x ⟨t, listed, begins⟩))

/-- What a rule called `name` begins with, where all terms that it can begin with are `allowed`. -/
theorem bodyFirst_finds
    (finds : ∀ rules term, Coherent base rules → allowed term →
      Finds base rules (leastFirst base term) (Grounded base term) (of rules term))
    {rules : List Rule} (coherent : Coherent base rules) (name : String) {body : RuleBody}
    (leading : ∀ before term after, body.Allows (before ++ term :: after) →
      (∀ t ∈ before, nullable ∈ leastFirst base t) → allowed term) :
    Finds base rules (body.starts name (leastFirst base))
      (∀ term, allowed term → Grounded base term) (bodyFirst of rules name body) := by
  cases body with
  | terminal | attrTerminal =>
    refine ⟨coherent, fun _ stored => stored, fun x member => ?_, fun _ x member => ?_⟩
    · exact NameSet.mem_singleton.1 member
    · exact NameSet.mem_singleton.2 member
  | concatenation terms | attrProduction terms =>
    exact sequenceFirst_finds finds coherent fun before term after split =>
      leading before term after split.symm
  | alternation terms =>
    exact choiceFirst_finds finds coherent fun term listed =>
      leading [] term [] ⟨term, listed, rfl⟩ (by simp)
  | repetition term | option term =>
    have here : allowed term := by
      refine leading [] term [] ?_ (by simp)
      first
      | exact ⟨1, rfl⟩
      | exact Or.inr rfl
    have front := finds rules term coherent here
    refine ⟨front.coherent, front.keeps, fun x member => ?_, fun grounded x member => ?_⟩
    · exact (NameSet.mem_insert.1 member).imp_right (front.sound x)
    · exact NameSet.mem_insert.2 (member.imp_right (front.complete (grounded term here) x))

end

/-- A result is stored unless the rule reaches a gap. -/
theorem Finds.store {base rules : List Rule} (distinct : (base.map Rule.name).Nodup) {name : String}
    {rule : Rule} (listed : findRule? base name = some rule) {result : NameSet × List Rule}
    (finds : Finds base rules (leastFirst base name) (Grounded base name) result) :
    Finds base rules (leastFirst base name) (Grounded base name)
        (result.1, if rule.unresolved then result.2 else storeFirst result.2 name result.1) ∧
      (rule.unresolved = false →
        Stored (if rule.unresolved then result.2 else storeFirst result.2 name result.1) name) := by
  cases gap : rule.unresolved with
  | true => exact ⟨finds, Bool.noConfusion⟩
  | false =>
    refine ⟨⟨finds.coherent.storeFirst distinct listed gap finds.sound finds.complete,
      fun other stored => (finds.keeps other stored).storeFirst, finds.sound, finds.complete⟩,
      fun _ => ?_⟩
    have still := finds.coherent.find? name
    rw [listed, Option.map_some, Option.map_eq_some_iff] at still
    obtain ⟨now, there, bare⟩ := still
    exact stored_storeFirst_self there ((congrArg Rule.unresolved bare).trans gap)

/-- Where nothing is to be found, or only for a name that leads back to itself, nothing will do. -/
theorem Coherent.finds_nothing {base rules : List Rule} (coherent : Coherent base rules)
    {set : Set String} {grounded : Prop} (empty : grounded → ∀ x, x ∉ set) :
    Finds base rules set grounded (∅, rules) :=
  ⟨coherent, fun _ stored => stored, fun _ member => absurd member NameSet.not_mem_empty,
    fun grounded x member => absurd member (empty grounded x)⟩

/-- The set of a rule is found from its body and stored, if the sets of the terms that lead the body
are found. -/
theorem bodyFirst_stored {base rules : List Rule} (distinct : (base.map Rule.name).Nodup)
    {of : List Rule → String → NameSet × List Rule} {name : String} {rule : Rule}
    (coherent : Coherent base rules) (found : findRule? rules name = some rule)
    (finds : ∀ rules term, Coherent base rules → Leads base name term →
      Finds base rules (leastFirst base term) (Grounded base term) (of rules term)) :
    let result := bodyFirst of rules name rule.body
    let stored := if rule.unresolved then result.2 else storeFirst result.2 name result.1
    Finds base rules (leastFirst base name) (Grounded base name) (result.1, stored) ∧
      (rule.unresolved = false → Stored stored name) := by
  obtain ⟨known, listed, same⟩ := coherent.exists_rule found
  have body : known.body = rule.body := (congrArg Rule.body same :)
  have mark : known.unresolved = rule.unresolved := (congrArg Rule.unresolved same :)
  have leading : ∀ before term after, known.body.Allows (before ++ term :: after) →
      (∀ t ∈ before, nullable ∈ leastFirst base t) → Leads base name term :=
    fun before term after allows silent => ⟨known, before, after, listed, allows, silent⟩
  have result := bodyFirst_finds finds coherent name leading
  rw [← leastFirst_of_find? listed] at result
  have grounded : Grounded base name → ∀ term, Leads base name term → Grounded base term :=
    fun grounded _ leads => grounded.of_leads leads
  have whole := Finds.store distinct listed
    { result with complete := fun g => result.complete (grounded g) }
  rwa [body, mark] at whole

/-- One request: every rule whose set is being computed leads to `name`. -/
theorem firstOf_finds {base : List Rule} (distinct : (base.map Rule.name).Nodup) (fuel : Nat)
    {visiting : List String} {rules : List Rule} {name : String} (coherent : Coherent base rules)
    (fresh : visiting.Nodup) (defined : ∀ v ∈ visiting, v ∈ base.map Rule.name)
    (led : ∀ v ∈ visiting, Relation.TransGen (Leads base) v name)
    (enough : base.length < fuel + visiting.length) :
    Finds base rules (leastFirst base name) (Grounded base name)
        (firstOf fuel visiting rules name) ∧
      ∀ rule, name ∉ visiting → findRule? base name = some rule → rule.unresolved = false →
        Stored (firstOf fuel visiting rules name).2 name := by
  induction fuel generalizing visiting rules name with
  | zero =>
    have short := (List.subperm_of_subset fresh defined).length_le
    rw [List.length_map] at short
    omega
  | succ fuel ih =>
    unfold firstOf
    cases found : findRule? rules name with
    | none =>
      have missing : findRule? base name = none := by
        have same := coherent.find? name
        rw [found] at same
        exact Option.map_eq_none_iff.1 same.symm
      refine ⟨coherent.finds_nothing fun _ x member => ?_, ?_⟩
      · rwa [leastFirst_undefined missing] at member
      · intro rule _ known
        rw [missing] at known
        cases known
    | some rule =>
      have member := List.mem_of_find?_eq_some found
      have named := findRule?_name found
      by_cases ready : rule.hasFirst = true
      · simp only [ready, if_true]
        have exact := coherent.exact rule member ready
        exact ⟨⟨coherent, fun _ stored => stored, named ▸ exact.sound, named ▸ exact.complete⟩,
          fun _ _ _ _ => ⟨rule, found, ready⟩⟩
      · by_cases again : visiting.contains name = true
        · have again' := List.contains_iff_mem.1 again
          simp only [ready, again, if_true]
          exact ⟨coherent.finds_nothing fun grounded =>
            absurd (led name again') grounded.not_leftRecursive, fun _ new => absurd again' new⟩
        · simp only [ready, again, Bool.false_eq_true, if_false]
          have new : name ∉ visiting := fun inside => again (List.contains_iff_mem.2 inside)
          have inside : name ∈ base.map Rule.name := by
            rw [← coherent.names, ← named]
            exact List.mem_map_of_mem member
          have step : ∀ rules term, Coherent base rules → Leads base name term →
              Finds base rules (leastFirst base term) (Grounded base term)
                (firstOf fuel (name :: visiting) rules term) := by
            intro rules term coherent leads
            refine (ih coherent (List.nodup_cons.2 ⟨new, fresh⟩)
              (List.forall_mem_cons.2 ⟨inside, defined⟩) ?_ ?_).1
            · exact List.forall_mem_cons.2 ⟨.single leads, fun v v_in => (led v v_in).tail leads⟩
            · rw [List.length_cons]
              omega
          obtain ⟨result, stored⟩ := bodyFirst_stored distinct coherent found step
          refine ⟨result, fun r _ listed resolved => stored ?_⟩
          obtain ⟨known, listed', same⟩ := coherent.exists_rule found
          rw [listed] at listed'
          cases listed'
          exact (congrArg Rule.unresolved same).symm.trans resolved

/-- A request from outside, with fuel for all rules. -/
theorem firstOf_request {base rules : List Rule} (distinct : (base.map Rule.name).Nodup)
    (coherent : Coherent base rules) (name : String) :
    Finds base rules (leastFirst base name) (Grounded base name)
        (firstOf (rules.length + 1) [] rules name) ∧
      ∀ rule, findRule? base name = some rule → rule.unresolved = false →
        Stored (firstOf (rules.length + 1) [] rules name).2 name := by
  have size : rules.length = base.length := by
    rw [← List.length_map (f := Rule.name), coherent.names, List.length_map]
  have vacuous : ∀ {p : String → Prop}, ∀ v ∈ [], p v := fun v listed => absurd listed List.not_mem_nil
  obtain ⟨finds, stored⟩ := firstOf_finds distinct (rules.length + 1) coherent List.nodup_nil vacuous
    vacuous (by rw [size]; exact Nat.lt_succ_self _)
  exact ⟨finds, fun rule => stored rule List.not_mem_nil⟩

end AttrGrammar
