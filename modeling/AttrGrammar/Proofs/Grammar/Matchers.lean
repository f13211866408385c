import AttrGrammar.Proofs.Grammar.History

/-!
Composed matchers.

What a name composes to is found by going down through terms to terminals with matchers; there is
nothing for a name that reaches itself, an undefined name or a terminal without a matcher. The search
keeps what it found out and gives up on names that it is at already. That it finds just what there
is to find needs no order of the search: whatever is kept is right for good, and a name that is met
again while it is composed reaches itself.
-/

namespace AttrGrammar.Draft

variable {rules others : List Rule} {name : String} {names : List String} {m : Matcher}
  {parts : List Matcher} {memo : Memo}

/-- The rule called `a` has the term `b`. -/
def Refers (rules : List Rule) (a b : String) : Prop :=
  ∃ rule, findRule? rules a = some rule ∧ b ∈ rule.terms

/-- There is a way from `a` to `b` through the terms of rules. -/
def Reaches (rules : List Rule) : String → String → Prop := Relation.TransGen (Refers rules)

/-- The rules with gaps are those that reach an undefined name. -/
theorem mem_unresolvedNames_iff_reaches (distinct : (rules.map Rule.name).Nodup) :
    name ∈ unresolvedNames rules ↔
      ∃ gap, Reaches rules name gap ∧ definesRule rules gap = false := by
  constructor
  · refine fun member => by_contra fun closed => ?_
    let inside := fun a => ∀ b, Reaches rules a b → definesRule rules b = true
    have here : inside name := fun b path => by_contra fun missing =>
      closed ⟨b, path, Bool.eq_false_iff.2 missing⟩
    refine @not_mem_unresolvedNames _ inside (fun rule listed within term refers => ?_) _ here member
    have step : Refers rules rule.name term := ⟨rule, findRule?_of_mem distinct listed, refers⟩
    exact ⟨within term (.single step), fun b path => within b (.head step path)⟩
  · rintro ⟨gap, path, missing⟩
    induction path using Relation.TransGen.head_induction_on with
    | single step =>
      obtain ⟨rule, found, refers⟩ := step
      exact mem_unresolvedNames.2 ⟨rule, List.mem_of_find?_eq_some found, findRule?_name found,
        gap, refers, Or.inl missing⟩
    | head step _ ih =>
      obtain ⟨rule, found, refers⟩ := step
      exact mem_unresolvedNames.2 ⟨rule, List.mem_of_find?_eq_some found, findRule?_name found,
        _, refers, Or.inr ih⟩

/-- What names compose to, each by itself. -/
inductive Composes (rules : List Rule) : List String → List Matcher → Prop
  | nil : Composes rules [] []
  | terminal {name : String} {rule : Rule} {m : Matcher} {names : List String}
      {parts : List Matcher} (found : findRule? rules name = some rule)
      (body : rule.body = .terminal m) (later : Composes rules names parts) :
      Composes rules (name :: names) (m :: parts)
  | composed {name : String} {rule : Rule} {own : List Matcher} {m : Matcher}
      {names : List String} {parts : List Matcher} (found : findRule? rules name = some rule)
      (terms : Composes rules rule.terms own) (made : composed? rule.body own = some m)
      (later : Composes rules names parts) : Composes rules (name :: names) (m :: parts)

theorem composes_nil_iff : Composes rules [] parts ↔ parts = [] := by
  constructor
  · intro composes
    cases composes
    rfl
  · rintro rfl
    exact .nil

theorem composes_cons_iff : Composes rules (name :: names) parts ↔
    ∃ m more, parts = m :: more ∧ Composes rules [name] [m] ∧ Composes rules names more := by
  constructor
  · intro composes
    cases composes with
    | terminal found body later => exact ⟨_, _, rfl, .terminal found body .nil, later⟩
    | composed found terms made later => exact ⟨_, _, rfl, .composed found terms made .nil, later⟩
  · rintro ⟨m, more, rfl, first, later⟩
    cases first with
    | terminal found body _ => exact .terminal found body later
    | composed found terms made _ => exact .composed found terms made later

/-- One name, by its rule. -/
theorem composes_one_iff {rule : Rule} (found : findRule? rules name = some rule) :
    Composes rules [name] [m] ↔ rule.body = .terminal m ∨
      ∃ own, Composes rules rule.terms own ∧ composed? rule.body own = some m := by
  constructor
  · intro composes
    cases composes with
    | terminal there body _ =>
      cases found.symm.trans there
      exact Or.inl body
    | composed there terms made _ =>
      cases found.symm.trans there
      exact Or.inr ⟨_, terms, made⟩
  · rintro (body | ⟨own, terms, made⟩)
    · exact .terminal found body .nil
    · exact .composed found terms made .nil

/-- What passes on from the terms of rules to their names holds of all names that compose. -/
theorem Composes.all {P : String → Prop}
    (up : ∀ name rule, findRule? rules name = some rule → rule.body ≠ .attrTerminal →
      (∀ term ∈ rule.terms, P term) → P name)
    (composes : Composes rules names parts) : ∀ name ∈ names, P name := by
  induction composes with
  | nil => exact fun _ member => absurd member List.not_mem_nil
  | terminal found body _ later =>
    have here := up _ _ found (body ▸ nofun) (by
      rw [Rule.terms, body]
      exact fun _ member => absurd member List.not_mem_nil)
    exact List.forall_mem_cons.2 ⟨here, later⟩
  | composed found _ made _ terms later =>
    have here := up _ _ found (fun body => by rw [body] at made; cases made) terms
    exact List.forall_mem_cons.2 ⟨here, later⟩

/-- A name that composes does not reach itself. -/
theorem Composes.not_reaches_self (composes : Composes rules [name] parts) :
    ¬ Reaches rules name name := by
  have grounded := composes.all (P := Acc fun b a => Refers rules a b)
    (fun name rule found _ below => Acc.intro name fun b refers => by
      obtain ⟨known, there, member⟩ := refers
      cases found.symm.trans there
      exact below b member) name List.mem_cons_self
  clear composes
  induction grounded with
  | intro a _ ih =>
    intro circle
    obtain ⟨b, step, back⟩ := Relation.TransGen.head'_iff.1 circle
    exact ih b step (Relation.TransGen.tail' back step)

/-- A name that composes reaches names that compose only. -/
theorem Composes.of_reaches {b : String} (composes : Composes rules [name] [m])
    (path : Reaches rules name b) : ∃ m, Composes rules [b] [m] := by
  have each : ∀ {names parts}, Composes rules names parts →
      ∀ b ∈ names, ∃ m, Composes rules [b] [m] := by
    intro names
    induction names with
    | nil => exact fun _ _ member => absurd member List.not_mem_nil
    | cons first rest ih =>
      intro parts composes
      obtain ⟨m, more, rfl, here, later⟩ := composes_cons_iff.1 composes
      exact List.forall_mem_cons.2 ⟨⟨m, here⟩, ih later⟩
  have step : ∀ {a b}, (∃ m, Composes rules [a] [m]) → Refers rules a b →
      ∃ m, Composes rules [b] [m] := by
    rintro a b ⟨m, composes⟩ ⟨rule, found, refers⟩
    rcases (composes_one_iff found).1 composes with body | ⟨own, terms, _⟩
    · rw [Rule.terms, body] at refers
      exact absurd refers List.not_mem_nil
    · exact each terms b refers
  induction path with
  | single refers => exact step ⟨m, composes⟩ refers
  | tail _ refers ih => exact step ih refers

/-- A name that composes is defined and has no gap. -/
theorem Composes.whole (distinct : (rules.map Rule.name).Nodup)
    (composes : Composes rules [name] parts) : Whole rules name := by
  refine composes.all (P := Whole rules) (fun name rule found _ below => ?_) name List.mem_cons_self
  have listed := List.mem_of_find?_eq_some found
  refine ⟨mem_names_of_find? found, fun gap => ?_⟩
  obtain ⟨known, there, rfl, term, refers, missing⟩ := mem_unresolvedNames.1 gap
  cases found.symm.trans (findRule?_of_mem distinct there)
  obtain ⟨defined, resolved⟩ := below term refers
  rcases missing with undefined | unresolved
  · exact absurd ((definesRule_iff.2 defined).symm.trans undefined) Bool.noConfusion
  · exact resolved unresolved

/-- Names compose to the same in other rules if each has the same definition there, over names of
which this holds again, or composes to the same for another reason. -/
theorem Composes.transfer (composes : Composes rules names parts) (inside : String → Prop)
    (each : ∀ name rule, inside name → findRule? rules name = some rule →
      (∃ other, findRule? others name = some other ∧ other.body = rule.body ∧
        ∀ term ∈ rule.terms, inside term) ∨
      ∀ m, Composes rules [name] [m] → Composes others [name] [m])
    (here : ∀ name ∈ names, inside name) : Composes others names parts := by
  induction composes with
  | nil => exact .nil
  | terminal found body _ later =>
    obtain ⟨within, rest⟩ := List.forall_mem_cons.1 here
    rcases each _ _ within found with ⟨other, known, same, -⟩ | moves
    · exact .terminal known (same.trans body) (later rest)
    · exact composes_cons_iff.2 ⟨_, _, rfl, moves _ (.terminal found body .nil), later rest⟩
  | composed found own made _ terms later =>
    obtain ⟨within, rest⟩ := List.forall_mem_cons.1 here
    rcases each _ _ within found with ⟨other, known, same, closed⟩ | moves
    · have below := terms closed
      rw [← same] at made
      rw [Rule.terms, ← same] at below
      exact .composed known below made (later rest)
    · exact composes_cons_iff.2 ⟨_, _, rfl, moves _ (.composed found own made .nil), later rest⟩

theorem Composes.shared {inside : String → Prop} (composes : Composes rules names parts)
    (shared : SharedPart rules others inside) (here : ∀ name ∈ names, inside name) :
    Composes others names parts := by
  refine composes.transfer _ (fun name rule within found => Or.inl ?_) here
  have same := shared.same name within
  rw [found, Option.map_some, Option.map_eq_some_iff] at same
  obtain ⟨other, known, body⟩ := same
  exact ⟨other, known, body, shared.closed name rule within found⟩

theorem composes_map_iff {f : Rule → Rule} (named : ∀ rule, (f rule).name = rule.name)
    (body : ∀ rule, (f rule).body = rule.body) :
    Composes (rules.map f) names parts ↔ Composes rules names parts :=
  ⟨fun composes => composes.shared (SharedPart.map named body rules).symm fun _ _ => trivial,
    fun composes => composes.shared (SharedPart.map named body rules) fun _ _ => trivial⟩

/-- What is kept is right. -/
def Sound (rules : List Rule) (memo : Memo) : Prop :=
  ∀ name known, memo.find? name = some known → ∀ m, known = some m ↔ Composes rules [name] [m]

theorem sound_empty (rules : List Rule) : Sound rules ∅ := nofun

theorem Sound.insert (sound : Sound rules memo) {found : Option Matcher}
    (right : ∀ m, found = some m ↔ Composes rules [name] [m]) :
    Sound rules (memo.insert name found) := by
  intro other known there
  rw [Table.find?_insert] at there
  split at there
  · next same =>
    cases there
    exact same ▸ right
  · exact sound other known there

theorem Sound.map {f : Rule → Rule} (sound : Sound rules memo)
    (named : ∀ rule, (f rule).name = rule.name) (body : ∀ rule, (f rule).body = rule.body) :
    Sound (rules.map f) memo := by
  intro name known there m
  rw [composes_map_iff named body]
  exact sound name known there m

/-- A search that answers for a name, and keeps what is right. -/
structure Answers (rules : List Rule) (name : String) (result : Option Matcher × Memo) : Prop where
  right : ∀ m, result.1 = some m ↔ Composes rules [name] [m]
  sound : Sound rules result.2

theorem Answers.nothing (sound : Sound rules memo) (never : ∀ m, ¬ Composes rules [name] [m]) :
    Answers rules name (none, memo) :=
  ⟨fun m => ⟨nofun, fun composes => absurd composes (never m)⟩, sound⟩

theorem partsOf_right {of : Memo → String → Option Matcher × Memo} {terms : List String}
    (answers : ∀ memo, Sound rules memo → ∀ term ∈ terms, Answers rules term (of memo term))
    (sound : Sound rules memo) :
    (∀ parts, (partsOf of memo terms).1 = some parts ↔ Composes rules terms parts) ∧
      Sound rules (partsOf of memo terms).2 := by
  induction terms generalizing memo with
  | nil =>
    refine ⟨fun parts => ?_, sound⟩
    rw [composes_nil_iff, partsOf, Option.some.injEq, eq_comm]
  | cons term rest ih =>
    obtain ⟨head, later⟩ := List.forall_mem_cons.1 (fun t member memo sound =>
      answers memo sound t member)
    obtain ⟨right, kept⟩ := head memo sound
    rw [partsOf]
    cases found : of memo term with
    | mk matcher memo' =>
      rw [found] at right kept
      cases matcher with
      | none =>
        refine ⟨fun parts => ⟨nofun, fun composes => ?_⟩, kept⟩
        obtain ⟨m, _, _, here, _⟩ := composes_cons_iff.1 composes
        cases (right m).2 here
      | some part =>
        obtain ⟨rights, still⟩ := ih (fun memo sound t member => later t member memo sound) kept
        refine ⟨fun parts => ?_, still⟩
        have only : ∀ m, part = m ↔ Composes rules [term] [m] :=
          fun m => Option.some.injEq .. ▸ right m
        simp only [Option.map_eq_some_iff, rights, ← only,
          (composes_cons_iff : Composes rules (term :: rest) parts ↔ _)]
        exact ⟨fun ⟨more, composes, same⟩ => ⟨part, more, same.symm, rfl, composes⟩,
          fun ⟨_, more, same, here, composes⟩ => ⟨more, composes, here ▸ same.symm⟩⟩

/-- A rule that is no terminal is composed from its terms. -/
theorem Answers.composed {rule : Rule} (found : findRule? rules name = some rule)
    (production : ∀ m, rule.body ≠ .terminal m) {result : Option (List Matcher) × Memo}
    (right : ∀ own, result.1 = some own ↔ Composes rules rule.terms own)
    (sound : Sound rules result.2) :
    let matcher := result.1.bind (composed? rule.body)
    Answers rules name (matcher, result.2.insert name matcher) := by
  intro matcher
  have right : ∀ m, matcher = some m ↔ Composes rules [name] [m] := by
    intro m
    rw [composes_one_iff found, Option.bind_eq_some_iff, or_iff_right (production m)]
    exact exists_congr fun own => and_congr_left' (right own)
  exact ⟨right, sound.insert right⟩

/-- The names in `visiting` are being composed, and each reaches the name that is asked for. -/
theorem matcherOf?_answers (distinct : (rules.map Rule.name).Nodup)
    (marks : ∀ rule ∈ rules, rule.unresolved = true → rule.name ∈ unresolvedNames rules)
    (fuel : Nat) {visiting : List String} (sound : Sound rules memo) (once : visiting.Nodup)
    (defined : ∀ v ∈ visiting, v ∈ rules.map Rule.name)
    (around : ∀ v ∈ visiting, Reaches rules v name) (enough : rules.length < fuel + visiting.length) :
    Answers rules name (matcherOf? rules fuel visiting memo name) := by
  induction fuel generalizing visiting memo name with
  | zero =>
    have bound := (once.subperm defined).length_le
    rw [List.length_map] at bound
    omega
  | succ fuel ih =>
    rw [matcherOf?]
    cases known : memo.find? name with
    | some answer => exact ⟨sound name answer known, sound⟩
    | none =>
      dsimp only
      cases found : findRule? rules name with
      | none =>
        refine .nothing sound fun m composes => ?_
        obtain ⟨rule, listed, rfl⟩ := List.mem_map.1 (composes.whole distinct).1
        cases found.symm.trans (findRule?_of_mem distinct listed)
      | some rule =>
        dsimp only
        cases shape : rule.body with
        | terminal m =>
          refine ⟨fun m' => ?_, sound⟩
          rw [composes_one_iff found, shape, Option.some.injEq, RuleBody.terminal.injEq]
          exact (or_iff_left (fun ⟨_, _, made⟩ => nomatch made)).symm
        | attrTerminal =>
          refine .nothing sound fun m composes => ?_
          rcases (composes_one_iff found).1 composes with same | ⟨_, _, made⟩
          · cases shape.symm.trans same
          · rw [shape] at made
            cases made
        | concatenation | alternation | repetition | option | attrProduction =>
          dsimp only
          rw [← shape]
          split
          · next stops =>
            refine .nothing sound fun m composes => ?_
            rcases Bool.or_eq_true_iff.1 stops with gap | again
            · have named : rule.name = name := findRule?_name found
              exact (composes.whole distinct).2
                (named ▸ marks rule (List.mem_of_find?_eq_some found) gap)
            · exact composes.not_reaches_self (around name (List.contains_iff_mem.1 again))
          · next goes =>
            obtain ⟨-, new⟩ := not_or.1 (Bool.or_eq_true_iff.not.1 goes)
            have fresh : name ∉ visiting := fun member => new (List.contains_iff_mem.2 member)
            have below : ∀ memo, Sound rules memo → ∀ term ∈ rule.terms,
                Answers rules term (matcherOf? rules fuel (name :: visiting) memo term) := by
              intro memo sound term refers
              have step : Refers rules name term := ⟨rule, found, refers⟩
              refine ih sound (List.nodup_cons.2 ⟨fresh, once⟩) ?_ ?_ ?_
              · exact List.forall_mem_cons.2 ⟨mem_names_of_find? found, defined⟩
              · exact List.forall_mem_cons.2 ⟨.single step, fun v member =>
                  (around v member).tail step⟩
              · rw [List.length_cons]
                omega
            obtain ⟨right, kept⟩ := partsOf_right below sound
            exact .composed found (fun m => shape ▸ nofun) right kept

end AttrGrammar.Draft
