import AttrGrammar.Proofs.Grammar.Gaps

/-!
What steps do to a draft.

Bringing rules up to date keeps their names and right-hand sides. A step that fails leaves the draft
as it was: whatever is checked after a change holds because of the change. So each step has one
equation, with its failures first.
-/

namespace AttrGrammar

namespace Rule

@[simp] theorem forgetFirst_name (r : Rule) : r.forgetFirst.name = r.name := by
  unfold forgetFirst
  split <;> rfl

@[simp] theorem forgetFirst_body (r : Rule) : r.forgetFirst.body = r.body := by
  unfold forgetFirst
  split <;> rfl

@[simp] theorem forgetFirst_matcher (r : Rule) : r.forgetFirst.matcher = r.matcher := by
  unfold forgetFirst
  split <;> rfl

@[simp] theorem forgetFirst_unresolved (r : Rule) : r.forgetFirst.unresolved = r.unresolved := by
  unfold forgetFirst
  split <;> rfl

@[simp] theorem terms_terminal (name : String) (matcher : Option Matcher) (synthesized : List Attr) :
    (terminal name matcher synthesized).terms = [] := by
  cases matcher <;> rfl

end Rule

namespace Draft

variable {rules : List Rule}

/-- What bringing a rule up to date does, where `gaps` are the rules with gaps. -/
structure Refreshed (gaps : List String) (old new : Rule) : Prop where
  name : new.name = old.name
  body : new.body = old.body
  mark : new.unresolved = gaps.contains old.name
  first : new.unresolved = false → new.first = old.first ∧ new.firstKnown = old.firstKnown
  blank : new.unresolved = true → (old.unresolved = true → old.Blank) → new.Blank

theorem refreshed_mark (gaps : List String) (rule : Rule) :
    Refreshed gaps rule (mark gaps rule) := by
  unfold mark
  dsimp only
  split
  · next same => exact ⟨rfl, rfl, same, fun _ => ⟨rfl, rfl⟩, fun gap old => old gap⟩
  · cases now : gaps.contains rule.name with
    | true => exact ⟨rfl, rfl, now.symm, Bool.noConfusion, fun _ _ => ⟨rfl, rfl⟩⟩
    | false => exact ⟨rfl, rfl, now.symm, fun _ => ⟨rfl, rfl⟩, Bool.noConfusion⟩

theorem Refreshed.storing {gaps : List String} {old new : Rule} (before : Refreshed gaps old new)
    (name : String) (matcher : Option Matcher) :
    Refreshed gaps old (if new.name = name then { new with matcher } else new) := by
  split
  · exact { before with blank := fun gap old => { before.blank gap old with } }
  · exact before

/-- Storing matchers changes nothing else. -/
theorem foldl_storeMatcher_eq_map {gaps : List String} (names : List String) :
    ∀ {f : Rule → Rule} {memo : Memo}, (∀ rule, Refreshed gaps rule (f rule)) →
      ∃ f', (names.foldl storeMatcher (rules.map f, memo)).1 = rules.map f' ∧
        ∀ rule, Refreshed gaps rule (f' rule) := by
  induction names with
  | nil => exact fun refreshed => ⟨_, rfl, refreshed⟩
  | cons name rest ih =>
    intro f memo refreshed
    rw [List.foldl_cons, storeMatcher]
    dsimp only
    rw [List.map_map]
    exact ih fun rule => (refreshed rule).storing name _

theorem refresh_eq_map (rules : List Rule) :
    ∃ f, refresh rules = rules.map f ∧ ∀ rule, Refreshed (unresolvedNames rules) rule (f rule) :=
  foldl_storeMatcher_eq_map _ (refreshed_mark _)

theorem names_refresh (rules : List Rule) : (refresh rules).map Rule.name = rules.map Rule.name := by
  obtain ⟨f, same, refreshed⟩ := refresh_eq_map rules
  rw [same, List.map_map]
  exact List.map_congr_left fun rule _ => (refreshed rule).name

theorem expectRule_run (d : Draft) (name : String) :
    (expectRule name).run d = match d.find? name with
      | some rule => .ok rule d
      | none => .error (.missingRule name none) d := by
  change EStateM.run (match d.find? name with
    | some rule => (pure rule : DraftM Rule)
    | none => throw (.missingRule name none)) d = _
  cases d.find? name <;> rfl

theorem expectRule_defined {d : Draft} {name : String} (defined : name ∈ d.rules.map Rule.name) :
    ∃ rule, (expectRule name).run d = .ok rule d := by
  have known : (d.find? name).isSome = true := by
    obtain ⟨rule, listed, rfl⟩ := List.mem_map.1 defined
    rw [find?, findRule?, List.find?_isSome]
    exact ⟨rule, listed, beq_self_eq_true _⟩
  obtain ⟨rule, found⟩ := Option.isSome_iff_exists.1 known
  exact ⟨rule, by rw [expectRule_run, found]⟩

/-- The new rule is there afterwards. -/
theorem define_run (d : Draft) (rule : Rule) :
    ∃ new, (define rule).run d = if d.contains rule.name then .error (.duplicateRule rule.name) d
      else .ok new { rules := refresh (d.rules ++ [rule]) } := by
  have there : rule.name ∈ (refresh (d.rules ++ [rule])).map Rule.name := by
    rw [names_refresh, List.map_append]
    exact List.mem_append_right _ List.mem_cons_self
  obtain ⟨new, done⟩ := expectRule_defined (d := ⟨refresh (d.rules ++ [rule])⟩) there
  refine ⟨new, ?_⟩
  rw [← done]
  change EStateM.run (if d.contains rule.name then (throw (.duplicateRule rule.name) : DraftM Rule)
    else _) d = _
  cases d.contains rule.name <;> rfl

theorem defineTerminal_run (d : Draft) (name pattern : String) :
    (defineTerminal name pattern).run d = match Matcher.ofPattern pattern with
      | .ok m => (define (.terminal name m)).run d
      | .error e => .error (.invalidPattern name e.message) d := by
  rw [defineTerminal]
  cases Matcher.ofPattern pattern <;> rfl

theorem takeTerminal_run (d : Draft) (g : Grammar) (name : String) :
    (takeTerminal g name).run d = match g.find? name with
      | none => .error (.missingRule name none) d
      | some rule => match rule.toTerminal? with
        | none => .error (.cannotMakeTerminal rule.name) d
        | some terminal => (define terminal).run d := by
  rw [takeTerminal]
  cases g.find? name with
  | none => rfl
  | some rule =>
    dsimp only
    cases rule.toTerminal? <;> rfl

/-- The terminal form of a resolved rule. -/
theorem toTerminal?_cases {rule terminal : Rule} (formed : rule.toTerminal? = some terminal) :
    rule.unresolved = false ∧ terminal = .terminal rule.name rule.matcher rule.synthesized := by
  unfold Rule.toTerminal? at formed
  split at formed
  · cases formed
  · next resolved =>
    cases formed
    exact ⟨Bool.eq_false_iff.2 resolved, rfl⟩

theorem names_replaceRule {name : String} {terminal : Rule} (same : terminal.name = name)
    (rules : List Rule) : (replaceRule name terminal rules).map Rule.name = rules.map Rule.name := by
  rw [replaceRule, List.map_map]
  refine List.map_congr_left fun r _ => ?_
  rw [Function.comp_apply, Rule.forgetFirst_name]
  split
  · next here => rw [same, here]
  · rfl

/-- The terminal is there afterwards, in the place of the rule. -/
theorem replaceByTerminal_run (d : Draft) (name : String) :
    ∃ new, (replaceByTerminal name).run d = match d.find? name with
      | none => .error (.missingRule name none) d
      | some rule => match rule.toTerminal? with
        | none => .error (.cannotMakeTerminal name) d
        | some terminal => .ok new { rules := refresh (replaceRule name terminal d.rules) } := by
  have start : (replaceByTerminal name).run d = match d.find? name with
      | none => .error (.missingRule name none) d
      | some rule => match rule.toTerminal? with
        | none => .error (.cannotMakeTerminal name) d
        | some terminal =>
          (expectRule name).run { rules := refresh (replaceRule name terminal d.rules) } := by
    have asked := expectRule_run d name
    unfold replaceByTerminal
    rw [EStateM.run] at asked ⊢
    simp only [bind, EStateM.bind, asked]
    cases d.find? name with
    | none => rfl
    | some rule =>
      dsimp only
      cases rule.toTerminal? <;> rfl
  rw [start]
  cases found : d.find? name with
  | none => exact ⟨default, rfl⟩
  | some rule =>
    cases formed : rule.toTerminal? with
    | none => exact ⟨default, by simp only [formed]⟩
    | some terminal =>
      have named : rule.name = name := findRule?_name found
      have same : terminal.name = name :=
        (congrArg Rule.name (toTerminal?_cases formed).2).trans named
      have there : name ∈ (refresh (replaceRule name terminal d.rules)).map Rule.name := by
        rw [names_refresh, names_replaceRule same]
        exact List.mem_map.2 ⟨rule, List.mem_of_find?_eq_some found, named⟩
      obtain ⟨new, done⟩ :=
        expectRule_defined (d := ⟨refresh (replaceRule name terminal d.rules)⟩) there
      exact ⟨new, by simp only [formed, done]⟩

theorem requestFirst_run (d : Draft) (name : String) :
    (requestFirst name).run d =
      if d.contains name then
        .ok (firstOf (d.rules.length + 1) [] d.rules name).1
          { rules := (firstOf (d.rules.length + 1) [] d.rules name).2 }
      else .error (.missingRule name none) d := by
  change EStateM.run (if d.contains name then _
    else (throw (.missingRule name none) : DraftM NameSet)) d = _
  cases d.contains name <;> rfl

theorem insert_eq (d : Draft) (rule : Rule) :
    d.insert rule = if d.contains rule.name then .error (.duplicateRule rule.name)
      else .ok { rules := refresh (d.rules ++ [rule]) } := by
  obtain ⟨new, run⟩ := define_run d rule
  rw [insert, stepped, outcome, run]
  cases d.contains rule.name <;> rfl

theorem addTerminal_eq (d : Draft) (name pattern : String) :
    d.addTerminal name pattern = match Matcher.ofPattern pattern with
      | .ok m => d.insert (.terminal name m)
      | .error e => .error (.invalidPattern name e.message) := by
  rw [addTerminal, stepped, outcome, defineTerminal_run]
  cases Matcher.ofPattern pattern <;> rfl

theorem importTerminal_eq (d : Draft) (g : Grammar) (name : String) :
    d.importTerminal g name = match g.find? name with
      | none => .error (.missingRule name none)
      | some rule => match rule.toTerminal? with
        | none => .error (.cannotMakeTerminal rule.name)
        | some terminal => d.insert terminal := by
  rw [importTerminal, stepped, outcome, takeTerminal_run]
  cases g.find? name with
  | none => rfl
  | some rule =>
    dsimp only
    cases rule.toTerminal? <;> rfl

theorem makeTerminal_eq (d : Draft) (name : String) :
    d.makeTerminal name = match d.find? name with
      | none => .error (.missingRule name none)
      | some rule => match rule.toTerminal? with
        | none => .error (.cannotMakeTerminal name)
        | some terminal => .ok { rules := refresh (replaceRule name terminal d.rules) } := by
  obtain ⟨new, run⟩ := replaceByTerminal_run d name
  rw [makeTerminal, stepped, outcome, run]
  cases d.find? name with
  | none => rfl
  | some rule =>
    dsimp only
    cases rule.toTerminal? <;> rfl

/-- The rule that was replaced. -/
theorem makeTerminal_cases {d d' : Draft} {name : String} (made : d.makeTerminal name = .ok d') :
    ∃ rule ∈ d.rules, rule.name = name ∧
      d' = ⟨refresh (replaceRule name (.terminal name rule.matcher rule.synthesized) d.rules)⟩ := by
  rw [makeTerminal_eq] at made
  cases found : d.find? name with
  | none =>
    rw [found] at made
    cases made
  | some rule =>
    have named : rule.name = name := findRule?_name found
    cases formed : rule.toTerminal? with
    | none =>
      simp only [found, formed] at made
      cases made
    | some terminal =>
      simp only [found, formed, (toTerminal?_cases formed).2, named] at made
      cases made
      exact ⟨rule, List.mem_of_find?_eq_some found, named, rfl⟩

theorem firstSet_eq (d : Draft) (name : String) :
    d.firstSet name =
      if d.contains name then
        .ok ((firstOf (d.rules.length + 1) [] d.rules name).1,
          { rules := (firstOf (d.rules.length + 1) [] d.rules name).2 })
      else .error (.missingRule name none) := by
  rw [firstSet, outcome, requestFirst_run]
  cases d.contains name <;> rfl

/-- A step that fails leaves the draft as it was. -/
def Keeps {α : Type} (step : DraftM α) : Prop :=
  ∀ (d d' : Draft) (e : GrammarError), step.run d = .error e d' → d' = d

theorem keeps_define (rule : Rule) : Keeps (define rule) := by
  intro d d' e failed
  obtain ⟨new, run⟩ := define_run d rule
  rw [run] at failed
  split at failed
  · cases failed
    rfl
  · cases failed

theorem keeps_defineTerminal (name pattern : String) : Keeps (defineTerminal name pattern) := by
  intro d d' e failed
  rw [defineTerminal_run] at failed
  split at failed
  · exact keeps_define _ d d' e failed
  · cases failed
    rfl

theorem keeps_takeTerminal (g : Grammar) (name : String) : Keeps (takeTerminal g name) := by
  intro d d' e failed
  rw [takeTerminal_run] at failed
  split at failed
  · cases failed
    rfl
  · split at failed
    · cases failed
      rfl
    · exact keeps_define _ d d' e failed

theorem keeps_replaceByTerminal (name : String) : Keeps (replaceByTerminal name) := by
  intro d d' e failed
  obtain ⟨new, run⟩ := replaceByTerminal_run d name
  rw [run] at failed
  split at failed
  · cases failed
    rfl
  · split at failed
    · cases failed
      rfl
    · cases failed

theorem keeps_requestFirst (name : String) : Keeps (requestFirst name) := by
  intro d d' e failed
  rw [requestFirst_run] at failed
  split at failed
  · cases failed
  · cases failed
    rfl

end Draft

end AttrGrammar
