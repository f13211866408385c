import AttrGrammar.Grammar.Draft
import AttrGrammar.Proofs.Folding.Rounds
import AttrGrammar.Proofs.Parsing.Derivation

/-!
What a fold plan leaves of its tokens.

The main statement is that nothing is lost, duplicated or moved: the tokens are cut into blocks side
by side, and each token in the end is one of them or stands for a block, with the lexemes of the
block under the name of a rule of the plan. And a plan is through when it says so: no step of it
makes a fold in the end, so that a second run changes nothing.
-/

namespace AttrGrammar

/-- A rule that is looked up has the name that it is looked up by. -/
theorem Grammar.name_of_rule {g : Grammar} {name : String} {rule : Rule}
    (found : g.rule name = .ok rule) : rule.name = name := by
  unfold Grammar.rule at found
  split at found
  · next known =>
    cases found
    exact g.find?_name known
  · cases found

/-- The name of the rule that a step folds by. -/
def FoldStep.rule : FoldStep → String
  | alternation rule | concatenation rule => rule

namespace FoldPlan

open Fold

variable {plan : FoldPlan} {g : Grammar} {combine : Combiner} {tokens out : List Token}

/-- A token stands for a block of tokens: for itself alone, or for all of them under the name of a
rule of the plan. -/
structure Stands (plan : FoldPlan) (block : List Token) (t : Token) : Prop where
  nonempty : block ≠ []
  unchanged_or_folded : block = [t] ∨
    (∃ step ∈ plan, t.name = step.rule) ∧ t.lexeme = Token.joinLexemes block

/-- A step gives its tokens the name of the rule that it was written with. -/
theorem name_of_ofStep {step : FoldStep} {fold : Fold} (known : Fold.ofStep g step = .ok fold) :
    fold.name = step.rule := by
  have named : ∀ {name rule kind} {make : String → List String → Fold},
      (∀ n terms, (make n terms).name = n) → g.rule name = .ok rule →
        Fold.ofRule kind make rule = .ok fold → fold.name = name := by
    intro name rule kind make keeps found made
    obtain ⟨_, _, made⟩ := except_bind_eq_ok.1 made
    cases made
    rw [keeps, Grammar.name_of_rule found]
  cases step with
  | alternation rule =>
    obtain ⟨r, found, made⟩ := except_bind_eq_ok.1 known
    exact named (fun _ _ => rfl) found made
  | concatenation rule =>
    obtain ⟨r, found, made⟩ := except_bind_eq_ok.1 known
    exact named (fun _ _ => rfl) found made

/-- What folds combine a block into stands for it. -/
theorem stands_of_makes (joins : Joins combine) {folds : List Fold}
    (known : plan.folds g = .ok folds) {block : List Token} {t : Token}
    (makes : Makes combine (Fits folds) block t) : plan.Stands block t := by
  obtain ⟨n, combines⟩ := makes
  have joined := combines.joinLexemes_eq joins.lexeme
  have single : Token.joinLexemes [t] = t.lexeme := by simp [Token.joinLexemes, String.join_cons]
  refine ⟨?_, ?_⟩
  · rintro rfl
    have short := combines.length_le Fits.nonempty
    cases short
  · rcases combines.last with ⟨_, same⟩ | ⟨name, part, fit, rfl⟩
    · exact Or.inl same
    · refine Or.inr ⟨?_, single.symm.trans joined⟩
      obtain ⟨fold, listed, rfl, _⟩ := fit
      obtain ⟨step, inPlan, found⟩ := (mapM_eq_ok known).2 fold listed
      exact ⟨step, inPlan, by rw [joins.name, name_of_ofStep found]⟩

theorem folds_of_run (done : plan.run g combine tokens = .ok out) :
    ∃ folds, plan.folds g = .ok folds := by
  obtain ⟨folds, known, _⟩ := except_bind_eq_ok.1 done
  exact ⟨folds, known⟩

/-- A run that gives tokens has cut those at first into blocks side by side, for each of which one
token stands. In the end no step of the plan makes a fold, and a further run changes nothing. -/
theorem blocks_of_run (joins : Joins combine)
    (done : plan.run g combine tokens = .ok out) :
    (∃ blocks, blocks.flatten = tokens ∧ List.Forall₂ plan.Stands blocks out) ∧
    (∃ folds, plan.folds g = .ok folds ∧ ∀ fold ∈ folds, fold.apply combine out = (out, 0)) ∧
    plan.run g combine out = .ok out := by
  obtain ⟨folds, known⟩ := folds_of_run done
  obtain ⟨n, settles⟩ := (run_eq_ok_iff joins.name known).1 done
  obtain ⟨same, stuck⟩ := settles.stuck
  refine ⟨?_, ⟨folds, known, fun fold listed => ?_⟩, ?_⟩
  · obtain ⟨k, combines⟩ := settles.combines
    obtain ⟨blocks, whole, made⟩ := combines.blocks
    exact ⟨blocks, whole, made.imp fun _ _ => stands_of_makes joins known⟩
  · exact Prod.ext (apply_stuck (stuck fold listed)) (stuck fold listed)
  · refine (run_eq_ok_iff joins.name known).2 ⟨0, ?_⟩
    have stable : Settles combine folds 0 out _ := .stable (applyEach_of_stuck stuck)
    rwa [same] at stable

/-- Items in brackets, which are items again. -/
def brackets : Except GrammarError Grammar := do
  let d ← Draft.addAttrTerminal {} "a" []
  let d ← d.addAttrTerminal "open" []
  let d ← d.addAttrTerminal "close" []
  let d ← d.addAlternation "items" ["a", "group"]
  let d ← d.addConcatenation "group" ["open", "items", "close"]
  d.build "brackets" (some "group")

/-- Folds groups before the items in them, so that each level of brackets takes a round. -/
def bracketPlan : FoldPlan := [.concatenation "group", .alternation "items"]

def bracketTokens : List Token :=
  [⟨"open", "[", {}⟩, ⟨"a", "1", {}⟩, ⟨"open", "[", {}⟩, ⟨"a", "2", {}⟩, ⟨"close", "]", {}⟩,
    ⟨"close", "]", {}⟩, ⟨"a", "3", {}⟩, ⟨"close", "]", {}⟩]

/-- Brackets in brackets, with an item after them and a bracket too many. -/
theorem blocks_of_run_brackets : ∃ g, brackets = .ok g ∧
    ∃ out, bracketPlan.run g combineLexemes bracketTokens = .ok out ∧
      out.map (fun t => (t.name, t.lexeme)) = [("items", "[1[2]]3"), ("close", "]")] ∧
      (∃ blocks, blocks.flatten = bracketTokens ∧ List.Forall₂ bracketPlan.Stands blocks out) ∧
      bracketPlan.run g combineLexemes out = .ok out := by
  have runs : brackets.toOption.any (fun g => decide (bracketPlan.run g combineLexemes bracketTokens =
      .ok [⟨"items", "[1[2]]3", {}⟩, ⟨"close", "]", {}⟩])) = true := by decide +kernel
  obtain ⟨g, made, runs⟩ := exists_ok_of_any runs
  have done := of_decide_eq_true runs
  obtain ⟨blocks, _, again⟩ := blocks_of_run joins_combineLexemes done
  exact ⟨g, made, _, done, rfl, blocks, again⟩

end FoldPlan

end AttrGrammar
