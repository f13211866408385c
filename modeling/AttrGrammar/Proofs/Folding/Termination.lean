import AttrGrammar.Proofs.Folding.Blocks
import AttrGrammar.Proofs.Procedure.Standard
import Mathlib.Data.Set.Card
import Mathlib.Logic.Relation

/-!
When folding comes to an end.

A fold that leaves as many tokens as before has put a token of a new name in place of a single one.
If no name can be rewritten to itself in this way, names have heights, which fall with each rewriting
of one token. A token weighs more than all heights, so that two of them outweigh any single one;
then every fold makes the tokens lighter, and rounds end.
-/

namespace AttrGrammar

namespace Fold

/-- A fold can put a token of the second name in place of a single one of the first. -/
def Renames : Fold → String → String → Prop
  | alternation name terms, a, b => a ∈ terms ∧ b = name ∧ a ≠ b
  | concatenation name terms, a, b => terms = [a] ∧ b = name ∧ a ≠ b

/-- One of some folds rewrites a name to another. -/
def Rewrites (folds : List Fold) (a b : String) : Prop := ∃ fold ∈ folds, fold.Renames a b

/-- No name is rewritten to itself in a circle. -/
def Acyclic (folds : List Fold) : Prop := ∀ a, ¬ Relation.TransGen (Rewrites folds) a a

variable {combine : Combiner} {folds : List Fold} {xs ys tokens : List Token} {n : Nat}

theorem Renames.name {fold : Fold} {a b : String} (renames : fold.Renames a b) : b = fold.name := by
  cases fold <;> exact renames.2.1

/-- Where all rewriting goes down there is no circle. -/
theorem acyclic_of_falling (height : String → Nat)
    (falls : ∀ fold ∈ folds, ∀ a b, fold.Renames a b → height b < height a) : Acyclic folds := by
  have down : ∀ {a b}, Relation.TransGen (Rewrites folds) a b → height b < height a := by
    intro a b path
    induction path with
    | single step =>
      obtain ⟨fold, listed, renames⟩ := step
      exact falls fold listed _ _ renames
    | tail _ step ih =>
      obtain ⟨fold, listed, renames⟩ := step
      exact Nat.lt_trans (falls fold listed _ _ renames) ih
  exact fun a circle => Nat.lt_irrefl _ (down circle)

/-- The names that a name can be rewritten to. -/
def rewritten (folds : List Fold) (a : String) : Set String :=
  {b | Relation.TransGen (Rewrites folds) a b}

theorem rewritten_subset (folds : List Fold) (a : String) :
    rewritten folds a ⊆ {b | b ∈ folds.map Fold.name} := by
  intro b path
  obtain ⟨_, _, fold, listed, renames⟩ := Relation.TransGen.tail'_iff.1 path
  rw [Set.mem_ofPred_eq, renames.name]
  exact List.mem_map_of_mem listed

/-- How many names a name can be rewritten to. -/
noncomputable def height (folds : List Fold) (a : String) : Nat := (rewritten folds a).ncard

theorem height_le (folds : List Fold) (a : String) : height folds a ≤ folds.length := by
  have few := Set.ncard_le_ncard (rewritten_subset folds a) (List.finite_toSet _)
  have names := List.toFinset_card_le (folds.map Fold.name)
  rw [← Set.ncard_coe_finset, List.coe_toFinset, List.length_map] at names
  exact Nat.le_trans few names

theorem Acyclic.height_lt (acyclic : Acyclic folds) {a b : String} (step : Rewrites folds a b) :
    height folds b < height folds a := by
  have fewer : rewritten folds b ⊂ rewritten folds a :=
    ⟨fun c path => .head step path, fun all => acyclic b (all (.single step))⟩
  exact Set.ncard_lt_ncard fewer ((List.finite_toSet _).subset (rewritten_subset folds a))

/-- What a token of a name weighs: more than half of any other. -/
noncomputable def nameWeight (folds : List Fold) (a : String) : Nat :=
  folds.length + 1 + height folds a

noncomputable def weight (folds : List Fold) (tokens : List Token) : Nat :=
  (tokens.map fun t => nameWeight folds t.name).sum

theorem weight_append (folds : List Fold) (xs ys : List Token) :
    weight folds (xs ++ ys) = weight folds xs + weight folds ys := by
  rw [weight, List.map_append, List.sum_append]
  rfl

theorem weight_cons (folds : List Fold) (t : Token) (ts : List Token) :
    weight folds (t :: ts) = nameWeight folds t.name + weight folds ts := by
  rw [weight, List.map_cons, List.sum_cons]
  rfl

theorem weight_le (folds : List Fold) (tokens : List Token) :
    weight folds tokens ≤ tokens.length * (2 * folds.length + 1) := by
  induction tokens with
  | nil => exact Nat.zero_le _
  | cons t ts ih =>
    have low := height_le folds t.name
    rw [weight_cons, nameWeight, List.length_cons, Nat.succ_mul]
    omega

/-- A single token that a fold replaces is rewritten. -/
theorem Replaces.renames {fold : Fold} {t : Token} (replaces : fold.Replaces [t]) :
    fold.Renames t.name fold.name := by
  cases fold with
  | alternation name terms =>
    obtain ⟨_, belongs, new⟩ := replaces
    have other : t.name ≠ name := fun same => new (congrArg (fun n => [n]) same)
    exact ⟨(belongs t List.mem_cons_self).resolve_left other, rfl, other⟩
  | concatenation name terms =>
    obtain ⟨_, new, names⟩ := replaces
    have other : t.name ≠ name := fun same => new (names.symm.trans (congrArg (fun n => [n]) same))
    exact ⟨names.symm, rfl, other⟩

/-- What replaces some tokens is lighter than they are. -/
theorem Acyclic.lighter (acyclic : Acyclic folds) {name : String} {part : List Token}
    (fit : Fits folds name part) : nameWeight folds name < weight folds part := by
  obtain ⟨fold, listed, rfl, replaces⟩ := fit
  match part with
  | [] => exact absurd rfl replaces.nonempty
  | [t] =>
    have falls := acyclic.height_lt ⟨fold, listed, replaces.renames⟩
    rw [weight_cons, nameWeight, nameWeight]
    omega
  | first :: second :: rest =>
    have low := height_le folds fold.name
    rw [weight_cons, weight_cons, nameWeight, nameWeight, nameWeight]
    omega

/-- Each combination takes off some weight. -/
theorem Combines.weight_add_le (named : ∀ n parts, (combine n parts).name = n)
    (acyclic : Acyclic folds) (combines : Combines combine (Fits folds) xs n ys) :
    weight folds ys + n ≤ weight folds xs := by
  induction combines with
  | none => exact Nat.le_refl _
  | one _ fit ih =>
    have lighter := acyclic.lighter fit
    rw [weight_append, weight_append] at ih
    rw [weight_append, weight_cons, named]
    omega

/-- Without a circle rounds end. -/
theorem Acyclic.settles (named : ∀ n parts, (combine n parts).name = n)
    (acyclic : Acyclic folds) (tokens : List Token) :
    ∃ n out, n ≤ weight folds tokens ∧ Settles combine folds n tokens out := by
  induction heavy : weight folds tokens using Nat.strong_induction_on generalizing tokens with
  | h most ih =>
    have round : Combines combine (Fits folds) tokens _ (applyEach combine folds tokens).1 :=
      round_combines folds tokens
    have lighter := round.weight_add_le named acyclic
    rw [heavy] at lighter
    by_cases made : (applyEach combine folds tokens).2 = 0
    · exact ⟨0, _, Nat.zero_le _, .stable made⟩
    · obtain ⟨n, out, few, later⟩ := ih _ (by omega) (applyEach combine folds tokens).1 rfl
      exact ⟨n + 1, out, by omega, .round made later⟩

end Fold

namespace FoldPlan

open Fold

variable {plan : FoldPlan} {g : Grammar} {combine : Combiner} {folds : List Fold}

/-- A step of a plan rewrites a name to another: an alternation each of the terms of its rule, a
concatenation the only term, to the name of the rule where that is different. -/
def Renames (plan : FoldPlan) (g : Grammar) (a b : String) : Prop :=
  ∃ step ∈ plan, ∃ fold, Fold.ofStep g step = .ok fold ∧ fold.Renames a b

theorem renames_iff (known : plan.folds g = .ok folds) {a b : String} :
    plan.Renames g a b ↔ Rewrites folds a b := by
  constructor
  · rintro ⟨step, inPlan, fold, made, renames⟩
    obtain ⟨fold', listed, made'⟩ := exists_of_mapM_eq_ok known inPlan
    cases made.symm.trans made'
    exact ⟨fold, listed, renames⟩
  · rintro ⟨fold, listed, renames⟩
    obtain ⟨step, inPlan, made⟩ := (mapM_eq_ok known).2 fold listed
    exact ⟨step, inPlan, fold, made, renames⟩

theorem acyclic_iff (known : plan.folds g = .ok folds) :
    (∀ a, ¬ Relation.TransGen (plan.Renames g) a a) ↔ Acyclic folds := by
  have same : plan.Renames g = Rewrites folds :=
    funext fun a => funext fun b => propext (renames_iff known)
  rw [same, Acyclic]

end FoldPlan

namespace Procedure

open Fold

/-- The names that are left when nothing is rewritten any more are below the others. -/
def foldWeight (n : String) : Nat := if n = "string_content" ∨ n = "array_items" then 1 else 2

theorem acyclic_standardFolds : Acyclic standardFolds := by
  refine acyclic_of_falling foldWeight ?_
  simp only [standardFolds, List.forall_mem_cons, Fold.Renames]
  simp [foldWeight, arrayItems]

end Procedure

namespace FoldPlan

open Fold

variable {plan : FoldPlan} {g : Grammar} {combine : Combiner}

/-- If no name is rewritten to itself in a circle, a run comes to an end on all tokens: it fails at
once if a step has no rule of its kind, and else gives what is left after so many rounds. The plan of
the procedure language has no such circle. -/
theorem run_stops (named : ∀ n parts, (combine n parts).name = n) :
    ((∀ a, ¬ Relation.TransGen (plan.Renames g) a a) → ∀ tokens : List Token,
      (∃ e, plan.folds g = .error e ∧ plan.run g combine tokens = .error e) ∨
      ∃ folds rounds out, plan.folds g = .ok folds ∧
        rounds ≤ tokens.length * (2 * plan.length + 1) ∧
        Settles combine folds rounds tokens out ∧ plan.run g combine tokens = .ok out) ∧
    ∀ l, Procedure.language = .ok l → ∀ a, ¬ Relation.TransGen (l.plan.Renames l.tokens) a a := by
  refine ⟨fun acyclic tokens => ?_, fun l built => ?_⟩
  · cases known : plan.folds g with
    | error e =>
      refine Or.inl ⟨e, rfl, ?_⟩
      rw [run, known]
      rfl
    | ok folds =>
      have settling := (acyclic_iff known).1 acyclic
      obtain ⟨rounds, out, few, settles⟩ := settling.settles named tokens
      have bound := weight_le folds tokens
      rw [length_folds known] at bound
      exact Or.inr ⟨folds, rounds, out, rfl, Nat.le_trans few bound, settles,
        (run_eq_ok_iff named known).2 ⟨rounds, settles⟩⟩
  · have standard := Procedure.isStandard_of_language built
    exact (acyclic_iff standard.folds).2 Procedure.acyclic_standardFolds

/-- With brackets, items and groups are rewritten to items, and those to nothing else. -/
theorem run_stops_brackets : ∃ g, brackets = .ok g ∧
    (∀ n parts, (combineLexemes n parts).name = n) ∧
    (∀ a, ¬ Relation.TransGen (bracketPlan.Renames g) a a) ∧
    ∀ tokens : List Token, ∃ folds rounds out, bracketPlan.folds g = .ok folds ∧
      rounds ≤ tokens.length * 5 ∧ Settles combineLexemes folds rounds tokens out ∧
      bracketPlan.run g combineLexemes tokens = .ok out := by
  have looks : brackets.toOption.any (fun g => decide (bracketPlan.folds g =
      .ok [.concatenation "group" ["open", "items", "close"],
        .alternation "items" ["a", "group"]])) = true := by decide +kernel
  obtain ⟨g, made, looks⟩ := exists_ok_of_any looks
  have known := of_decide_eq_true looks
  have acyclic : ∀ a, ¬ Relation.TransGen (bracketPlan.Renames g) a a := by
    refine (acyclic_iff known).2 (acyclic_of_falling (fun n => if n = "items" then 0 else 1) ?_)
    simp [Fold.Renames]
  have named : ∀ n parts, (combineLexemes n parts).name = n := fun _ _ => rfl
  refine ⟨g, made, named, acyclic, fun tokens => ?_⟩
  rcases (run_stops named).1 acyclic tokens with ⟨e, failed, _⟩ | stops
  · cases known.symm.trans failed
  · exact stops

end FoldPlan

end AttrGrammar
