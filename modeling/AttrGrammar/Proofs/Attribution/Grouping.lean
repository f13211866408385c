import AttrGrammar.Proofs.Attribution.Combining
import AttrGrammar.Proofs.Folding.Blocks

/-!
Attributes of folded tokens do not depend on how the tokens were folded.

However some tokens are combined into one, it is what they would be combined into at once. So a token
that a fold plan makes can be told from the tokens that it covers, attribute by attribute: no round
and no order of folds leaves a trace.
-/

namespace AttrGrammar.Attribution

open Fold

variable {g : Attribution} {block part : List Token} {t t' : Token} {n : Nat}

/-- A token made of a block of tokens by combining neighbours, at least once, in whatever order and
under whatever names. -/
def Grouped (g : Attribution) (block : List Token) (t : Token) : Prop :=
  ∃ n, Combines g.combine (fun _ _ => True) block (n + 1) [t]

/-- A token has the joined lexemes of a block, and the synthesized attributes that the policies give
for all tokens of the block at once. -/
structure Summarizes (g : Attribution) (block : List Token) (t : Token) : Prop where
  lexeme : t.lexeme = String.join (block.map (·.lexeme))
  first : ∀ a, g.foldPolicy a = .first →
    t.attrs.synthesized.get? a = block.findSome? fun u => u.attrs.synthesized.get? a
  concat : ∀ a, g.foldPolicy a = .concat →
    t.attrs.synthesized.get? a =
      if ∃ u ∈ block, has a u = true then some (.text (String.join (block.map (valueText a))))
      else none
  drop : ∀ a, g.foldPolicy a = .drop → t.attrs.synthesized.get? a = none

theorem combine_alone (g : Attribution) (n : String) (part : List Token) :
    g.combine n [g.combine n part] = g.combine n part := by
  have once := @combine_combine g n n [] part []
  rwa [List.nil_append, List.nil_append, List.append_nil] at once

/-- Combining in steps gives what combining at once gives. -/
theorem Grouped.eq_combine (grouped : g.Grouped block t) : t = g.combine t.name block := by
  obtain ⟨n, combines⟩ := grouped
  have same : ∀ m, g.combine m [t] = g.combine m block := by
    refine combines.keeps (P := fun us => ∀ m, g.combine m us = g.combine m block) ?_ fun _ => rfl
    intro before part after name _ same m
    exact combine_combine.trans (same m)
  obtain ⟨empty, _⟩ | ⟨name, part, _, rfl⟩ := combines.last
  · exact absurd empty (Nat.succ_ne_zero n)
  · exact (g.combine_alone name part).symm.trans (same name)

theorem summarizes_combine (g : Attribution) (name : String) (block : List Token) :
    g.Summarizes block (g.combine name block) := by
  have any : ∀ a, (block.any fun u => (u.attrs.synthesized.get? a).isSome) = true ↔
      ∃ u ∈ block, has a u = true := fun a => List.any_eq_true
  refine ⟨rfl, fun a policy => findSome?_combine policy, fun a policy => ?_, fun a policy => ?_⟩
  · rw [get?_combine, foldedValue?, policy]
    by_cases known : ∃ u ∈ block, has a u = true
    · rw [if_pos known, if_pos ((any a).2 known)]
      rfl
    · rw [if_neg known, if_neg fun found => known ((any a).1 found)]
  · rw [get?_combine, foldedValue?, policy]
    split <;> rfl

theorem Grouped.summarizes (grouped : g.Grouped block t) : g.Summarizes block t := by
  rw [grouped.eq_combine]
  exact g.summarizes_combine t.name block

/-- Two ways to combine the same tokens into one give the same attributes and the same lexeme. -/
theorem Grouped.unique (grouped : g.Grouped block t) (grouped' : g.Grouped block t') :
    t'.attrs = t.attrs ∧ t'.lexeme = t.lexeme := by
  rw [grouped.eq_combine, grouped'.eq_combine]
  exact ⟨rfl, rfl⟩

/-- A token comes of a block of tokens by a number of folds. If there was any, it has the values that
the policies give for the block at once, and any other way to combine the block into one token gives
the same. -/
def Covers (g : Attribution) (folds : List Fold) (block : List Token) (t : Token) : Prop :=
  ∃ n, Combines g.combine (Fits folds) block n [t] ∧
    (n ≠ 0 → g.Summarizes block t ∧
      ∀ t', g.Grouped block t' → t'.attrs = t.attrs ∧ t'.lexeme = t.lexeme)

theorem covers_of_makes {folds : List Fold} (makes : Makes g.combine (Fits folds) block t) :
    g.Covers folds block t := by
  obtain ⟨n, combines⟩ := makes
  refine ⟨n, combines, fun positive => ?_⟩
  obtain ⟨n, rfl⟩ := Nat.exists_eq_succ_of_ne_zero positive
  have grouped : g.Grouped block t := ⟨n, combines.mono fun _ _ _ => trivial⟩
  exact ⟨grouped.summarizes, fun t' grouped' => grouped.unique grouped'⟩

/-- The tokens that a run gives cover blocks of the tokens at first, side by side. -/
theorem covers_of_run {grammar : Grammar} {plan : FoldPlan} {tokens out : List Token}
    (done : plan.run grammar g.combine tokens = .ok out) :
    ∃ folds blocks, plan.folds grammar = .ok folds ∧ blocks.flatten = tokens ∧
      List.Forall₂ (g.Covers folds) blocks out := by
  obtain ⟨folds, known⟩ := FoldPlan.folds_of_run done
  obtain ⟨_, settles⟩ := (FoldPlan.run_eq_ok_iff g.joins_combine.name known).1 done
  obtain ⟨_, combines⟩ := settles.combines
  obtain ⟨blocks, whole, made⟩ := combines.blocks
  exact ⟨folds, blocks, known, whole, made.imp fun _ _ => covers_of_makes⟩

/-- Keeps the first line, joins what is rendered and drops indentation. -/
def bracketAttribution : Attribution where
  name := "brackets"
  language := default
  decls := [
    { attr := .line, kind := .synthesized },
    { attr := .render, kind := .synthesized, fold := .concat },
    { attr := .indent, kind := .synthesized, fold := .drop }]

def attributedTokens : List Token :=
  [⟨"open", "[", {}⟩, ⟨"a", "1", { synthesized := { line := some (.int 1) } }⟩, ⟨"open", "[", {}⟩,
    ⟨"a", "2", { synthesized :=
      { line := some (.int 2), indent := some (.int 2), render := some (.text "two") } }⟩,
    ⟨"close", "]", {}⟩, ⟨"close", "]", {}⟩, ⟨"close", "]", { synthesized := { indent := some (.int 0) } }⟩]

/-- Only one of the tokens in brackets has a rendering. The lexemes of its neighbours are joined
around it, on one level of brackets after the other. -/
theorem covers_of_run_brackets : ∃ grammar, FoldPlan.brackets = .ok grammar ∧
    ∃ out, FoldPlan.bracketPlan.run grammar bracketAttribution.combine attributedTokens = .ok out ∧
      out = [⟨"items", "[1[2]]", { synthesized :=
          { line := some (.int 1), render := some (.text "[1[two]]") } }⟩,
        ⟨"close", "]", { synthesized := { indent := some (.int 0) } }⟩] ∧
      ∃ folds blocks, FoldPlan.bracketPlan.folds grammar = .ok folds ∧
        blocks.flatten = attributedTokens ∧
        List.Forall₂ (bracketAttribution.Covers folds) blocks out := by
  have runs : FoldPlan.brackets.toOption.any (fun grammar =>
      decide (FoldPlan.bracketPlan.run grammar bracketAttribution.combine attributedTokens =
        .ok [⟨"items", "[1[2]]", { synthesized :=
            { line := some (.int 1), render := some (.text "[1[two]]") } }⟩,
          ⟨"close", "]", { synthesized := { indent := some (.int 0) } }⟩])) = true := by decide +kernel
  obtain ⟨grammar, made, runs⟩ := exists_ok_of_any runs
  have done := of_decide_eq_true runs
  exact ⟨grammar, made, _, done, rfl, covers_of_run done⟩

end AttrGrammar.Attribution
