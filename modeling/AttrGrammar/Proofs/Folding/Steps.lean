import AttrGrammar.Proofs.Folding
import Mathlib.Data.List.Forall2

/-!
Folding, one replacement after the other.

Whatever is folded by, and in whatever rounds, what happens is that a few neighbouring tokens are
combined into one, again and again. So what holds of any such sequence of combinations holds of all
folding. In particular each token in the end comes of a block of neighbouring ones, and the blocks
lie side by side.
-/

namespace AttrGrammar.Fold

variable {combine : Combiner} {fits : String → List Token → Prop} {xs ys zs : List Token} {n m : Nat}

/-- `ys` comes of `xs` by a number of combinations, each of neighbouring tokens that fit the new name. -/
inductive Combines (combine : Combiner) (fits : String → List Token → Prop) (xs : List Token) :
    Nat → List Token → Prop
  | none : Combines combine fits xs 0 xs
  | one {n : Nat} {before part after : List Token} {name : String}
      (earlier : Combines combine fits xs n (before ++ (part ++ after))) (fit : fits name part) :
      Combines combine fits xs (n + 1) (before ++ combine name part :: after)

/-- A token comes of some neighbouring ones. -/
def Makes (combine : Combiner) (fits : String → List Token → Prop) (block : List Token) (t : Token) :
    Prop :=
  ∃ n, Combines combine fits block n [t]

namespace Combines

theorem atFront {part after : List Token} {name : String}
    (earlier : Combines combine fits xs n (part ++ after)) (fit : fits name part) :
    Combines combine fits xs (n + 1) (combine name part :: after) :=
  @one combine fits xs n [] part after name earlier fit

theorem trans (first : Combines combine fits xs n ys) (second : Combines combine fits ys m zs) :
    Combines combine fits xs (n + m) zs := by
  induction second with
  | none => exact first
  | one _ fit ih => exact ih.one fit

/-- Other tokens before and after do not matter. -/
theorem within (combines : Combines combine fits xs n ys) (before after : List Token) :
    Combines combine fits (before ++ (xs ++ after)) n (before ++ (ys ++ after)) := by
  induction combines with
  | none => exact .none
  | @one n left part right name _ fit ih =>
    have regrouped : before ++ ((left ++ (part ++ right)) ++ after) =
        (before ++ left) ++ (part ++ (right ++ after)) := by
      simp only [List.append_assoc]
    rw [regrouped] at ih
    have combined := ih.one fit
    rwa [List.append_assoc, ← List.cons_append, ← List.append_assoc left] at combined

theorem cons (combines : Combines combine fits xs n ys) (t : Token) :
    Combines combine fits (t :: xs) n (t :: ys) := by
  have around := combines.within [t] []
  rwa [List.append_nil, List.append_nil] at around

theorem append {xs' ys' : List Token} (first : Combines combine fits xs n ys)
    (second : Combines combine fits xs' m ys') :
    Combines combine fits (xs ++ xs') (n + m) (ys ++ ys') := by
  have left := first.within [] xs'
  have right := second.within ys []
  rw [List.append_nil, List.append_nil] at right
  exact left.trans right

theorem mono {fits' : String → List Token → Prop} (combines : Combines combine fits xs n ys)
    (weaker : ∀ name part, fits name part → fits' name part) : Combines combine fits' xs n ys := by
  induction combines with
  | none => exact .none
  | one _ fit ih => exact ih.one (weaker _ _ fit)

/-- What every combination keeps holds in the end. -/
theorem keeps {P : List Token → Prop} (combines : Combines combine fits xs n ys)
    (kept : ∀ before part after name, fits name part → P (before ++ (part ++ after)) →
      P (before ++ combine name part :: after)) (holds : P xs) : P ys := by
  induction combines with
  | none => exact holds
  | one _ fit ih => exact kept _ _ _ _ fit ih

/-- A token in the end was there before, or is what some tokens were combined into. -/
theorem last {t : Token} (combines : Combines combine fits xs n [t]) :
    n = 0 ∧ xs = [t] ∨ ∃ name part, fits name part ∧ t = combine name part := by
  generalize single : [t] = ts at combines
  cases combines with
  | none => exact Or.inl ⟨rfl, rfl⟩
  | @one n before part after name _ fit =>
    cases before with
    | nil => exact Or.inr ⟨name, part, fit, (List.cons.inj single).1⟩
    | cons => simp at single

/-- A combination has the lexemes of what it is made of. -/
theorem joinLexemes_eq (joins : ∀ name parts, (combine name parts).lexeme = Token.joinLexemes parts)
    (combines : Combines combine fits xs n ys) : Token.joinLexemes ys = Token.joinLexemes xs := by
  refine combines.keeps (P := fun us => Token.joinLexemes us = Token.joinLexemes xs) ?_ rfl
  intro before part after name _ same
  rw [← same]
  simp only [Token.joinLexemes, List.map_append, List.map_cons, String.join_append,
    String.join_cons, joins]

/-- Without a combination nothing changes. -/
theorem unchanged (combines : Combines combine fits xs 0 ys) : ys = xs := by
  cases combines
  rfl

theorem length_le (visible : ∀ name part, fits name part → part ≠ [])
    (combines : Combines combine fits xs n ys) : ys.length ≤ xs.length := by
  refine combines.keeps (P := fun us => us.length ≤ xs.length) ?_ (Nat.le_refl _)
  intro before part after name fit shorter
  have nonempty := List.length_pos_iff.2 (visible name part fit)
  simp only [List.length_append, List.length_cons] at shorter ⊢
  omega

theorem exists_of_forall₂_append {α β : Type} {R : α → β → Prop} {as : List α} {bs cs : List β}
    (all : List.Forall₂ R as (bs ++ cs)) :
    ∃ first others, as = first ++ others ∧ List.Forall₂ R first bs ∧ List.Forall₂ R others cs :=
  ⟨_, _, (List.take_append_drop bs.length as).symm, List.forall₂_take_append _ _ _ all,
    List.forall₂_drop_append _ _ _ all⟩

/-- Blocks side by side are combined each by itself. -/
theorem of_blocks {blocks : List (List Token)} (made : List.Forall₂ (Makes combine fits) blocks ys) :
    ∃ n, Combines combine fits blocks.flatten n ys := by
  induction made with
  | nil => exact ⟨0, .none⟩
  | cons first _ ih =>
    obtain ⟨n, first⟩ := first
    obtain ⟨m, others⟩ := ih
    exact ⟨n + m, first.append others⟩

/-- The tokens in the end come of blocks of the tokens at first, which lie side by side. -/
theorem blocks (combines : Combines combine fits xs n ys) :
    ∃ blocks, blocks.flatten = xs ∧ List.Forall₂ (Makes combine fits) blocks ys := by
  induction combines with
  | none =>
    refine ⟨xs.map fun t => [t], ?_, ?_⟩
    · rw [← List.flatMap_def, List.flatMap_singleton']
    · exact List.forall₂_map_left_iff.2 (List.forall₂_same.2 fun t _ => ⟨0, .none⟩)
  | @one n before part after name _ fit ih =>
    obtain ⟨blocks, rfl, made⟩ := ih
    obtain ⟨first, others, rfl, madeBefore, made⟩ := exists_of_forall₂_append made
    obtain ⟨middle, others, rfl, madePart, madeAfter⟩ := exists_of_forall₂_append made
    -- The blocks that the part comes of become one.
    obtain ⟨k, combined⟩ := of_blocks madePart
    have whole : Combines combine fits middle.flatten k (part ++ []) := by
      rwa [List.append_nil]
    refine ⟨first ++ middle.flatten :: others, by simp, ?_⟩
    exact List.rel_append madeBefore (.cons ⟨k + 1, whole.atFront fit⟩ madeAfter)

end Combines

/-- The name that a fold gives. -/
def name : Fold → String
  | alternation name _ | concatenation name _ => name

/-- Neighbouring tokens that a fold puts one token in place of. -/
def Replaces : Fold → List Token → Prop
  | alternation name terms, part =>
    part ≠ [] ∧ (∀ t ∈ part, t.name = name ∨ t.name ∈ terms) ∧ part.map (·.name) ≠ [name]
  | concatenation name terms, part => terms ≠ [] ∧ terms ≠ [name] ∧ part.map (·.name) = terms

/-- Tokens that one of some folds puts a token of a name in place of. -/
def Fits (folds : List Fold) (name : String) (part : List Token) : Prop :=
  ∃ fold ∈ folds, fold.name = name ∧ fold.Replaces part

theorem Replaces.nonempty {fold : Fold} {part : List Token} (replaces : fold.Replaces part) :
    part ≠ [] := by
  cases fold with
  | alternation name terms => exact replaces.1
  | concatenation name terms =>
    rintro rfl
    exact replaces.1 replaces.2.2.symm

theorem Fits.nonempty {folds : List Fold} (name : String) (part : List Token)
    (fits : Fits folds name part) : part ≠ [] := by
  obtain ⟨_, _, _, replaces⟩ := fits
  exact replaces.nonempty

section

variable {name : String} {terms : List String} {belongs : Token → Bool}

theorem foldStretches_combines (visible : terms ≠ [])
    (fit : ∀ part : List Token, part.map (·.name) = terms → fits name part) : ∀ tokens : List Token,
    Combines combine fits tokens (foldStretches combine name terms tokens).2
      (foldStretches combine name terms tokens).1
  | [] => by
    rw [foldStretches]
    exact .none
  | token :: rest => by
    rcases @foldStretches_cases combine name terms visible token rest with
      ⟨part, others, same, names, folded⟩ | ⟨_, folded⟩
    · have shorter := length_lt_of_names visible same names
      have later := (foldStretches_combines visible fit others).within part []
      rw [List.append_nil, List.append_nil] at later
      rw [folded, same]
      exact later.atFront (fit part names)
    · rw [folded]
      exact (foldStretches_combines visible fit rest).cons token
termination_by tokens => tokens.length
decreasing_by
  · exact shorter
  · exact Nat.lt_succ_self _

theorem closeRun_combines {run : List Token}
    (fit : run ≠ [] → run.map (·.name) ≠ [name] → fits name run) :
    Combines combine fits run (closeRun combine name run).2 (closeRun combine name run).1 := by
  have whole : run ≠ [] → run.map (·.name) ≠ [name] →
      Combines combine fits run 1 [combine name run] := by
    intro nonempty new
    have start : Combines combine fits run 0 (run ++ []) := by
      rw [List.append_nil]
      exact .none
    exact start.atFront (fit nonempty new)
  unfold closeRun
  split
  · exact .none
  · next only =>
    split
    · exact .none
    · next other => exact whole (by simp) (by simpa using other)
  · next nonempty many =>
    refine whole nonempty fun single => ?_
    obtain ⟨only, rfl, _⟩ := List.map_eq_singleton_iff.1 single
    exact many only rfl

theorem foldRuns_combines (fit : ∀ part : List Token, part ≠ [] → (∀ t ∈ part, belongs t = true) →
      part.map (·.name) ≠ [name] → fits name part) :
    ∀ tokens run : List Token, (∀ t ∈ run, belongs t = true) →
      Combines combine fits (run ++ tokens) (foldRuns combine name belongs run tokens).2
        (foldRuns combine name belongs run tokens).1
  | [], run, inside => by
    rw [List.append_nil]
    exact closeRun_combines fun nonempty new => fit run nonempty inside new
  | token :: rest, run, inside => by
    rw [foldRuns]
    split
    · next member =>
      have extended : ∀ t ∈ run ++ [token], belongs t = true := by
        intro t found
        rcases List.mem_append.1 found with found | found
        · exact inside t found
        · rw [List.mem_singleton.1 found]
          exact member
      have later := foldRuns_combines fit rest (run ++ [token]) extended
      rwa [List.append_assoc] at later
    · have closed : Combines combine fits run (closeRun combine name run).2 _ :=
        closeRun_combines fun nonempty new => fit run nonempty inside new
      exact closed.append ((foldRuns_combines fit rest [] (List.forall_mem_nil _)).cons token)

end

/-- A fold makes as many combinations as it counts. -/
theorem apply_combines {folds : List Fold} {fold : Fold} (listed : fold ∈ folds)
    (tokens : List Token) : Combines combine (Fits folds) tokens (fold.apply combine tokens).2
      (fold.apply combine tokens).1 := by
  cases fold with
  | alternation name terms =>
    refine foldRuns_combines (fun part nonempty belongs new => ?_) tokens [] (List.forall_mem_nil _)
    refine ⟨_, listed, rfl, nonempty, fun t member => ?_, new⟩
    simpa using belongs t member
  | concatenation name terms =>
    rw [apply]
    split
    · exact .none
    · next proper =>
      rw [Bool.or_eq_true, List.isEmpty_iff, beq_iff_eq, not_or] at proper
      exact foldStretches_combines proper.1
        (fun part names => ⟨_, listed, rfl, proper.1, proper.2, names⟩) tokens

theorem applyEach_combines {folds all : List Fold} (listed : ∀ fold ∈ folds, fold ∈ all)
    (tokens : List Token) : Combines combine (Fits all) tokens (applyEach combine folds tokens).2
      (applyEach combine folds tokens).1 := by
  induction folds generalizing tokens with
  | nil => exact .none
  | cons fold folds ih =>
    have first : Combines combine (Fits all) tokens _ (fold.apply combine tokens).1 :=
      apply_combines (listed fold List.mem_cons_self) tokens
    exact first.trans (ih (fun other member => listed other (List.mem_cons_of_mem fold member)) _)

/-- A fold that makes nothing changes nothing. -/
theorem apply_stuck {fold : Fold} {tokens : List Token} (stuck : (fold.apply combine tokens).2 = 0) :
    (fold.apply combine tokens).1 = tokens := by
  have combines : Combines combine (Fits [fold]) tokens _ (fold.apply combine tokens).1 :=
    apply_combines (List.mem_singleton_self fold) tokens
  rw [stuck] at combines
  exact combines.unchanged

/-- A round that makes nothing changes nothing and leaves nothing to any of its folds. -/
theorem applyEach_stuck {folds : List Fold} {tokens : List Token}
    (stuck : (applyEach combine folds tokens).2 = 0) :
    (applyEach combine folds tokens).1 = tokens ∧
      ∀ fold ∈ folds, (fold.apply combine tokens).2 = 0 := by
  induction folds with
  | nil => exact ⟨rfl, List.forall_mem_nil _⟩
  | cons fold folds ih =>
    change (fold.apply combine tokens).2 +
      (applyEach combine folds (fold.apply combine tokens).1).2 = 0 at stuck
    have first : (fold.apply combine tokens).2 = 0 := by omega
    have unchanged := apply_stuck first
    rw [unchanged] at stuck
    obtain ⟨same, others⟩ := ih (by omega)
    refine ⟨?_, List.forall_mem_cons.2 ⟨first, others⟩⟩
    show (applyEach combine folds (fold.apply combine tokens).1).1 = tokens
    rw [unchanged, same]

/-- Folds that have nothing to do make nothing one after the other. -/
theorem applyEach_of_stuck {folds : List Fold} {tokens : List Token}
    (stuck : ∀ fold ∈ folds, (fold.apply combine tokens).2 = 0) :
    (applyEach combine folds tokens).2 = 0 := by
  induction folds with
  | nil => rfl
  | cons fold folds ih =>
    obtain ⟨first, others⟩ := List.forall_mem_cons.1 stuck
    show (fold.apply combine tokens).2 +
      (applyEach combine folds (fold.apply combine tokens).1).2 = 0
    rw [first, apply_stuck first, ih others]

/-- A round makes as many combinations as it counts. -/
theorem round_combines (folds : List Fold) (tokens : List Token) :
    Combines combine (Fits folds) tokens (applyEach combine folds tokens).2
      (applyEach combine folds tokens).1 :=
  applyEach_combines (fun _ listed => listed) tokens

end AttrGrammar.Fold
