import AttrGrammar.Folding
import AttrGrammar.Proofs.Outcome
import AttrGrammar.Proofs.Parsing.Erasure

/-!
What is folded depends on names only.

A map of tokens that keeps names can be applied before folding or after it, if the combiners agree
about it. So what tokens hold besides their names has no say in which folds are made.
-/

namespace AttrGrammar

namespace Fold

/-- A map that keeps the names of tokens takes what one combiner makes to what another one makes. -/
structure Mirrors (f : Token → Token) (combine combine' : Combiner) : Prop where
  name : ∀ t, (f t).name = t.name
  combine : ∀ n parts, f (combine n parts) = combine' n (parts.map f)

/-- The result of folding with its tokens mapped. -/
def mapResult (f : Token → Token) (result : List Token × Nat) : List Token × Nat :=
  (result.1.map f, result.2)

namespace Mirrors

variable {f : Token → Token} {combine combine' : Combiner} {name : String}

theorem names (mirrors : Mirrors f combine combine') (tokens : List Token) :
    (tokens.map f).map (·.name) = tokens.map (·.name) := by
  rw [List.map_map]
  exact List.map_congr_left fun t _ => mirrors.name t

theorem closeRun (mirrors : Mirrors f combine combine') (run : List Token) :
    closeRun combine' name (run.map f) = mapResult f (closeRun combine name run) := by
  match run with
  | [] => rfl
  | [only] =>
    change (if (f only).name = name then _ else _) = mapResult f (if only.name = name then _ else _)
    rw [mirrors.name]
    split
    · rfl
    · exact congrArg (fun token => ([token], 1)) (mirrors.combine name [only]).symm
  | first :: second :: rest =>
    exact congrArg (fun token => ([token], 1)) (mirrors.combine name (first :: second :: rest)).symm

theorem foldRuns (mirrors : Mirrors f combine combine') {belongs : Token → Bool}
    (blind : ∀ t, belongs (f t) = belongs t) (run tokens : List Token) :
    foldRuns combine' name belongs (run.map f) (tokens.map f) =
      mapResult f (foldRuns combine name belongs run tokens) := by
  induction tokens generalizing run with
  | nil => exact mirrors.closeRun run
  | cons token rest ih =>
    rw [List.map_cons, Fold.foldRuns, Fold.foldRuns, blind]
    split
    · rw [← ih, List.map_append]
      rfl
    · have after := ih []
      rw [List.map_nil] at after
      rw [mirrors.closeRun, after]
      simp only [mapResult, List.map_append, List.map_cons]

theorem beginsWith (mirrors : Mirrors f combine combine') (terms : List String)
    (tokens : List Token) : beginsWith terms (tokens.map f) = beginsWith terms tokens := by
  induction terms generalizing tokens with
  | nil => cases tokens <;> rfl
  | cons term terms ih =>
    cases tokens with
    | nil => rfl
    | cons token rest =>
      rw [List.map_cons, Fold.beginsWith, Fold.beginsWith, mirrors.name, ih]

theorem foldStretches (mirrors : Mirrors f combine combine') {terms : List String}
    (tokens : List Token) :
    foldStretches combine' name terms (tokens.map f) =
      mapResult f (foldStretches combine name terms tokens) := by
  fun_induction Fold.foldStretches combine name terms tokens with
  | case1 => rw [List.map_nil, Fold.foldStretches]; rfl
  | case2 token rest begins part after more folded ih =>
    have begins' := (mirrors.beginsWith terms (token :: rest)).trans begins
    rw [List.map_cons] at begins' ⊢
    rw [Fold.foldStretches, if_pos begins', ← List.map_drop, ih, folded, ← List.map_take,
      ← List.map_cons]
    dsimp only
    rw [← mirrors.combine]
    rfl
  | case3 token rest other after more folded ih =>
    have other' := (mirrors.beginsWith terms (token :: rest)).symm ▸ other
    rw [List.map_cons] at other' ⊢
    rw [Fold.foldStretches, if_neg other', ih, folded]
    rfl

theorem apply (mirrors : Mirrors f combine combine') (fold : Fold) (tokens : List Token) :
    fold.apply combine' (tokens.map f) = mapResult f (fold.apply combine tokens) := by
  cases fold with
  | alternation name terms =>
    exact mirrors.foldRuns (fun t => by simp only [mirrors.name]) [] tokens
  | concatenation name terms =>
    rw [Fold.apply, Fold.apply]
    split
    · rfl
    · exact mirrors.foldStretches tokens

theorem applyEach (mirrors : Mirrors f combine combine') (folds : List Fold)
    (tokens : List Token) :
    applyEach combine' folds (tokens.map f) = mapResult f (applyEach combine folds tokens) := by
  induction folds generalizing tokens with
  | nil => rfl
  | cons fold rest ih =>
    rw [Fold.applyEach, Fold.applyEach, mirrors.apply]
    simp only [mapResult, ih]

theorem settle (mirrors : Mirrors f combine combine') (folds : List Fold) (rounds : Nat)
    (mark : List String) (span left : Nat) (tokens : List Token) :
    settle combine' folds rounds mark span left (tokens.map f) =
      (settle combine folds rounds mark span left tokens).map (List.map f) := by
  induction rounds generalizing mark span left tokens with
  | zero => rfl
  | succ rounds ih =>
    rw [Fold.settle, Fold.settle, mirrors.applyEach]
    simp only [mapResult, mirrors.names]
    split
    · rfl
    · split
      · rfl
      · split <;> exact ih ..

theorem run (mirrors : Mirrors f combine combine') (plan : FoldPlan) (g : Grammar)
    (tokens : List Token) :
    plan.run g combine' (tokens.map f) = (plan.run g combine tokens).map (List.map f) := by
  have limit : plan.roundLimit (tokens.map f) = plan.roundLimit tokens := by
    rw [FoldPlan.roundLimit, FoldPlan.roundLimit, List.length_map]
  rw [FoldPlan.run, FoldPlan.run, mirrors.names, limit]
  cases plan.folds g with
  | error e => rfl
  | ok folds =>
    rw [except_ok_bind, except_ok_bind, mirrors.settle]
    cases Fold.settle combine folds (plan.roundLimit tokens) (tokens.map (·.name)) 1 1 tokens <;> rfl

end Mirrors

/-- Joins lexemes and keeps no attributes. -/
def plainCombiner : Combiner := fun name parts => { name, lexeme := Token.joinLexemes parts }

/-- Gives the new token its name and the joined lexemes. -/
def Joins (combine : Combiner) : Prop :=
  ∀ name parts, (combine name parts).bare = plainCombiner name parts

theorem joins_combineLexemes : Joins combineLexemes := fun _ _ => rfl

namespace Joins

variable {combine : Combiner}

theorem name (joins : Joins combine) (n : String) (parts : List Token) : (combine n parts).name = n :=
  congrArg Token.name (joins n parts)

theorem lexeme (joins : Joins combine) (n : String) (parts : List Token) :
    (combine n parts).lexeme = Token.joinLexemes parts :=
  congrArg Token.lexeme (joins n parts)

theorem mirrors (joins : Joins combine) : Mirrors Token.bare combine plainCombiner := by
  refine ⟨fun _ => rfl, fun n parts => ?_⟩
  rw [joins, plainCombiner, plainCombiner, Token.joinLexemes, Token.joinLexemes, List.map_map]
  rfl

end Joins

/-- A token that holds nothing but its name. -/
def nameOnly (t : Token) : Token := { name := t.name, lexeme := "" }

theorem mirrors_nameOnly {combine : Combiner} (named : ∀ n parts, (combine n parts).name = n) :
    Mirrors nameOnly combine fun name _ => { name, lexeme := "" } := by
  refine ⟨fun _ => rfl, fun n parts => ?_⟩
  rw [nameOnly, named]

/-- A round makes the same folds of tokens that have the same names. -/
theorem applyEach_names {combine : Combiner} (named : ∀ n parts, (combine n parts).name = n)
    (folds : List Fold) {xs ys : List Token} (same : xs.map (·.name) = ys.map (·.name)) :
    (applyEach combine folds xs).1.map (·.name) = (applyEach combine folds ys).1.map (·.name) ∧
      (applyEach combine folds xs).2 = (applyEach combine folds ys).2 := by
  have mirrors := mirrors_nameOnly named
  have bare : xs.map nameOnly = ys.map nameOnly := by
    have lifted := congrArg (List.map fun name => ({ name, lexeme := "" } : Token)) same
    rwa [List.map_map, List.map_map] at lifted
  have folded : mapResult nameOnly (applyEach combine folds xs) =
      mapResult nameOnly (applyEach combine folds ys) := by
    rw [← mirrors.applyEach, ← mirrors.applyEach, bare]
  obtain ⟨tokens, count⟩ := Prod.mk.inj folded
  refine ⟨?_, count⟩
  rw [← mirrors.names, tokens, mirrors.names]

end Fold

end AttrGrammar
