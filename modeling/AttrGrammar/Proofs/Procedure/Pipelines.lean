import AttrGrammar.Procedure.Stage
import AttrGrammar.Proofs.Procedure.RoundTrip

/-!
The pipelines do what the functions do that take the same steps.

Stage by stage they are the same, but for one thing: compiling stops at an object without members,
for which a pipeline takes all steps. They succeed there whatever is declared, since the blanks around
the braces leave no token, and no name is bound by the one node that is left of the tree.
-/

namespace AttrGrammar.Procedure

open Json (Blanks Written Items Members)
open Forest

variable {g : Attribution} {l : Language} {source : String}

theorem lexing_run (g : Attribution) (source : String) :
    (Compilation.lexing g).run source =
      ((checkInput source).mapError .input >>= fun _ => tokenize source g) := by
  have steps : (Compilation.lexing g).run source =
      (((Stage.inputCheck.run source >>= (Stage.tokenization g).run) >>= (Stage.folding g).run) >>=
        (Stage.specialFormCheck g).run) := rfl
  rw [steps]
  simp only [Stage.inputCheck, Stage.tokenization, Stage.folding, Stage.specialFormCheck, tokenize,
    except_map_eq_bind, bind_assoc, except_ok_bind]

/-- What follows the check of the input in the steps to a symbol table. -/
def analyzed (g : Attribution) (source : String) : Except CompileError (ParseTree × SymbolTable) := do
  let tokens ← tokenize source g
  let tree ← parse g tokens
  let simplified ← (simplified tree).mapError .tree
  let tree := g.evaluate simplified
  let symbols ← (symbolsOf tree).mapError .semantic
  .ok (tree, symbols)

theorem toSymbols_run (g : Attribution) (source : String) :
    (Compilation.toSymbols g).run source =
      ((checkInput source).mapError .input >>= fun _ =>
        (analyzed (withScope g) source).map Prod.snd) := by
  have steps : (Compilation.toSymbols g).run source =
      ((((Compilation.lexing (withScope g)).run source >>= parse (withScope g)) >>=
        Stage.astSimplification.run) >>= (Stage.evaluation (withScope g)).run) >>=
          Stage.semanticAnalysis.run := rfl
  rw [steps, lexing_run]
  simp only [Stage.astSimplification, Stage.evaluation, Stage.semanticAnalysis, analyzed,
    except_map_eq_bind, bind_assoc, except_ok_bind, except_bind_ok]

theorem compile_eq_analyzed (checked : checkInput source = .ok .program) :
    compile source g = (analyzed (withScope g) source).map fun result =>
      some { source, tree := result.1, symbols := result.2 } := by
  have accepted : (checkInput source).mapError CompileError.input = .ok .program := by
    rw [checked]
    rfl
  simp only [compile, accepted, analyzed, except_map_eq_bind, bind_assoc, except_ok_bind]

theorem toText_run (g : Attribution) (layout : Layout) (source : String) :
    (Compilation.toText g layout).run source =
      ((checkInput source).mapError .input >>= fun _ =>
        tokenize source (withRender g layout) >>= fun tokens =>
          parse (withRender g layout) tokens >>= fun tree =>
            rootText ((withRender g layout).evaluate tree)) := by
  have steps : (Compilation.toText g layout).run source =
      (((Compilation.lexing (withRender g layout)).run source >>= parse (withRender g layout)) >>=
        (Stage.evaluation (withRender g layout)).run) >>= rootText := rfl
  rw [steps, lexing_run]
  simp only [Stage.evaluation, bind_assoc, except_ok_bind]

/-- One node that is no bind and no special form brings in no names. -/
theorem symbolsOf_empty (g : Attribution) {token : Token}
    (named : token.name = Construct.emptyObject.name) {t : ParseTree} {f : Planted}
    (rooted : t.Rooted f) (labels : f.map Prod.snd = leaf token) :
    symbolsOf (g.evaluate t) = .ok ∅ := by
  have same := Attribution.sameShape_evaluate g t
  have rooted' := same.rooted rooted
  have bare' := (g.evaluate t).bare_relabel f
  rw [labels] at bare'
  generalize (g.evaluate t).relabel f = f' at rooted' bare'
  obtain ⟨id, attrs, below, rfl, inside⟩ := tree_of_bare bare'
  obtain rfl := nil_of_bare inside
  generalize g.evaluate t = u at *
  obtain ⟨atRoot, -, -⟩ := rooted'.held
  have settled : ∀ j ∈ [id], Settled u j :=
    List.forall_mem_singleton.2 (settled_of_name atRoot (c := .emptyObject) named (by decide))
  obtain ⟨values, found, -⟩ := valuesOf_ok rooted' settled
  have order : u.preOrder = [id] := rooted'.preOrder_eq
  rw [symbolsOf, found]
  change u.preOrder.foldlM (Procedure.bindNode u values) ∅ = _
  rw [order, List.foldlM_cons, bindNode_skip (c := .emptyObject) ∅ atRoot named (by decide)]
  rfl

theorem analyzed_empty (standard : IsStandard g.language) (checked : checkInput source = .ok .empty) :
    ∃ tree, analyzed g source = .ok (tree, ∅) := by
  obtain ⟨lead, trail, gap, members, same, -, -, kind⟩ := written_of_checkInput checked
  cases members with
  | cons => cases kind
  | nil =>
    have wellFormed : (programOf g (startOf lead) gap .nil).WellFormed :=
      valueToken_name g 0 (startOf lead) (.object gap .nil)
    obtain ⟨tokens, built⟩ := parse_program standard same rfl wellFormed
    obtain ⟨simple, f, simplifies, rooted, labels⟩ := simplified_tree wellFormed
    have nothing := symbolsOf_empty g wellFormed rooted labels
    generalize programOf g (startOf lead) gap .nil = o at *
    refine ⟨g.evaluate simple, ?_⟩
    rw [analyzed, tokens]
    change parse g o.tokens >>= _ = _
    rw [built]
    change (simplified o.tree).mapError CompileError.tree >>= _ = _
    rw [simplifies]
    change (symbolsOf (g.evaluate simple)).mapError CompileError.semantic >>= _ = _
    rw [nothing]
    rfl

theorem language_withScope (g : Attribution) : (withScope g).language = g.language := by
  unfold withScope
  split <;> rfl

/-- The pipelines agree with the functions: scanning and folding after the check, the symbol table of
compiling, which is empty for an object without members, and rendering. -/
theorem pipelines_agree (built : language = .ok l) (speaks : g.language = l) (source : String)
    (layout : Layout) :
    (Compilation.lexing g).run source =
      ((checkInput source).mapError .input >>= fun _ => tokenize source g) ∧
    (Compilation.toSymbols g).run source =
      (compile source g).map (fun env => (env.map Environment.symbols).getD ∅) ∧
    (g.declares .render = true ∨ layout = {} →
      (Compilation.toText g layout).run source = render source g) := by
  refine ⟨lexing_run g source, ?_, fun renders => ?_⟩
  · rw [toSymbols_run]
    cases checked : checkInput source with
    | error e =>
      rw [compile, checked]
      rfl
    | ok kind =>
      change (analyzed (withScope g) source).map Prod.snd = _
      cases kind with
      | empty =>
        have standard : IsStandard (withScope g).language := by
          rw [language_withScope, speaks]
          exact isStandard_of_language built
        obtain ⟨tree, done⟩ := analyzed_empty standard checked
        rw [compile, checked, done]
        rfl
      | program =>
        rw [compile_eq_analyzed checked]
        cases analyzed (withScope g) source <;> rfl
  · have view : withRender g layout = withRender g {} := by
      rcases renders with declared | rfl
      · rw [withRender, withRender, if_pos declared, if_pos declared]
      · rfl
    rw [toText_run, view]
    rfl

/-- An object without members between blanks: compiling stops, and the pipeline goes on to a table
without names. -/
theorem pipelines_agree_blanks : ∃ l, language = .ok l ∧
    compile " \x7b\n\x7d" (tokenizerOf l) = .ok none ∧
    (Compilation.toSymbols (tokenizerOf l)).run " \x7b\n\x7d" = .ok ∅ ∧
    (Compilation.toText (tokenizerOf l) {}).run " \x7b\n\x7d" =
      render " \x7b\n\x7d" (tokenizerOf l) := by
  obtain ⟨l, built⟩ := exists_language
  have checked : checkInput " \x7b\n\x7d" = .ok .empty := by decide +kernel
  obtain ⟨-, symbols, text⟩ := pipelines_agree (g := tokenizerOf l) built rfl " \x7b\n\x7d" {}
  have stops : compile " \x7b\n\x7d" (tokenizerOf l) = .ok none := by
    rw [compile, checked]
    rfl
  rw [stops] at symbols
  exact ⟨l, built, stops, symbols, text (Or.inr rfl)⟩

end AttrGrammar.Procedure
