import AttrGrammar.Procedure.Environment
import AttrGrammar.Proofs.Attribution.Combining
import AttrGrammar.Proofs.Procedure.Standard

/-!
Attributes never influence syntax.

Each step from a source to a tree does on bare tokens what it does on tokens: hooks and fold policies
leave names and lexemes alone, and nothing else is looked at. So without their attributes the tokens,
the tree and the error of an attribution are those of the language, whatever is declared.
-/

namespace AttrGrammar

namespace Scanner

/-- Keeps tokens as they are. -/
def plainHooks : Hooks := fun token _ => token

/-- Hooks that leave names and lexemes alone. -/
def Blind (hooks : Hooks) : Prop :=
  ∀ (token : Token) (context : ScanContext), (hooks token context).bare = token.bare

theorem scanFrom_bare {hooks : Hooks} (blind : Blind hooks) (s : Scanner) (stack : List Nat)
    (place : Nat × Nat) (text : List Char) :
    (s.scanFrom hooks stack place text).map (List.map Token.bare) =
      s.scanFrom plainHooks stack place text := by
  fun_induction s.scanFrom plainHooks stack place text with
  | case1 stack place unfinished => rw [scanFrom, if_pos unfinished]; rfl
  | case2 stack place finished => rw [scanFrom, if_neg finished]; rfl
  | case3 stack place c rest unexpected unmatched => rw [scanFrom, unmatched]; rfl
  | case4 stack place c rest unexpected n rule chosen stuck =>
    rw [scanFrom]
    simp only [chosen, stuck]
    rfl
  | case5 stack place c rest n rule chosen stack' depth acts lexeme ih =>
    rw [scanFrom]
    simp only [chosen, acts]
    rw [← ih]
    cases s.scanFrom hooks stack' (advance place lexeme) (rest.drop (n - 1)) with
    | error e => rfl
    | ok others =>
      change Except.map _ (if rule.action = .skip then .ok others else _) =
        if rule.action = .skip then .ok (others.map Token.bare) else _
      split
      · rfl
      · exact congrArg (fun token => Except.ok (token :: others.map Token.bare)) (blind ..)

theorem scan_bare {hooks : Hooks} (blind : Blind hooks) (s : Scanner) (source : String) :
    (s.scan hooks source).map (List.map Token.bare) = s.scan plainHooks source :=
  scanFrom_bare blind ..

end Scanner

theorem Attribution.blind_annotate (g : Attribution) : Scanner.Blind g.annotate := by
  intro token context
  obtain ⟨name, lexeme⟩ := annotate_text g token context
  rw [Token.bare, Token.bare, name, lexeme]

/-- An unknown special form without its line. -/
def UnknownForm.bare (form : UnknownForm) : UnknownForm := { form with line := none }

theorem Language.checkForms_bare (l : Language) (tokens : List Token) :
    l.checkForms (tokens.map Token.bare) = (l.checkForms tokens).mapError UnknownForm.bare := by
  unfold checkForms
  cases l.unknownForm with
  | none => rfl
  | some unknown =>
    have named : (fun t : Token => t.name == unknown) ∘ Token.bare = (·.name == unknown) := rfl
    dsimp only
    rw [AttrGrammar.checkForms, AttrGrammar.checkForms, List.find?_map, named]
    cases tokens.find? (·.name == unknown) <;> rfl

namespace Procedure

/-- An error without the attributes of its tokens, and without the lines that come from them. -/
def CompileError.bare : CompileError → CompileError
  | parse e => .parse e.bare
  | unknownForm form => .unknownForm form.bare
  | e => e

/-- A result without attributes, where `f` takes them from the value. -/
def bareOutcome {α : Type} (f : α → α) (outcome : Except CompileError α) : Except CompileError α :=
  (outcome.map f).mapError CompileError.bare

/-- The tokens of a source without attributes. -/
def plainTokens (l : Language) (source : String) : Except CompileError (List Token) := do
  let scanned ← (l.scan Scanner.plainHooks source).mapError .scan
  let tokens ← (l.fold Fold.plainCombiner scanned).mapError .grammar
  (l.checkForms tokens).mapError .unknownForm
  .ok tokens

/-- The tree of a source without attributes. -/
def plainTree (l : Language) (source : String) : Except CompileError ParseTree := do
  let tokens ← plainTokens l source
  (l.program.buildTree tokens).mapError .parse

theorem tokenize_bare (g : Attribution) (source : String) :
    bareOutcome (List.map Token.bare) (tokenize source g) = plainTokens g.language source := by
  have scans := Scanner.scan_bare g.blind_annotate g.language.scanner source
  rw [tokenize, plainTokens, Language.scan, Language.scan, ← scans]
  cases g.language.scanner.scan g.annotate source with
  | error e => rfl
  | ok scanned =>
    have folds := g.joins_combine.mirrors.run g.language.plan g.language.tokens scanned
    change bareOutcome _
        ((g.language.plan.run g.language.tokens g.combine scanned).mapError _ >>= _) =
      ((g.language.plan.run g.language.tokens Fold.plainCombiner
        (scanned.map Token.bare)).mapError _ >>= _)
    rw [folds]
    cases g.language.plan.run g.language.tokens g.combine scanned with
    | error e => rfl
    | ok tokens =>
      change bareOutcome _ ((g.language.checkForms tokens).mapError _ >>= _) =
        ((g.language.checkForms (tokens.map Token.bare)).mapError _ >>= _)
      rw [g.language.checkForms_bare]
      cases g.language.checkForms tokens <;> rfl

theorem tree_bare (g : Attribution) (source : String) :
    bareOutcome ParseTree.bare (tokenize source g >>= parse g) = plainTree g.language source := by
  have tokens := tokenize_bare g source
  rw [plainTree, ← tokens]
  cases tokenize source g with
  | error e => rfl
  | ok tokens =>
    change bareOutcome _ ((g.language.program.buildTree tokens).mapError _) =
      (g.language.program.buildTree (tokens.map Token.bare)).mapError _
    rw [Grammar.buildTree_bare]
    cases g.language.program.buildTree tokens <;> rfl

/-- Two attributions over one language have the same syntax, whatever they declare: scanning gives the
same names and lexemes or the same error, folding and looking for unknown special forms too, and so
does parsing, up to attributes of tokens and nodes and the lines of errors. -/
theorem syntax_of_language {g h : Attribution} (same : g.language = h.language) (source : String) :
    (g.language.scan g.annotate source).map (List.map Token.bare) =
      (h.language.scan h.annotate source).map (List.map Token.bare) ∧
    bareOutcome (List.map Token.bare) (tokenize source g) =
      bareOutcome (List.map Token.bare) (tokenize source h) ∧
    bareOutcome ParseTree.bare (tokenize source g >>= parse g) =
      bareOutcome ParseTree.bare (tokenize source h >>= parse h) := by
  refine ⟨?_, ?_, ?_⟩
  · have scans := fun g : Attribution =>
      Scanner.scan_bare g.blind_annotate g.language.scanner source
    exact (scans g).trans (same ▸ (scans h).symm)
  · rw [tokenize_bare, tokenize_bare, same]
  · rw [tree_bare, tree_bare, same]

/-- With rendering declared, which every token and node has a hook for. -/
theorem syntax_of_printer : ∃ l, language = .ok l ∧
    bareOutcome ParseTree.bare
        (tokenize "\x7b\"a\": [1]\x7d" (tokenizerOf l) >>= parse (tokenizerOf l)) =
      bareOutcome ParseTree.bare (tokenize "\x7b\"a\": [1]\x7d" (printer (tokenizerOf l) {}) >>=
        parse (printer (tokenizerOf l) {})) := by
  obtain ⟨l, built⟩ := exists_language
  have same : (tokenizerOf l).language = (printer (tokenizerOf l) {}).language := rfl
  exact ⟨l, built, (syntax_of_language same _).2.2⟩

end Procedure

end AttrGrammar
