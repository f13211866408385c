import AttrGrammar.Proofs.Procedure.Parsing
import AttrGrammar.Proofs.Procedure.Terminals

/-!
The parts of the procedure language, as they come out of its description.

The language is built by reading patterns, by analyses of two grammars and by resolving names. What
follows uses the outcome only: which terminals each mode scans and what they read, the folds, and
the rules for parsing.
-/

namespace AttrGrammar.Procedure

/-- The modes of the scanner. -/
inductive Mode where
  | top
  | object
  | array
  | nested
  | string
  | itemString
  deriving DecidableEq, Repr, Inhabited

namespace Mode

def all : List Mode := [top, object, array, nested, string, itemString]

/-- Where a mode stands among the modes of the scanner. -/
def place : Mode → Nat
  | top => 0
  | object => 1
  | array => 2
  | nested => 3
  | string => 4
  | itemString => 5

def name : Mode → String
  | top => "top"
  | object => "object"
  | array => "array"
  | nested => "nested_array"
  | string => "string"
  | itemString => "item_string"

def nesting : Mode → Bool
  | object | array | nested => true
  | _ => false

/-- The terminals for members. -/
def objectRules : List (String × ScanAction Nat) := [
  ("ws", .skip), ("let_form", .emit), ("ref_form", .emit), ("doc_form", .emit),
  ("unknown_form", .emit), ("quote", .push string.place), ("lbrace", .push object.place),
  ("rbrace", .pop), ("lbracket", .push array.place), ("colon", .emit), ("member_divider", .emit),
  ("number", .emit), ("boolean", .emit), ("null", .emit)]

/-- The terminals for items. -/
def arrayRules (closing : String) : List (String × ScanAction Nat) := [
  ("ws", .skip), ("item_quote", .push itemString.place), ("item_lbracket", .push nested.place),
  (closing, .pop), ("item_divider", .emit), ("item_number", .emit), ("item_boolean", .emit),
  ("item_null", .emit)]

/-- The terminals inside a string. -/
def stringRules (quote : String) : List (String × ScanAction Nat) := [
  ("chars", .emit), ("escape", .emit), (quote, .pop)]

def rules : Mode → List (String × ScanAction Nat)
  | top | object => objectRules
  | array => arrayRules "rbracket"
  | nested => arrayRules "item_rbracket"
  | string => stringRules "quote"
  | itemString => stringRules "item_quote"

end Mode

/-- A mode of a scanner, without its matchers. -/
def outlineOf (mode : ScanMode) : String × Bool × List (String × ScanAction Nat) :=
  (mode.name, mode.nesting, mode.rules.map fun rule => (rule.terminal, rule.action))

/-- The scanner of the language. -/
structure IsScanner (s : Scanner) : Prop where
  initial : s.initial = Mode.top.place
  modes : s.modes.map outlineOf = Mode.all.map fun m => (m.name, m.nesting, m.rules)
  measures : ∀ mode ∈ s.modes, ∀ rule ∈ mode.rules,
    rule.matcher.measures (recognizer rule.terminal) = true

/-- The folds of the language. -/
def standardFolds : List Fold := [
  .alternation "string_content" ["chars", "escape"],
  .concatenation "string" ["quote", "string_content", "quote"],
  .concatenation "empty_string" ["quote", "quote"],
  .concatenation "item_string" ["item_quote", "string_content", "item_quote"],
  .concatenation "item_empty_string" ["item_quote", "item_quote"],
  .alternation "array_items" arrayItems,
  .concatenation "item_array" ["item_lbracket", "array_items", "item_rbracket"],
  .concatenation "item_empty_array" ["item_lbracket", "item_rbracket"],
  .concatenation "array" ["lbracket", "array_items", "rbracket"],
  .concatenation "empty_array" ["lbracket", "rbracket"],
  .concatenation "empty_object" ["lbrace", "rbrace"]]

structure IsStandard (l : Language) : Prop where
  program : IsProgramGrammar l.program
  scanner : IsScanner l.scanner
  plan : l.plan = foldPlan
  folds : l.plan.folds l.tokens = .ok standardFolds
  unknownForm : l.unknownForm = some Construct.unknownForm.name

instance (l : Language) : Decidable (l.plan.folds l.tokens = .ok standardFolds) :=
  match equal : l.plan.folds l.tokens with
  | .ok folds => decidable_of_iff (folds = standardFolds) (by simp)
  | .error _ => isFalse nofun

instance (l : Language) : Decidable (IsStandard l) :=
  decidable_of_iff
    ((l.program.top = Construct.document.name ∧ l.program.rules.map shapeOf = programShape ∧
        (∀ rule ∈ l.program.rules, l.program.decides programRank rule = true) ∧
        endOfInput ∈ l.program.followSet Construct.document.name) ∧
      (l.scanner.initial = Mode.top.place ∧
        l.scanner.modes.map outlineOf = (Mode.all.map fun m => (m.name, m.nesting, m.rules)) ∧
        ∀ mode ∈ l.scanner.modes, ∀ rule ∈ mode.rules,
          rule.matcher.measures (recognizer rule.terminal) = true) ∧
      l.plan = foldPlan ∧ l.plan.folds l.tokens = .ok standardFolds ∧
      l.unknownForm = some Construct.unknownForm.name)
    ⟨fun ⟨⟨top, shape, decided, ends⟩, ⟨initial, modes, measures⟩, plan, folds, unknown⟩ =>
      ⟨⟨top, shape, decided, ends⟩, ⟨initial, modes, measures⟩, plan, folds, unknown⟩,
    fun ⟨⟨top, shape, decided, ends⟩, ⟨initial, modes, measures⟩, plan, folds, unknown⟩ =>
      ⟨⟨top, shape, decided, ends⟩, ⟨initial, modes, measures⟩, plan, folds, unknown⟩⟩

/-- The description of the language is without a fault, and its parts are the standard ones. -/
theorem exists_standard : ∃ l, language = .ok l ∧ decide (IsStandard l) = true :=
  exists_ok_of_any (by decide +kernel)

theorem exists_language : ∃ l, language = .ok l := by
  obtain ⟨l, built, _⟩ := exists_standard
  exact ⟨l, built⟩

theorem isStandard_of_language {l : Language} (built : language = .ok l) : IsStandard l := by
  obtain ⟨l', built', standard⟩ := exists_standard
  cases built.symm.trans built'
  exact of_decide_eq_true standard

end AttrGrammar.Procedure
