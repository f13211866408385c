import AttrGrammar.Proofs.Procedure.Laid
import AttrGrammar.Proofs.Procedure.Statements

/-!
What the blanks of a text have no part in: the names and lexemes of its tokens, and its statements
but for the lines in them, so that its meaning is the same but for the line of an error.
-/

namespace AttrGrammar

open Scanner (advance)
open Procedure (emit valueToken keyToken Piece Statement isForm)

/-- The name and the lexeme of a token. -/
def Token.word (t : Token) : String × String := (t.name, t.lexeme)

namespace Json

def Literal.word (l : Literal) : String × String := (l.terminal, String.ofList l.text)

/-- The word of a value that becomes one token. -/
def Written.word (w : Written) : String × String := (w.terminal, String.ofList w.tight.text)

mutual

/-- The words of the tokens of a value outside arrays. -/
def Written.words : Written → List (String × String)
  | .object gap members =>
    if members.isNil then [(Written.object gap members).word]
    else ("lbrace", "\x7b") :: members.words true
  | .array gap items => [(Written.array gap items).word]
  | .string l => [(Written.string l).word]
  | .number n => [(Written.number n).word]
  | .bool b => [(Written.bool b).word]
  | .null => [Written.null.word]

/-- The words of the members of an object, and of its closing brace. -/
def Members.words (first : Bool) : Members → List (String × String)
  | .nil => [("rbrace", "\x7d")]
  | .cons _ key _ _ value _ others =>
    (if first then [] else [("member_divider", ",")]) ++
      key.word :: ("colon", ":") :: (value.words ++ others.words false)

end

theorem Written.words_plain {w : Written} (single : w.isBraced = false) : w.words = [w.word] := by
  cases w with
  | object gap members =>
    cases members with
    | nil => rfl
    | cons => cases single
  | _ => rfl

theorem Written.tight_tight (w : Written) : w.tight.tight = w.tight := by
  have same := w.tight_spaced noBlanks
  rwa [w.spaced_noBlanks] at same

theorem Written.terminal_tight (w : Written) : w.tight.terminal = w.terminal := by
  cases w with
  | array gap items => rw [tight, terminal, terminal, items.isNil_tight]
  | object gap members => rw [tight, terminal, terminal, members.isNil_tight]
  | _ => rfl

theorem Written.word_tight (w : Written) : w.tight.word = w.word := by
  rw [word, word, w.terminal_tight, w.tight_tight]

mutual

theorem Written.words_tight : ∀ w : Written, w.tight.words = w.words
  | .object gap members => by
    have word := (Written.object gap members).word_tight
    rw [Written.tight] at word
    rw [Written.tight, Written.words, Written.words, word, members.isNil_tight,
      members.words_tight]
  | .array gap items => congrArg ([·]) (Written.array gap items).word_tight
  | .string _ | .number _ | .bool _ | .null => rfl

theorem Members.words_tight : ∀ (members : Members) (first : Bool),
    members.tight.words first = members.words first
  | .nil, _ => rfl
  | .cons _ key _ _ value _ others, first => by
    rw [Members.tight, Members.words, Members.words, value.words_tight, others.words_tight]

end

end Json

namespace Procedure

open Json (Blanks Written Items Members Literal)

section

variable (g : Attribution)

theorem keyToken_word (depth : Nat) (place : Nat × Nat) (l : Literal) :
    (keyToken g depth place l).word = l.word := by
  rw [Token.word, keyToken_name, keyToken_lexeme]
  rfl

theorem emit_word (depth : Nat) (place : Nat × Nat) (n : String) (text : List Char) :
    (emit g.annotate depth place n text).word = (n, String.ofList text) := by
  rw [Token.word, (makes_emit g).name, (makes_emit g).lexeme]

theorem words_plain {w : Written} (single : w.isBraced = false) (depth : Nat)
    (place : Nat × Nat) :
    ((w.pieces (emit g.annotate) .member depth place).map (Piece.folded g.combine)).map Token.word =
      w.words := by
  rw [map_folded_pieces g depth place single, w.words_plain single, List.map_singleton, Token.word,
    valueToken_name, valueToken_lexeme g depth place single]
  rfl

mutual

/-- The tokens that a value is folded to have its words. -/
theorem words_value : ∀ (w : Written) (depth : Nat) (place : Nat × Nat),
    ((w.pieces (emit g.annotate) .member depth place).map (Piece.folded g.combine)).map Token.word =
      w.words
  | .object gap (.cons lead key before after value trail others), depth, place => by
    have inside := words_members (.cons lead key before after value trail others) true depth
      (advance place ('{' :: gap.1))
    rw [Written.pieces, Written.words, Json.Members.isNil, if_neg Bool.false_ne_true,
      if_neg Bool.false_ne_true, List.map_cons, List.map_cons, inside, Piece.folded, emit_word]
  | .object gap .nil, depth, place => words_plain g rfl depth place
  | .array gap items, depth, place => words_plain g rfl depth place
  | .string l, depth, place => words_plain g rfl depth place
  | .number n, depth, place => words_plain g rfl depth place
  | .bool b, depth, place => words_plain g rfl depth place
  | .null, depth, place => words_plain g rfl depth place

theorem words_members : ∀ (members : Members) (first : Bool) (depth : Nat) (place : Nat × Nat),
    ((members.pieces (emit g.annotate) first depth place).map (Piece.folded g.combine)).map
      Token.word = members.words first
  | .nil, _, _, _ => congrArg ([·]) (emit_word g _ _ _ _)
  | .cons lead key before after value trail others, first, depth, place => by
    have divider : ((divider (emit g.annotate) .member first (depth + 1) place).map
        (Piece.folded g.combine)).map Token.word =
          if first then [] else [("member_divider", ",")] := by
      cases first with
      | true => rfl
      | false => exact congrArg ([·]) (emit_word g _ _ _ _)
    have head : ∀ depth place, ((stringPiece (emit g.annotate) .member depth place key).folded
        g.combine).word = key.word := fun depth place => keyToken_word g depth place key
    have colon : ∀ depth place, ((Piece.token (emit g.annotate depth place "colon" [':'])).folded
        g.combine).word = ("colon", ":") := fun _ _ => emit_word g _ _ _ _
    rw [pieces_member]
    simp only [List.map_append, List.map_cons, divider, head, colon, words_value value,
      words_members others, Members.words]

end

/-- The words of the tokens of a text. -/
theorem words_programOf (place : Nat × Nat) (gap : Blanks) (members : Members) :
    (programOf g place gap members).tokens.map Token.word = (Written.object gap members).words := by
  rw [tokens_programOf, words_value]

end

mutual

/-- A statement without the lines in it. -/
def Statement.unlined : Statement → Statement
  | .bind key value => .bind key value
  | .within key body => .within key (unlinedAll body)
  | .parameters _ items => .parameters none items
  | .reference _ target => .reference none target
  | .documentation text => .documentation text

def unlinedAll : List Statement → List Statement
  | [] => []
  | statement :: rest => statement.unlined :: unlinedAll rest

end

/-- A fault without its line. -/
def SemanticError.unlined : SemanticError → SemanticError
  | invalidParameter found _ => invalidParameter found none
  | misplacedSpecialForm form _ => misplacedSpecialForm form none
  | malformedLiteral lexeme _ => malformedLiteral lexeme none
  | missingScope node => missingScope node

theorem target?_unlined (statement : Statement) : statement.unlined.target? = statement.target? := by
  cases statement <;> rfl

theorem valueOfBody_unlined (body : List Statement) :
    valueOfBody (unlinedAll body) = valueOfBody body := by
  have found : (unlinedAll body).findSome? Statement.target? =
      body.findSome? Statement.target? := by
    induction body with
    | nil => rfl
    | cons statement rest ih =>
      rw [unlinedAll, List.findSome?_cons, List.findSome?_cons, target?_unlined, ih]
  rw [valueOfBody, valueOfBody, found]

theorem addParameters_unlined (scope : String) (line : Option Nat) (table : SymbolTable)
    (items : List Value) :
    addParameters scope none table items =
      (addParameters scope line table items).mapError SemanticError.unlined := by
  induction items generalizing table with
  | nil => rfl
  | cons item rest ih =>
    cases item with
    | string name => exact ih _
    | _ => rfl

mutual

theorem run_unlined : ∀ (statement : Statement) (top : Bool) (scope : String) (table : SymbolTable),
    statement.unlined.run top scope table =
      (statement.run top scope table).mapError SemanticError.unlined
  | .bind _ _, _, _, _ => rfl
  | .within key body, _, scope, table => by
    rw [Statement.unlined, Statement.run, Statement.run, valueOfBody_unlined, runBody_unlined body]
  | .parameters line items, _, scope, table => addParameters_unlined scope line table items
  | .reference line _, top, _, _ => by cases top <;> rfl
  | .documentation _, _, _, _ => rfl

/-- Without lines, statements come to the same table, or to the same fault without its line. -/
theorem runBody_unlined : ∀ (body : List Statement) (top : Bool) (scope : String)
    (table : SymbolTable), runBody top scope table (unlinedAll body) =
      (runBody top scope table body).mapError SemanticError.unlined
  | [], _, _, _ => rfl
  | statement :: rest, top, scope, table => by
    rw [unlinedAll, runBody, runBody, run_unlined statement]
    cases statement.run top scope table with
    | error e => rfl
    | ok table => exact runBody_unlined rest top scope table

end

end Procedure

namespace Json

open Procedure (unlinedAll SemanticError ofJsonItems?_json)

def noLines : Lines := fun _ _ _ => none

theorem Items.list?_tight (items : Items) : items.tight.list? = items.list? := by
  rw [← ofJsonItems?_json, items.json_tight, ofJsonItems?_json]

theorem list?_tight (w : Written) : w.tight.list? = w.list? := by
  cases w with
  | array gap items => rw [Written.tight, Written.list?, Written.list?, items.list?_tight]
  | _ => rfl

theorem phrase?_tight (w : Written) : w.tight.phrase? = w.phrase? := by
  cases w <;> rfl

theorem value?_tight (w : Written) : w.tight.value? = w.value? := by
  cases w with
  | array gap items => rw [Written.tight, Written.value?, Written.value?, items.list?_tight]
  | object gap members => rw [Written.tight, Written.value?, Written.value?, members.isNil_tight]
  | _ => rfl

theorem pairStatement?_tight (line : Option Nat) (key : Literal) (w : Written) :
    pairStatement? line key w.tight = pairStatement? line key w := by
  rw [pairStatement?, pairStatement?, list?_tight, phrase?_tight, value?_tight]

theorem pairStatement?_unlined (line : Option Nat) (key : Literal) (w : Written) :
    (pairStatement? line key w).map Statement.unlined = pairStatement? none key w := by
  rw [pairStatement?, pairStatement?]
  split
  · split <;> simp [Option.map_map, Function.comp_def, Statement.unlined]
  · simp [Option.map_map, Function.comp_def, Statement.unlined]

mutual

theorem statement?_tight : ∀ (w : Written) {depth depth' : Nat} {place place' : Nat × Nat}
    {line : Option Nat} {key : Literal},
    w.tight.statement? noLines depth place line key = w.statement? noLines depth' place' line key
  | .object gap members, depth, depth', place, place', line, key => by
    have pair := pairStatement?_tight line key (.object gap members)
    rw [Written.tight] at pair
    rw [Written.tight, Written.statement?, Written.statement?, pair, members.isNil_tight,
      statements?_tight members]
  | .array gap items, _, _, _, _, line, key => pairStatement?_tight line key (.array gap items)
  | .string _, _, _, _, _, _, _ | .number _, _, _, _, _, _, _ | .bool _, _, _, _, _, _, _
  | .null, _, _, _, _, _, _ => rfl

/-- The statements but for their lines do not depend on the blanks of the text. -/
theorem statements?_tight : ∀ (members : Members) {first first' : Bool} {depth depth' : Nat}
    {place place' : Nat × Nat}, members.tight.statements? noLines first depth place =
      members.statements? noLines first' depth' place'
  | .nil, _, _, _, _, _, _ => rfl
  | .cons lead key before after value trail others, first, first', depth, depth', place, place' => by
    rw [Members.tight, Members.statements?, Members.statements?]
    simp only [noLines]
    rw [statement?_tight value, statements?_tight others]

end

section

variable (lines : Lines)

theorem unlined_plain {w : Written} (single : w.isBraced = false) (depth : Nat)
    (place : Nat × Nat) (line : Option Nat) (key : Literal) :
    (w.statement? lines depth place line key).map Statement.unlined =
      w.statement? noLines depth place none key := by
  rw [w.statement?_plain single, w.statement?_plain single, pairStatement?_unlined]

mutual

theorem statement?_unlined : ∀ (w : Written) (depth : Nat) (place : Nat × Nat) (line : Option Nat)
    (key : Literal), (w.statement? lines depth place line key).map Statement.unlined =
      w.statement? noLines depth place none key
  | .object gap (.cons lead key' before after value trail others), depth, place, line, key => by
    have inside := statements?_unlined (.cons lead key' before after value trail others) true depth
      (advance place ('{' :: gap.1))
    rw [Written.statement?, Written.statement?, Members.isNil, if_neg Bool.false_ne_true,
      if_neg Bool.false_ne_true, ← inside]
    split
    · rfl
    · rw [Option.map_map, Option.map_map]
      rfl
  | .object gap .nil, depth, place, line, key => unlined_plain lines rfl depth place line key
  | .array gap items, depth, place, line, key => unlined_plain lines rfl depth place line key
  | .string l, depth, place, line, key => unlined_plain lines rfl depth place line key
  | .number n, depth, place, line, key => unlined_plain lines rfl depth place line key
  | .bool b, depth, place, line, key => unlined_plain lines rfl depth place line key
  | .null, depth, place, line, key => unlined_plain lines rfl depth place line key

theorem statements?_unlined : ∀ (members : Members) (first : Bool) (depth : Nat)
    (place : Nat × Nat), (members.statements? lines first depth place).map unlinedAll =
      members.statements? noLines first depth place
  | .nil, _, _, _ => rfl
  | .cons lead key before after value trail others, first, depth, place => by
    have here := fun place line => statement?_unlined value (depth + 1) place line key
    have later := statements?_unlined others false depth
    have lineless : ∀ place, noLines (depth + 1) place key = .none := fun _ => rfl
    rw [Members.statements?, Members.statements?, ← later, lineless, ← here _ (lines (depth + 1) _ key)]
    generalize value.statement? lines _ _ _ key = x
    generalize others.statements? lines _ _ _ = y
    cases x <;> cases y <;> rfl

end

end

end Json

end AttrGrammar
