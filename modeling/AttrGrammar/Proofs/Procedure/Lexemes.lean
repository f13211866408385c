import AttrGrammar.Proofs.Json.Tight
import AttrGrammar.Proofs.Procedure.Document

/-!
The tokens of keys and values after folding.

The lexeme of a folded token is its text without blanks, and its name tells a string from an empty
one and from a special form, and an array or object with something in it from one without.
-/

namespace AttrGrammar

open Scanner (advance)

namespace Json

def Items.isNil : Items → Bool
  | .nil => true
  | .cons .. => false

/-- The token that a string outside arrays becomes. -/
def Literal.terminal (l : Literal) : String :=
  if Procedure.isForm l.body then Procedure.formTerminal l.body
  else if l.glyphs.isEmpty then "empty_string" else "string"

/-- Whether a value is an object with members. Outside arrays any other value becomes one token. -/
def Written.isBraced : Written → Bool
  | .object _ members => !members.isNil
  | _ => false

/-- The first token that a value outside arrays becomes. -/
def Written.terminal : Written → String
  | .null => "null"
  | .bool _ => "boolean"
  | .number _ => "number"
  | .string l => l.terminal
  | .array _ items => if items.isNil then "empty_array" else "array"
  | .object _ members => if members.isNil then "empty_object" else "lbrace"

end Json

namespace Procedure

open Json (Blanks Written Items Members Glyph Literal comma)

/-- A way to read tokens as text: each is read as what it was made of, but some blanks come after a
comma in an array. -/
structure Spells (read : Token → List Char) (gap : Blanks) (make : Maker) : Prop where
  text : ∀ depth place n text, n ≠ "item_divider" → read (make depth place n text) = text
  divider : ∀ depth place, read (make depth place "item_divider" [',']) = ',' :: gap.1

/-- The characters of a token. -/
def lettersOf (t : Token) : List Char := t.lexeme.toList

theorem joinLexemes_eq (ts : List Token) :
    Token.joinLexemes ts = String.ofList (ts.flatMap lettersOf) := by
  rw [← String.toList_inj, Token.joinLexemes, String.toList_join, String.toList_ofList,
    List.flatMap_map]
  rfl

variable {make : Maker}

/-- The tokens of a text spell it without its blanks. -/
theorem Makes.spells (makes : Makes make) : Spells lettersOf Json.noBlanks make where
  text depth place n text _ := by rw [lettersOf, makes.lexeme, String.toList_ofList]
  divider depth place := by
    rw [lettersOf, makes.lexeme, String.toList_ofList]
    rfl

section

variable {read : Token → List Char} {gap : Blanks} (spells : Spells read gap make)

include spells

theorem spelled_contents (depth : Nat) : ∀ (glyphs : List Glyph) (place : Nat × Nat),
    (contents make depth place glyphs).flatMap read = Glyph.textOf glyphs
  | [], place => by rw [contents]; rfl
  | g :: glyphs, place => by
    rw [contents, Glyph.textOf_cons]
    split
    · rw [List.flatMap_cons, spells.text _ _ _ _ (by decide), spelled_contents depth _ _,
        List.append_assoc, Glyph.textOf, Glyph.textOf, Glyph.textOf, ← List.flatMap_append,
        List.takeWhile_append_dropWhile]
    · rw [List.flatMap_cons, spells.text _ _ _ _ (by decide), spelled_contents depth _ _]
termination_by glyphs => glyphs.length
decreasing_by
  · exact Nat.lt_succ_self _
  · exact Nat.lt_succ_of_le (List.dropWhile_sublist _).length_le

theorem spelled_string (r : Region) (depth : Nat) (place : Nat × Nat) (l : Literal) :
    (stringPiece make r depth place l).raw.flatMap read = l.text := by
  have notDivider : formTerminal l.body ≠ "item_divider" := by
    unfold formTerminal
    split <;> (try split) <;> (try split) <;> decide
  unfold stringPiece
  split
  · rw [Piece.raw, List.flatMap_cons, spells.text _ _ _ _ notDivider, List.flatMap_nil,
      List.append_nil]
  · have opens := spells.text depth place r.string.opening ['"'] (by cases r <;> decide)
    have closes := fun place => spells.text depth place r.string.closing ['"']
      (by cases r <;> decide)
    simp [quoted, Piece.raw, opens, closes, spelled_contents spells, Literal.text, Literal.body]

theorem spelled_divider (first : Bool) (depth : Nat) (place : Nat × Nat) :
    (rawAll (divider make .member first depth place)).flatMap read = comma first := by
  cases first
  · simp [divider, rawAll, Piece.raw, spells.text _ _ Region.member.divider _ (by decide), comma]
  · rfl

theorem spelled_item_divider (first : Bool) (depth : Nat) (place : Nat × Nat) :
    (rawAll (divider make .item first depth place)).flatMap read =
      comma first ++ (if first then Json.noBlanks else gap).1 := by
  cases first
  · have read := spells.divider depth place
    simp [divider, rawAll, Piece.raw, Region.divider, read, comma]
  · rfl

mutual

/-- The tokens of a value spell it with the blanks that they are read with. -/
theorem spelled_value : ∀ (w : Written) (r : Region) (depth : Nat) (place : Nat × Nat),
    (rawAll (w.pieces make r depth place)).flatMap read = (w.spaced gap).text
  | .null, r, depth, place => by
    have letters := spells.text depth place r.null (Written.text .null) (by cases r <;> decide)
    simp [Written.pieces, rawAll, Piece.raw, letters, Written.spaced]
  | .bool b, r, depth, place => by
    have letters := spells.text depth place r.boolean (Written.text (.bool b))
      (by cases r <;> decide)
    simp [Written.pieces, rawAll, Piece.raw, letters, Written.spaced]
  | .number n, r, depth, place => by
    have letters := spells.text depth place r.number n.text (by cases r <;> decide)
    simp [Written.pieces, rawAll, Piece.raw, letters, Written.spaced, Written.text]
  | .string l, r, depth, place => by
    simp [Written.pieces, rawAll, spelled_string spells, Written.spaced, Written.text]
  | .array around items, r, depth, place => by
    have opens := spells.text depth place r.array.opening ['['] (by cases r <;> decide)
    have closes := spells.text depth (advance place ('[' :: (around.1 ++ items.body true)))
      r.array.closing [']'] (by cases r <;> decide)
    simp [Written.pieces, rawAll, Piece.raw, opens, closes, Written.spaced, Written.text,
      spelled_items items, Items.text_eq, Json.noBlanks]
  | .object around members, r, depth, place => by
    have opens := spells.text depth place "lbrace" ['{'] (by decide)
    have closes := spells.text depth (advance place ('{' :: around.1)) "rbrace" ['}'] (by decide)
    rw [Written.pieces]
    split
    · next nothing =>
      cases members with
      | nil => simp [rawAll, Piece.raw, opens, closes, Written.spaced, Written.text,
          Members.spaced, Members.text, Json.noBlanks]
      | cons => cases nothing
    · simp [rawAll, Piece.raw, opens, Written.spaced, Written.text, spelled_members members,
        Json.noBlanks]

theorem spelled_items : ∀ (items : Items) (first : Bool) (depth : Nat) (place : Nat × Nat),
    (rawAll (items.pieces make first depth place)).flatMap read =
      (items.spaced gap first).body first
  | .nil, _, _, _ => rfl
  | .cons lead item trail others, first, depth, place => by
    simp [Items.pieces, Items.spaced, Items.body, rawAll_append, spelled_item_divider spells,
      spelled_value item, spelled_items others, Json.noBlanks]

theorem spelled_members : ∀ (members : Members) (first : Bool) (depth : Nat)
    (place : Nat × Nat), (rawAll (members.pieces make first depth place)).flatMap read =
      (members.spaced gap).text first
  | .nil, _, depth, place => by
    have closes := spells.text depth place "rbrace" ['}'] (by decide)
    simp [Members.pieces, rawAll, Piece.raw, closes, Members.spaced, Members.text]
  | .cons lead key before after value trail others, first, depth, place => by
    have colon := fun place => spells.text (depth + 1) place "colon" [':'] (by decide)
    simp [Members.pieces, Members.spaced, Members.text, rawAll, rawAll_append, Piece.raw, colon,
      spelled_divider spells, spelled_string spells, spelled_value value, spelled_members others,
      Json.noBlanks]

end

end

variable (g : Attribution)

/-- The token of a key or a string outside arrays. -/
def keyToken (depth : Nat) (place : Nat × Nat) (l : Literal) : Token :=
  (stringPiece (emit g.annotate) .member depth place l).folded g.combine

/-- The first token of a value outside arrays. -/
def valueToken (depth : Nat) (place : Nat × Nat) (w : Written) : Token :=
  (((w.pieces (emit g.annotate) .member depth place).map (Piece.folded g.combine)).head?).getD
    default

theorem folded_lexeme (p : Piece) :
    (p.folded g.combine).lexeme = String.ofList (p.raw.flatMap lettersOf) := by
  cases p with
  | token t => simp [Piece.folded, Piece.raw, lettersOf]
  | group k opening inside closing => exact joinLexemes_eq _

theorem keyToken_name (depth : Nat) (place : Nat × Nat) (l : Literal) :
    (keyToken g depth place l).name = l.terminal := by
  have makes := makes_emit g
  unfold keyToken stringPiece Literal.terminal
  by_cases form : isForm l.body = true
  · rw [if_pos ⟨rfl, form⟩, if_pos form]
    exact makes.name _ _ _ _
  · rw [if_neg fun both => form both.2, if_neg form, quoted, folded_name (joins_combine g)]
    cases l.glyphs with
    | nil =>
      rw [contents]
      rfl
    | cons first rest =>
      rw [contents]
      split <;> rfl

theorem keyToken_lexeme (depth : Nat) (place : Nat × Nat) (l : Literal) :
    (keyToken g depth place l).lexeme = String.ofList l.text := by
  rw [← spelled_string (makes_emit g).spells .member depth place l]
  exact folded_lexeme g _

theorem pieces_ne_nil (make : Maker) (r : Region) (depth : Nat) (place : Nat × Nat) (w : Written) :
    w.pieces make r depth place ≠ [] := by
  cases w with
  | object gap members =>
    rw [Written.pieces]
    split <;> exact List.cons_ne_nil _ _
  | _ => exact List.cons_ne_nil _ _

theorem isEmpty_pieces (make : Maker) (depth : Nat) (place : Nat × Nat) (items : Items) :
    (items.pieces make true depth place).isEmpty = items.isNil := by
  cases items with
  | nil => rfl
  | cons lead item trail others =>
    simp [Items.pieces, divider, pieces_ne_nil, Items.isNil]

/-- Only an object with members becomes more than one token. -/
theorem exists_piece (make : Maker) (depth : Nat) (place : Nat × Nat) {w : Written}
    (single : w.isBraced = false) : ∃ p, w.pieces make .member depth place = [p] := by
  cases w with
  | object gap members =>
    cases members with
    | nil => exact ⟨_, rfl⟩
    | cons => cases single
  | _ => exact ⟨_, rfl⟩

theorem map_folded_pieces (depth : Nat) (place : Nat × Nat) {w : Written}
    (single : w.isBraced = false) :
    (w.pieces (emit g.annotate) .member depth place).map (Piece.folded g.combine) =
      [valueToken g depth place w] := by
  obtain ⟨p, only⟩ := exists_piece (emit g.annotate) depth place single
  rw [valueToken, only]
  rfl

theorem valueToken_name (depth : Nat) (place : Nat × Nat) (w : Written) :
    (valueToken g depth place w).name = w.terminal := by
  have makes := makes_emit g
  have joins := joins_combine g
  cases w with
  | null => exact makes.name _ _ _ _
  | bool b => exact makes.name _ _ _ _
  | number n => exact makes.name _ _ _ _
  | string l => exact keyToken_name g depth place l
  | array gap items =>
    refine (folded_name joins _ _ _ _).trans ?_
    rw [isEmpty_pieces]
    rfl
  | object gap members =>
    cases members with
    | nil => exact folded_name joins _ _ _ _
    | cons => exact makes.name _ _ _ _

theorem valueToken_lexeme (depth : Nat) (place : Nat × Nat) {w : Written}
    (single : w.isBraced = false) :
    (valueToken g depth place w).lexeme = String.ofList w.tight.text := by
  obtain ⟨p, only⟩ := exists_piece (emit g.annotate) depth place single
  have text := spelled_value (makes_emit g).spells w .member depth place
  rw [only, rawAll, rawAll, List.append_nil, w.spaced_noBlanks] at text
  rw [valueToken, only, ← text]
  exact folded_lexeme g p

end Procedure

end AttrGrammar
