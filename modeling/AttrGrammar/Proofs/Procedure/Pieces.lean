import AttrGrammar.Proofs.Procedure.Standard

/-!
The tokens of a JSON text, with what is folded together.

A piece is a token that stays as it is, or a string, an array or an empty object, whose tokens are
folded into one. The pieces of a written value are made along its text: each token is made of the
depth and the place where it begins, its terminal and its text.
-/

namespace AttrGrammar.Procedure

open Scanner (advance)
open Json (Blanks Written Items Members Glyph Literal comma)

/-- What is folded into one token. -/
inductive Group where
  | string
  | itemString
  | array
  | itemArray
  | object
  deriving DecidableEq, Repr, Inhabited

namespace Group

def opening : Group → String
  | string => "quote"
  | itemString => "item_quote"
  | array => "lbracket"
  | itemArray => "item_lbracket"
  | object => "lbrace"

def closing : Group → String
  | string => "quote"
  | itemString => "item_quote"
  | array => "rbracket"
  | itemArray => "item_rbracket"
  | object => "rbrace"

/-- The token that a group without anything inside becomes. -/
def empty : Group → String
  | string => "empty_string"
  | itemString => "item_empty_string"
  | array => "empty_array"
  | itemArray => "item_empty_array"
  | object => "empty_object"

/-- The token that any other group becomes. An object is folded only if it is empty. -/
def full : Group → String
  | string => "string"
  | itemString => "item_string"
  | array => "array"
  | itemArray => "item_array"
  | object => "object"

end Group

inductive Piece where
  | token (t : Token)
  | group (kind : Group) (opening : Token) (inside : List Piece) (closing : Token)

mutual

/-- The tokens of a piece before folding. -/
def Piece.raw : Piece → List Token
  | .token t => [t]
  | .group _ opening inside closing => opening :: (rawAll inside ++ [closing])

def rawAll : List Piece → List Token
  | [] => []
  | p :: rest => p.raw ++ rawAll rest

end

theorem rawAll_append (ps qs : List Piece) : rawAll (ps ++ qs) = rawAll ps ++ rawAll qs := by
  induction ps with
  | nil => rfl
  | cons p ps ih => rw [List.cons_append, rawAll, rawAll, ih, List.append_assoc]

@[simp] theorem rawAll_tokens (ts : List Token) : rawAll (ts.map .token) = ts := by
  induction ts with
  | nil => rfl
  | cons t ts ih => rw [List.map_cons, rawAll, ih]; rfl

/-- The token of a piece after folding. -/
def Piece.folded (combine : Combiner) : Piece → Token
  | .token t => t
  | .group kind opening inside closing =>
    combine (if inside.isEmpty then kind.empty else kind.full)
      (opening :: (rawAll inside ++ [closing]))

/-- Values of members and items of arrays are scanned as different terminals. -/
inductive Region where
  | member
  | item
  deriving DecidableEq, Repr, Inhabited

namespace Region

def number : Region → String
  | member => "number"
  | item => "item_number"

def boolean : Region → String
  | member => "boolean"
  | item => "item_boolean"

def null : Region → String
  | member => "null"
  | item => "item_null"

def divider : Region → String
  | member => "member_divider"
  | item => "item_divider"

def string : Region → Group
  | member => .string
  | item => .itemString

def array : Region → Group
  | member => .array
  | item => .itemArray

def stringMode : Region → Mode
  | member => .string
  | item => .itemString

/-- The mode for the items of an array that stands there. -/
def arrayMode : Region → Mode
  | member => .array
  | item => .nested

end Region

/-- What is scanned in a mode, outside strings. -/
def Mode.region? : Mode → Option Region
  | top | object => some .member
  | array | nested => some .item
  | string | itemString => none

/-- Makes the token of a text at a depth and a place. -/
abbrev Maker := Nat → Nat × Nat → String → List Char → Token

variable (make : Maker)

def isPlain : Glyph → Bool
  | .plain _ => true
  | _ => false

/-- The tokens inside a string: each run of characters that stand for themselves, and each escape. -/
def contents (depth : Nat) (place : Nat × Nat) : List Glyph → List Token
  | [] => []
  | g :: rest =>
    if isPlain g then
      let text := g.text ++ Glyph.textOf (rest.takeWhile isPlain)
      make depth place "chars" text ::
        contents depth (advance place text) (rest.dropWhile isPlain)
    else make depth place "escape" g.text :: contents depth (advance place g.text) rest
termination_by glyphs => glyphs.length
decreasing_by
  · exact Nat.lt_succ_of_le (List.dropWhile_sublist _).length_le
  · exact Nat.lt_succ_self _

/-- A string in quotes. -/
def quoted (r : Region) (depth : Nat) (place : Nat × Nat) (l : Literal) : Piece :=
  .group r.string (make depth place r.string.opening ['"'])
    ((contents make depth (advance place ['"']) l.glyphs).map .token)
    (make depth (advance place ('"' :: l.body)) r.string.closing ['"'])

/-- A key or a string. Outside arrays it may be a special form. -/
def stringPiece (r : Region) (depth : Nat) (place : Nat × Nat) (l : Literal) : Piece :=
  if r = .member ∧ isForm l.body then .token (make depth place (formTerminal l.body) l.text)
  else quoted make r depth place l

/-- The comma before an item or a member that is not the first. -/
def divider (r : Region) (first : Bool) (depth : Nat) (place : Nat × Nat) : List Piece :=
  if first then [] else [.token (make depth place r.divider [','])]

end AttrGrammar.Procedure

namespace AttrGrammar.Json

open Procedure Scanner

variable (make : Maker)

def Members.isNil : Members → Bool
  | .nil => true
  | .cons .. => false

/-- The text of items up to the closing bracket. -/
def Items.body (first : Bool) : Items → List Char
  | .nil => []
  | .cons lead item trail others =>
    comma first ++ (lead.1 ++ (item.text ++ (trail.1 ++ others.body false)))

theorem Items.text_eq (first : Bool) (items : Items) :
    items.text first = items.body first ++ [']'] := by
  cases items with
  | nil => rfl
  | cons lead item trail others => simp [Items.text, Items.body, Items.text_eq false others]

mutual

/-- The pieces of a value. -/
def Written.pieces (r : Region) (depth : Nat) (place : Nat × Nat) : Written → List Piece
  | .null => [.token (make depth place r.null (Written.text .null))]
  | .bool b => [.token (make depth place r.boolean (Written.text (.bool b)))]
  | .number n => [.token (make depth place r.number n.text)]
  | .string l => [stringPiece make r depth place l]
  | .array gap items =>
    [.group r.array (make depth place r.array.opening ['['])
      (items.pieces true (depth + 1) (advance place ('[' :: gap.1)))
      (make depth (advance place ('[' :: (gap.1 ++ items.body true))) r.array.closing [']'])]
  | .object gap members =>
    if members.isNil then
      [.group .object (make depth place "lbrace" ['{']) []
        (make depth (advance place ('{' :: gap.1)) "rbrace" ['}'])]
    else
      .token (make depth place "lbrace" ['{']) ::
        members.pieces true depth (advance place ('{' :: gap.1))

/-- The pieces of items. -/
def Items.pieces (first : Bool) (depth : Nat) (place : Nat × Nat) : Items → List Piece
  | .nil => []
  | .cons lead item trail others =>
    let start := advance place (comma first ++ lead.1)
    divider make .item first depth place ++ (item.pieces .item depth start ++
      others.pieces false depth (advance start (item.text ++ trail.1)))

/-- The pieces of the members of an object at a depth, and of its closing brace. -/
def Members.pieces (first : Bool) (depth : Nat) (place : Nat × Nat) : Members → List Piece
  | .nil => [.token (make depth place "rbrace" ['}'])]
  | .cons lead key before after value trail others =>
    let start := advance place (comma first ++ lead.1)
    let middle := advance start (key.text ++ before.1)
    let last := advance middle (':' :: after.1)
    divider make .member first (depth + 1) place ++
      (stringPiece make .member (depth + 1) start key ::
        .token (make (depth + 1) middle "colon" [':']) ::
        (value.pieces .member (depth + 1) last ++
          others.pieces false depth (advance last (value.text ++ trail.1))))

end

mutual

/-- Whether no array holds an object, where a value in an array is none either. -/
def Written.plain (r : Region) : Written → Bool
  | .array _ items => items.plain
  | .object _ members => r == .member && members.plain
  | _ => true

def Items.plain : Items → Bool
  | .nil => true
  | .cons _ item _ others => item.plain .item && others.plain

def Members.plain : Members → Bool
  | .nil => true
  | .cons _ _ _ _ value _ others => value.plain .member && others.plain

end

end AttrGrammar.Json
