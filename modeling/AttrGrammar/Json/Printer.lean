import AttrGrammar.Decimal.Notation
import AttrGrammar.Json.Value
import AttrGrammar.Text.Hex

/-!
Writing JSON over several lines.

Each item stands on a line of its own, two spaces further in than its array or object; an empty one
is closed at once. Strings escape what they must, and numbers that are not finite become `null`.
-/

namespace AttrGrammar.Json

/-- A character inside a string literal. -/
def escapedChar (c : Char) : String :=
  match c with
  | '"' => "\\\""
  | '\\' => "\\\\"
  | '\x08' => "\\b"
  | '\x0c' => "\\f"
  | '\n' => "\\n"
  | '\r' => "\\r"
  | '\t' => "\\t"
  | c =>
    if c.toNat < 0x20 then
      let digits := Text.hex c.toNat
      "\\u" ++ "".pushn '0' (4 - digits.length) ++ digits
    else c.toString

def literal (s : String) : String := "\"" ++ String.join (s.toList.map escapedChar) ++ "\""

def floatText (x : Float) : String := if x.isFinite then Decimal.text x else "null"

/-- The start of a line inside brackets at a depth. -/
def newLine (depth : Nat) : String := "".pushn ' ' (2 * depth) |> ("\n" ++ ·)

/-- Items between brackets, each on its line. -/
def bracketed (opening closing : String) (depth : Nat) (items : List String) : String :=
  if items.isEmpty then opening ++ closing
  else
    opening ++ newLine (depth + 1) ++ ("," ++ newLine (depth + 1)).intercalate items ++
      newLine depth ++ closing

mutual

/-- The text of a value at a depth. -/
def prettyAt (depth : Nat) : Json → String
  | null => "null"
  | bool b => if b then "true" else "false"
  | int n => toString n
  | float x => floatText x
  | string s => literal s
  | array items => bracketed "[" "]" depth (prettyItems (depth + 1) items)
  | object members => bracketed "\x7b" "\x7d" depth (prettyMembers (depth + 1) members)

def prettyItems (depth : Nat) : List Json → List String
  | [] => []
  | item :: rest => prettyAt depth item :: prettyItems depth rest

def prettyMembers (depth : Nat) : List (String × Json) → List String
  | [] => []
  | (name, value) :: rest =>
    (literal name ++ ": " ++ prettyAt depth value) :: prettyMembers depth rest

end

def pretty (value : Json) : String := prettyAt 0 value

end AttrGrammar.Json
