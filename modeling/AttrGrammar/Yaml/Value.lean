import AttrGrammar.Text.Hex

/-! YAML values, and what their unquoted scalars stand for. -/

namespace AttrGrammar

inductive Yaml where
  /-- A text, and whether it was written without quotes. -/
  | scalar (text : String) (plain : Bool)
  | sequence (items : List Yaml)
  | mapping (members : List (Yaml × Yaml))
  deriving Inhabited

namespace Yaml

/-- What stands where a value is left out. -/
def absent : Yaml := scalar "" true

def text? : Yaml → Option String
  | scalar text _ => some text
  | _ => none

/-- The truth value that an unquoted word stands for. -/
def bool? : Yaml → Option Bool
  | scalar "true" true | scalar "True" true | scalar "TRUE" true => some true
  | scalar "false" true | scalar "False" true | scalar "FALSE" true => some false
  | _ => none

/-- The number that digits in a base spell. -/
def digits? (base : Nat) (digits : List Char) : Option Nat := do
  let values ← digits.mapM Text.hexDigit?
  if digits.isEmpty || values.any (base ≤ ·) then none
  else some (values.foldl (fun n d => n * base + d) 0)

/-- The number of 64 bits that an unquoted word stands for. It is written in base ten without
leading zeros, or in base sixteen, eight or two after `0x`, `0o` or `0b`. -/
def nat? : Yaml → Option Nat
  | scalar text true =>
    let digits := match text.toList with
      | '+' :: rest => rest
      | all => all
    let value := match digits with
      | '0' :: 'x' :: rest => digits? 16 rest
      | '0' :: 'o' :: rest => digits? 8 rest
      | '0' :: 'b' :: rest => digits? 2 rest
      | '0' :: _ :: _ => none
      | all => digits? 10 all
    value.filter (· < 1 <<< 64)
  | _ => none

/-- The members of a mapping; a value left out counts as one without members. -/
def members? : Yaml → Option (List (Yaml × Yaml))
  | mapping members => some members
  | scalar "" true => some []
  | _ => none

/-- The items of a sequence; a value left out counts as one without items. -/
def items? : Yaml → Option (List Yaml)
  | sequence items => some items
  | scalar "" true => some []
  | _ => none

end Yaml

end AttrGrammar
