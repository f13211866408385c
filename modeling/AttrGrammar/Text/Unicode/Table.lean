/-!
Tables of Unicode 16.

Characters are numbered in order without a gap for the surrogates. A number is written with digits
in base 32, and the digits of a number but its last one are 32 greater than their values. A set is
written as the distances between the numbers at which it begins and ends in turn; a class for each
character as runs of characters with one class, each as its length and the class.
-/

namespace AttrGrammar.Text.Unicode

/-- The numbers at which a set begins and ends in turn, in increasing order. -/
abbrev Bounds := List Nat

/-- The lengths of runs of characters, each with the class of its characters. -/
abbrev Runs := List (Nat × Nat)

def digitOf (c : Char) : Nat :=
  if c.isDigit then c.toNat - '0'.toNat
  else if c.isUpper then c.toNat - 'A'.toNat + 10
  else if c.isLower then c.toNat - 'a'.toNat + 36
  else if c = '+' then 62 else 63

/-- The numbers that are written in a text, where `high` stands before its first digit. -/
def numbers (high : Nat) : List Char → List Nat
  | [] => []
  | c :: rest =>
    let digit := digitOf c
    if digit < 32 then (high * 32 + digit) :: numbers 0 rest
    else numbers (high * 32 + (digit - 32)) rest

/-- The numbers that are written in the lines of a table. -/
def numbersOf (lines : List String) : List Nat := numbers 0 (lines.flatMap String.toList)

/-- The places at some distances from each other. -/
def places (start : Nat) : List Nat → Bounds
  | [] => []
  | distance :: rest => (start + distance) :: places (start + distance) rest

def boundsOf (lines : List String) : Bounds := places 0 (numbersOf lines)

/-- Numbers as pairs. -/
def pairs : List Nat → List (Nat × Nat)
  | first :: second :: rest => (first, second) :: pairs rest
  | _ => []

def runsOf (lines : List String) : Runs := pairs (numbersOf lines)

/-- The bounds of the characters whose classes are wanted. The characters before `start` are passed,
and `inside` tells whether the last of them is wanted. -/
def boundsWhere (wanted : Nat → Bool) (start : Nat) (inside : Bool) : Runs → Bounds
  | [] => if inside then [start] else []
  | (length, c) :: rest =>
    let others := boundsWhere wanted (start + length) (wanted c) rest
    if wanted c = inside then others else start :: others

end AttrGrammar.Text.Unicode
