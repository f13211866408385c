/-!
Reading decimal numbers, correctly rounded.

A sign, digits with or without a point, and an exponent may be written; at least one digit must
stand before the exponent. The words for infinity and for no number are read in any case of letters.
A number that is too large becomes infinite, one that is too small zero.
-/

namespace AttrGrammar.Decimal

/-- The floating-point number nearest to `digits * 10 ^ exponent`. Exponents far outside the range
decide the result without being spelled out. -/
def nearest (digits : Nat) (exponent : Int) : Float :=
  if digits = 0 then 0.0
  else
    let size := (Nat.toDigits 10 digits).length + exponent
    if size > 400 then 1.0 / 0.0
    else if size < -400 then 0.0
    else Float.ofScientific digits (exponent < 0) exponent.natAbs

/-- The number that a list of decimal digits spells. -/
def ofDigits (digits : List Char) : Nat :=
  digits.foldl (fun n d => n * 10 + (d.toNat - '0'.toNat)) 0

/-- Reads the digits of an exponent after its letter, to the end of the text. -/
def exponent? (text : List Char) : Option Int :=
  let (negative, digits) := match text with
    | '-' :: rest => (true, rest)
    | '+' :: rest => (false, rest)
    | _ => (false, text)
  if digits.isEmpty || !digits.all Char.isDigit then none
  else some (if negative then -ofDigits digits else ofDigits digits)

/-- Reads a number without a sign. -/
def unsigned? (text : List Char) : Option Float :=
  let whole := text.takeWhile Char.isDigit
  let rest := text.dropWhile Char.isDigit
  let (fraction, rest) := match rest with
    | '.' :: rest => (rest.takeWhile Char.isDigit, rest.dropWhile Char.isDigit)
    | _ => ([], rest)
  if whole.isEmpty && fraction.isEmpty then none
  else
    let value := fun exponent : Int =>
      nearest (ofDigits (whole ++ fraction)) (exponent - fraction.length)
    match rest with
    | [] => some (value 0)
    | c :: rest => if c = 'e' || c = 'E' then (exponent? rest).map value else none

/-- Reads the word for a number that is not finite, or a number, without a sign. -/
def magnitude? (text : List Char) : Option Float :=
  match String.ofList (text.map Char.toLower) with
  | "inf" | "infinity" => some (1.0 / 0.0)
  | "nan" => some (0.0 / 0.0)
  | _ => unsigned? text

/-- Reads a text that is a number from its first character to its last. -/
def read? (text : String) : Option Float :=
  match text.toList with
  | '-' :: rest => (magnitude? rest).map (- ·)
  | '+' :: rest => magnitude? rest
  | text => magnitude? text

end AttrGrammar.Decimal
