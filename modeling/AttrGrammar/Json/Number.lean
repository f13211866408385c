import AttrGrammar.Json.Value

/-!
The value of a number in a JSON text.

Digits are collected in a significand of 64 bits. Once the next digit does not fit, further digits
before the point only raise the exponent of ten and further digits after it are dropped. An integer
that fits 64 bits is exact. Any other number is its significand, converted, times or over a power of
ten; as each of the two steps rounds, the result need not be the nearest number.
-/

namespace AttrGrammar.Json

/-- A power of ten up to the greatest that is finite. -/
def powerOfTen (n : Nat) : Float := Float.ofScientific 1 false n

/-- Scales by a power of ten, downwards in steps of 308; there is no result when it is infinite. -/
def scale : Nat → Float → Int → Option Float
  | 0, _, _ => none
  | fuel + 1, x, exponent =>
    if exponent.natAbs ≤ 308 then
      if exponent ≥ 0 then
        let y := x * powerOfTen exponent.natAbs
        if y.isInf then none else some y
      else some (x / powerOfTen exponent.natAbs)
    else if x == 0.0 then some x
    else if exponent ≥ 0 then none
    else scale fuel (x / powerOfTen 308) (exponent + 308)

/-- The number with a sign, a significand and an exponent of ten. Four steps take any significand
below the smallest number to zero. -/
def ofParts (negative : Bool) (significand : Nat) (exponent : Int) : Option Float :=
  (scale 6 (Float.ofNat significand) exponent).map fun x => if negative then -x else x

/-- The significand holds 64 bits. -/
def significandLimit : Nat := 1 <<< 64

/-- Exponents are kept within 32 bits. -/
def clampExponent (n : Int) : Int := max (-2147483648) (min n 2147483647)

/-- Exponents written with greater numbers are beyond all others. -/
def exponentLimit : Nat := 2147483647

/-- The value of an integer: exact if it fits 64 bits. -/
def ofInteger (negative : Bool) (significand : Nat) : Json :=
  if !negative then .int significand
  else if significand = 0 || significand > 1 <<< 63 then .float (-(Float.ofNat significand))
  else .int (-significand)

/-- The value of a number as a floating-point number. -/
def asFloat? : Json → Option Float
  | int n => some (if n < 0 then -(Float.ofNat n.natAbs) else Float.ofNat n.natAbs)
  | float x => some x
  | _ => none

end AttrGrammar.Json
