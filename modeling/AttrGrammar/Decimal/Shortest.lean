/-!
The shortest decimal of a binary floating-point number.

A finite number is `mantissa * 2 ^ exponent`. The reals that round to it make an interval, and its
shortest decimal is the one with the fewest digits in that interval, the nearest of them where there
are two, and of two equally near ones that with an even last digit. All arithmetic is exact, on
naturals.
-/

namespace AttrGrammar.Decimal

/-- The size of a finite number other than zero. -/
structure Binary where
  mantissa : Nat
  exponent : Int
  /-- Whether the number below is nearer than the number above, as at a power of two. -/
  narrowBelow : Bool
  deriving DecidableEq, Repr

/-- The size of the finite number with the given bits. -/
def Binary.ofBits (bits : Nat) : Binary :=
  let fraction : Nat := bits % (1 <<< 52)
  let biased : Nat := (bits >>> 52) % (1 <<< 11)
  if biased = 0 then ⟨fraction, -1074, false⟩
  else ⟨(1 <<< 52) + fraction, (biased : Int) - 1075, fraction = 0 && biased > 1⟩

/-- A number times a power of a base, as a fraction. -/
def scaled (n base : Nat) (exponent : Int) : Nat × Nat :=
  if exponent ≥ 0 then (n * base.pow exponent.toNat, 1) else (n, base.pow (-exponent).toNat)

def lessEq (a b : Nat × Nat) : Bool := a.1 * b.2 ≤ b.1 * a.2

def lessThan (a b : Nat × Nat) : Bool := a.1 * b.2 < b.1 * a.2

/-- Whether `digits * 10 ^ exponent` rounds to the number. The ends of the interval belong to it
when the mantissa is even. -/
def Binary.roundsFrom (b : Binary) (digits : Nat) (exponent : Int) : Bool :=
  let low := scaled (4 * b.mantissa - (if b.narrowBelow then 1 else 2)) 2 (b.exponent - 2)
  let high := scaled (4 * b.mantissa + 2) 2 (b.exponent - 2)
  let value := scaled digits 10 exponent
  if b.mantissa % 2 = 0 then lessEq low value && lessEq value high
  else lessThan low value && lessThan value high

/-- The number of decimal digits of a natural. -/
def digitCount (n : Nat) : Nat := (Nat.toDigits 10 n).length

/-- The exponent of ten of the leading digit of a fraction that is no power of ten below one. -/
def magnitude (value : Nat × Nat) : Int :=
  if value.1 ≥ value.2 then digitCount (value.1 / value.2) - 1
  else -digitCount (value.2 / value.1)

/-- A digit sequence times a power of ten, without zeros at the end. -/
def stripZeros : Nat → Nat → Int → Nat × Int
  | 0, digits, exponent => (digits, exponent)
  | fuel + 1, digits, exponent =>
    if digits % 10 = 0 && digits != 0 then stripZeros fuel (digits / 10) (exponent + 1)
    else (digits, exponent)

/-- The neighbour of the number on the decimal grid `10 ^ exponent` that rounds to it; the nearer
one if both do, and the even one if both are equally near. -/
def Binary.onGrid? (b : Binary) (exponent : Int) : Option Nat :=
  let value := scaled b.mantissa 2 b.exponent
  let unit := scaled 1 10 exponent
  let below := value.1 * unit.2 / (value.2 * unit.1)
  match b.roundsFrom below exponent, b.roundsFrom (below + 1) exponent with
  | true, false => some below
  | false, true => some (below + 1)
  | false, false => none
  | true, true =>
    let middle := scaled (2 * below + 1) 10 exponent
    let twice := (2 * value.1, value.2)
    if lessThan twice middle || (lessEq twice middle && below % 2 = 0) then some below
    else some (below + 1)

/-- Tries grids of `count` and more digits. -/
def Binary.search (b : Binary) (magnitude : Int) : Nat → Nat → Nat × Int
  | 0, _ => (b.mantissa, 0)
  | fuel + 1, count =>
    let exponent := magnitude - count + 1
    match b.onGrid? exponent with
    | some digits => stripZeros 20 digits exponent
    | none => b.search magnitude fuel (count + 1)

/-- The shortest decimal, as digits and an exponent of ten. Seventeen digits always suffice. -/
def Binary.shortest (b : Binary) : Nat × Int :=
  b.search (magnitude (scaled b.mantissa 2 b.exponent)) 18 1

end AttrGrammar.Decimal
