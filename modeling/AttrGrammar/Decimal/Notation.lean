import AttrGrammar.Decimal.Shortest

/-!
How floating-point numbers are written.

The digits are the fewest that identify the number. From 0.00001 up to below 10 ^ 16 they stand with
a decimal point and at least one digit on either side of it; other numbers have one digit before the
point and an exponent with its sign.
-/

namespace AttrGrammar.Decimal

/-- The smallest and the greatest exponent of the leading digit without an exponent part. -/
def plainExponents : Int × Int := (-5, 15)

/-- Digits whose leading one has the given exponent, with a decimal point. -/
def plain (digits : String) (leading : Int) : String :=
  if leading < 0 then "0." ++ "".pushn '0' (-leading - 1).toNat ++ digits
  else
    let places := leading.toNat + 1
    if digits.length ≤ places then digits ++ "".pushn '0' (places - digits.length) ++ ".0"
    else String.ofList (digits.toList.take places) ++ "." ++
      String.ofList (digits.toList.drop places)

/-- Digits whose leading one has the given exponent, with an exponent part. -/
def scientific (digits : String) (leading : Int) : String :=
  let fraction := String.ofList (digits.toList.drop 1)
  String.ofList (digits.toList.take 1) ++ (if fraction.isEmpty then "" else "." ++ fraction) ++
    (if leading < 0 then "e-" else "e+") ++ toString leading.natAbs

/-- The text of a size other than zero. -/
def Binary.text (b : Binary) : String :=
  let (digits, exponent) := b.shortest
  let digits := toString digits
  let leading := exponent + digits.length - 1
  if plainExponents.1 ≤ leading && leading ≤ plainExponents.2 then plain digits leading
  else scientific digits leading

/-- The text of a finite number. -/
def text (x : Float) : String :=
  let bits := x.toBits.toNat
  let sign := if bits >>> 63 = 1 then "-" else ""
  if bits % (1 <<< 63) = 0 then sign ++ "0.0" else sign ++ (Binary.ofBits bits).text

end AttrGrammar.Decimal
