import SeekableArchive.Text.Digits

/-!
# Decimal fractions

A double is an integer times a power of two.  `fixed` writes it with a given
number of decimal places: the nearest decimal, and of two equally near ones the
even one.
-/

namespace SeekableArchive
namespace Text

/-- The integer nearest to a quotient; of two equally near ones the even one. -/
def roundDiv (num den : Nat) : Nat :=
  let q := num / den
  let r := num % den
  if 2 * r < den then q
  else if den < 2 * r then q + 1
  else q + q % 2

/-- A finite double: `mantissa * 2 ^ (exponent - 1074)`, with a sign. -/
structure Binary where
  negative : Bool
  mantissa : Nat
  exponent : Nat
deriving DecidableEq

/-- The parts of a double, unless it is infinite or not a number. -/
def binary? (x : Float) : Option Binary :=
  let bits := x.toBits.toNat
  let biased := (bits >>> 52) % 0x800
  let fraction := bits % 0x10_0000_0000_0000
  if biased = 0x7FF then none
  else some {
    negative := bits >>> 63 = 1
    mantissa := if biased = 0 then fraction else 0x10_0000_0000_0000 + fraction
    exponent := biased - 1 }

/-- The double in units of the last of `places` decimal places. -/
def Binary.scaled (b : Binary) (places : Nat) : Nat :=
  roundDiv ((b.mantissa <<< b.exponent) * Nat.pow 10 places) (1 <<< 1074)

/-- A number of units, each the last of so many decimal places. -/
def decimalPoint (places units : Nat) : String :=
  let whole := toString (units / Nat.pow 10 places)
  if places = 0 then whole
  else whole ++ "." ++ String.ofList (fixedDigits 10 places units)

def fixed (places : Nat) (x : Float) : String :=
  match binary? x with
  | some b => (if b.negative then "-" else "") ++ decimalPoint places (b.scaled places)
  | none => if x.isNaN then "NaN" else if x < 0 then "-inf" else "inf"

end Text
end SeekableArchive
