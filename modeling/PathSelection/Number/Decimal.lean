import PathSelection.Number.Digits

/-!
# Decimal numbers

A sign, a coefficient and a power of ten, with the two readings of such a
number: the exact rational and the nearest double.
-/

namespace PathSelection

/-- The number `± coefficient · 10 ^ exponent`. -/
structure Decimal where
  negative : Bool
  coefficient : Nat
  exponent : Int
  deriving DecidableEq, Repr

namespace Decimal

/-- The decimal number with no sign and no fraction. -/
def ofNat (n : Nat) : Decimal := ⟨false, n, 0⟩

/-- The exact value. -/
def toRat (d : Decimal) : Rat :=
  let magnitude : Rat := (d.coefficient : Rat) * (10 : Rat) ^ d.exponent
  if d.negative then -magnitude else magnitude

/-- The power of ten of the first digit of the coefficient. -/
def leadingExponent (d : Decimal) : Int :=
  d.exponent + (digits d.coefficient).length - 1

/-- Every double above zero lies well inside `10 ^ -400` and `10 ^ 400`. -/
def exponentBound : Int := 400

/--
The nearest double, a half going to the even neighbour; beyond the largest
double the result is infinite.  Exponents out of every double's reach are
settled first, so that no large power is built.
-/
def toFloat (d : Decimal) : Float :=
  let magnitude : Float :=
    if d.coefficient = 0 then 0
    else if exponentBound < d.leadingExponent then Float.ofBits 0x7ff0000000000000
    else if d.leadingExponent < -exponentBound then 0
    else Float.ofScientific d.coefficient (decide (d.exponent < 0)) d.exponent.natAbs
  if d.negative then -magnitude else magnitude

end Decimal

end PathSelection
