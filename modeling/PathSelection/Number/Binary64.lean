import PathSelection.Number.Decimal

/-!
# Doubles as exact numbers

Sign, significand and power of two of a finite double, and the decimal number
that has exactly its value.
-/

namespace PathSelection

/-- The number `± significand · 2 ^ exponent`. -/
structure Dyadic where
  negative : Bool
  significand : Nat
  exponent : Int
  deriving DecidableEq, Repr

namespace Dyadic

/-- The value of a finite double; infinities and NaN have none. -/
def ofFloat? (x : Float) : Option Dyadic :=
  let bits : Nat := x.toBits.toNat
  let negative := bits / wordValues 63 == 1
  let biased : Nat := bits / wordValues 52 % wordValues 11
  let fraction : Nat := bits % wordValues 52
  if biased = 2047 then none
  else if biased = 0 then some ⟨negative, fraction, -1074⟩
  else some ⟨negative, wordValues 52 + fraction, (biased : Int) - 1075⟩

/-- The decimal number of the same value: `m · 2 ^ -k` is `m · 5 ^ k · 10 ^ -k`. -/
def toDecimal (b : Dyadic) : Decimal :=
  if 0 ≤ b.exponent then ⟨b.negative, b.significand * Nat.pow 2 b.exponent.toNat, 0⟩
  else ⟨b.negative, b.significand * Nat.pow 5 (-b.exponent).toNat, b.exponent⟩

end Dyadic

/-- The exact decimal expansion of a finite double. -/
def Decimal.ofFloat? (x : Float) : Option Decimal := (Dyadic.ofFloat? x).map Dyadic.toDecimal

end PathSelection
