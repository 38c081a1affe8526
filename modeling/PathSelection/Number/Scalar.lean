import PathSelection.Number.Numeral

/-!
# Scalars

What the scores, fidelities and features of this library need of a kind of
number.  Doubles are what the program computes with; rationals read the same
arithmetic exactly.
-/

namespace PathSelection

/-- A kind of number that values are read into, computed with and written from. -/
class Scalar (α : Type) extends Add α, Sub α, Mul α, Div α where
  /-- the number nearest to a count -/
  ofNat : Nat → α
  /-- the number nearest to a decimal number -/
  ofDecimal : Decimal → α
  /-- the infinity of a sign, if there is one -/
  infinity? : Bool → Option α
  /-- the value that is no number, if there is one -/
  nan? : Option α
  /-- is the first number smaller? -/
  lt : α → α → Bool
  /-- is the first number smaller or equal? -/
  le : α → α → Bool
  /-- is this neither infinite nor NaN? -/
  isFinite : α → Bool
  /-- the number in a message -/
  text : α → String
  /-- the number in a document, if it can be written -/
  numeral? : α → Option Numeral

namespace Scalar

variable {α : Type} [Scalar α]

/-- The number zero. -/
def zero : α := ofNat 0

/-- The number one. -/
def one : α := ofNat 1

/-- Is this a number at all?  A value that is none differs from itself. -/
def isNumber (x : α) : Bool := le x x

/-- The smaller of two numbers; a value that is no number is left out. -/
def min (x y : α) : α :=
  if !isNumber x then y
  else if !isNumber y then x
  else if lt y x then y else x

/-- Repeated squaring: `r` times `x ^ n`, for `n` below `2 ^ steps`. -/
def powFrom : (steps : Nat) → (r x : α) → (n : Nat) → α
  | 0, r, _, _ => r
  | steps + 1, r, x, n =>
    let r := if n % 2 == 1 then r * x else r
    if n / 2 == 0 then r else powFrom steps r (x * x) (n / 2)

/-- The `n`-th power by repeated squaring, lowest bit of `n` first. -/
def pow (x : α) (n : Nat) : α := powFrom (n.log2 + 1) one x n

/-- The sum of a list, from the left, starting at zero. -/
def sum (xs : List α) : α := xs.foldl (· + ·) zero

end Scalar

/-- Is this double neither infinite nor NaN? -/
def Float.finite (x : Float) : Bool := !(x.isNaN || x.isInf)

instance : Scalar Float where
  ofNat := Float.ofNat
  ofDecimal := Decimal.toFloat
  infinity? negative := some (if negative then -(1.0 / 0.0) else 1.0 / 0.0)
  nan? := some (0.0 / 0.0)
  lt x y := decide (x < y)
  le x y := decide (x ≤ y)
  isFinite := Float.finite
  text := floatText
  numeral? := Numeral.ofFloat?

/-- The exact decimal expansion of a rational, if it has one. -/
def Decimal.ofRat? (r : Rat) : Option Decimal :=
  let places := r.den.log2
  let scaled := r.num.natAbs * Nat.pow 10 places
  if scaled % r.den = 0 then some ⟨decide (r.num < 0), scaled / r.den, -(places : Int)⟩ else none

instance : Scalar Rat where
  ofNat n := (n : Rat)
  ofDecimal := Decimal.toRat
  infinity? _ := none
  nan? := none
  lt x y := decide (x < y)
  le x y := decide (x ≤ y)
  isFinite _ := true
  text r := toString r
  numeral? r := (Decimal.ofRat? r).map Numeral.document

end PathSelection
