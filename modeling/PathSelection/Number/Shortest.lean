import PathSelection.Number.Binary64

/-!
# Nearest decimal numbers with few digits

A number is written with the fewest digits that are accepted for it.  On the
grid of `n` digits only the two neighbours of the exact value matter: of two
accepted neighbours the nearer one is taken, and a `Tie` says which one when
the value lies exactly between them.

Main result:

- Theorem `Decimal.accept_of_fewestDigits?`: what is found is accepted.
-/

namespace PathSelection

/-- Which of two equally near neighbours is taken. -/
inductive Tie where
  /-- the neighbour further from zero -/
  | away
  /-- the neighbour whose last digit is even -/
  | toEven
  deriving DecidableEq, Repr

namespace Tie

/-- Does a value with quotient `q` and remainder `r` of `unit` round away from zero? -/
def roundsAway (tie : Tie) (q r unit : Nat) : Bool :=
  if 2 * r < unit then false
  else if unit < 2 * r then true
  else match tie with
    | away => true
    | toEven => q % 2 == 1

end Tie

namespace Decimal

/-- The same number without zeros at the end of its coefficient. -/
def stripZeros (d : Decimal) : Decimal :=
  if d.coefficient ≠ 0 ∧ d.coefficient % 10 = 0 then
    stripZeros ⟨d.negative, d.coefficient / 10, d.exponent + 1⟩
  else d
termination_by d.coefficient
decreasing_by omega

/-- The neighbours of a number on the grid of `n` digits, the nearer one first. -/
def neighbours (tie : Tie) (exact : Decimal) (n : Nat) : List Decimal :=
  let dropped := (digits exact.coefficient).length - n
  let unit := Nat.pow 10 dropped
  let q := exact.coefficient / unit
  let r := exact.coefficient % unit
  let below := stripZeros ⟨exact.negative, q, exact.exponent + dropped⟩
  let above := stripZeros ⟨exact.negative, q + 1, exact.exponent + dropped⟩
  if r = 0 then [below]
  else if tie.roundsAway q r unit then [above, below] else [below, above]

/-- The accepted number with the fewest digits, at most seventeen, near the exact value. -/
def fewestDigits? (tie : Tie) (accept : Decimal → Bool) (exact : Decimal) : Option Decimal :=
  ((List.range 17).flatMap (fun n => neighbours tie exact (n + 1))).find? accept

/-- What is found is accepted. -/
theorem accept_of_fewestDigits? {tie : Tie} {accept : Decimal → Bool} {exact d : Decimal}
    (h : fewestDigits? tie accept exact = some d) : accept d = true :=
  List.find?_some h

/-- The number rounded to a given number of decimal places. -/
def roundTo (tie : Tie) (places : Nat) (d : Decimal) : Decimal :=
  let target : Int := -(places : Int)
  if target ≤ d.exponent then
    ⟨d.negative, d.coefficient * Nat.pow 10 (d.exponent - target).toNat, target⟩
  else
    let unit := Nat.pow 10 (target - d.exponent).toNat
    let q := d.coefficient / unit
    let r := d.coefficient % unit
    ⟨d.negative, if tie.roundsAway q r unit then q + 1 else q, target⟩

end Decimal

end PathSelection
