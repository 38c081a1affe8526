import PathSelection.Number.Shortest

/-!
# Numerals

A numeral is a number as it is written: sign, whole part, fraction digits and
an optional exponent.  Two layouts are used.  Documents write a number
positionally while its leading power of ten lies from `-5` up to `15`, always
with a fraction, and with an exponent beyond that.  Messages write every number
positionally and an integer without a fraction.
-/

namespace PathSelection

/-- A number as written in a document. -/
structure Numeral where
  negative : Bool
  whole : Nat
  fraction : List Digit
  exponent : Option Int
  deriving DecidableEq, Repr

namespace Numeral

/-- A natural number. -/
def ofNat (n : Nat) : Numeral := ⟨false, n, [], none⟩

/-- The value of a numeral. -/
def toDecimal (n : Numeral) : Decimal where
  negative := n.negative
  coefficient := ofDigitsFrom n.whole n.fraction
  exponent := n.exponent.getD 0 - n.fraction.length

/-- The integer that a numeral spells; one with a fraction or an exponent, or a negative zero, is
none. -/
def toInt? (n : Numeral) : Option Int :=
  if n.fraction.isEmpty && n.exponent.isNone && !(n.negative && n.whole == 0) then
    some (if n.negative then -(n.whole : Int) else n.whole)
  else none

/-- The text of a numeral; a positive exponent carries its sign. -/
def text (n : Numeral) : String :=
  (if n.negative then "-" else "")
    ++ natText n.whole
    ++ (if n.fraction.isEmpty then "" else "." ++ digitText n.fraction)
    ++ (match n.exponent with
      | none => ""
      | some e => if e < 0 then "e-" ++ natText e.natAbs else "e+" ++ natText e.natAbs)

/-- A decimal number without exponent; an integer has no fraction. -/
def positional (d : Decimal) : Numeral :=
  if 0 ≤ d.exponent then ⟨d.negative, d.coefficient * Nat.pow 10 d.exponent.toNat, [], none⟩
  else
    let places := (-d.exponent).toNat
    let unit := Nat.pow 10 places
    ⟨d.negative, d.coefficient / unit, digitsPadded places (d.coefficient % unit), none⟩

/-- A decimal number as its first digit, its other digits and an exponent. -/
def scientific (d : Decimal) : Numeral :=
  match digits d.coefficient with
  | [] => ⟨d.negative, 0, [], none⟩
  | first :: rest => ⟨d.negative, first.val, rest, some d.leadingExponent⟩

/-- The least leading power of ten that documents write positionally. -/
def positionalFrom : Int := -5

/-- The least leading power of ten that documents write with an exponent again. -/
def positionalBelow : Int := 16

/-- A decimal number as documents write it. -/
def document (d : Decimal) : Numeral :=
  if d.coefficient = 0 then ⟨d.negative, 0, [Digit.zero], none⟩
  else if positionalFrom ≤ d.leadingExponent ∧ d.leadingExponent < positionalBelow then
    let n := positional d
    if n.fraction.isEmpty then { n with fraction := [Digit.zero] } else n
  else scientific d

/-- The nearest double. -/
def toFloat (n : Numeral) : Float := n.toDecimal.toFloat

/--
A finite double as documents write it: with the fewest digits that read back,
which seventeen always do.  Infinities and NaN have no numeral.
-/
def ofFloat? (x : Float) : Option Numeral :=
  (Decimal.ofFloat? x).map fun exact =>
    let readsBack (d : Decimal) : Bool := (document d).toFloat.toBits == x.toBits
    document ((Decimal.fewestDigits? .toEven readsBack exact).getD exact)

end Numeral

/--
A double as messages write it: positionally, with the fewest digits that read
back.
-/
def floatText (x : Float) : String :=
  match Decimal.ofFloat? x with
  | some exact =>
    let readsBack (d : Decimal) : Bool := (Numeral.positional d).toFloat.toBits == x.toBits
    if exact.coefficient = 0 then (if exact.negative then "-0" else "0")
    else (Numeral.positional ((Decimal.fewestDigits? .away readsBack exact).getD exact)).text
  | none => if x.isNaN then "NaN" else if x < 0 then "-inf" else "inf"

/-- A double rounded to a fixed number of places, an exact half going to the even neighbour. -/
def fixedText (places : Nat) (x : Float) : String :=
  match Decimal.ofFloat? x with
  | some exact =>
    let n := Numeral.positional (exact.roundTo .toEven places)
    n.text
  | none => floatText x

end PathSelection
