import PathSelection.Number.Scalar

/-!
# Numbers in plain texts

How numbers are read from tables, variables and arguments: unsigned integers,
which may carry a plus sign and leading zeros, and real numbers in decimal or
scientific notation, which may also be an infinity or no number.
-/

namespace PathSelection

/-- A character list without the plus sign at its front. -/
def dropPlus : List Char → List Char
  | '+' :: cs => cs
  | cs => cs

/-- An unsigned integer below a bound. -/
def unsignedOfChars? (bound : Nat) (cs : List Char) : Option Nat :=
  match natOfChars? (dropPlus cs) with
  | some n => if n < bound then some n else none
  | none => none

/-- An unsigned integer of 32 bits. -/
def u32OfText? (s : String) : Option Nat := unsignedOfChars? (wordValues 32) s.toList

/-- An unsigned integer of 64 bits. -/
def u64OfText? (s : String) : Option Nat := unsignedOfChars? (wordValues 64) s.toList

/-- The digits at the front and what follows them. -/
def spanDigits (cs : List Char) : List Digit × List Char :=
  let (ds, rest) := cs.span (fun c => (Digit.ofChar? c).isSome)
  (ds.filterMap Digit.ofChar?, rest)

/-- An exponent: a sign, if any, and digits. -/
def exponentOfChars? (cs : List Char) : Option Int :=
  let (negative, cs) := match cs with
    | '-' :: cs => (true, cs)
    | '+' :: cs => (false, cs)
    | cs => (false, cs)
  (natOfChars? cs).map fun (n : Nat) => if negative then -(n : Int) else n

/-- A decimal number without sign: digits, a point, more digits and an exponent, of which much is
optional. -/
def unsignedDecimal? (negative : Bool) (cs : List Char) : Option Decimal :=
  let (whole, rest) := spanDigits cs
  let (fraction, rest) := match rest with
    | '.' :: rest => spanDigits rest
    | rest => ([], rest)
  if whole.isEmpty && fraction.isEmpty then none
  else
    let value (e : Int) : Decimal :=
      ⟨negative, ofDigits (whole ++ fraction), e - (fraction.length : Int)⟩
    match rest with
    | [] => some (value 0)
    | c :: rest => if c = 'e' ∨ c = 'E' then (exponentOfChars? rest).map value else none

/-- A real number; the names of the infinities and of what is no number may be in any case. -/
def scalarOfChars? {α : Type} [Scalar α] (cs : List Char) : Option α :=
  let (negative, cs) := match cs with
    | '-' :: cs => (true, cs)
    | '+' :: cs => (false, cs)
    | cs => (false, cs)
  let lower := String.ofList (cs.map Char.toLower)
  if lower = "inf" ∨ lower = "infinity" then Scalar.infinity? negative
  else if lower = "nan" then Scalar.nan?
  else (unsignedDecimal? negative cs).map Scalar.ofDecimal

end PathSelection
