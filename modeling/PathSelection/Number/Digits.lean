/-!
# Decimal digits

Natural numbers as lists of decimal digits, most significant digit first, and
the characters that spell them.

Main results:

- Theorem `ofDigits_digits`: the digits of a number spell that number.
- Theorem `Digit.ofChar?_toChar`: a digit is read back from its character.
-/

namespace PathSelection

/-- One decimal digit. -/
abbrev Digit := Fin 10

/-- The digit zero. -/
def Digit.zero : Digit := ⟨0, by decide⟩

/-- The character that spells a digit. -/
def Digit.toChar (d : Digit) : Char := Char.ofNat (48 + d.val)

/-- The digit that a character spells, if it is one of `0` to `9`. -/
def Digit.ofChar? (c : Char) : Option Digit :=
  if h : 48 ≤ c.toNat ∧ c.toNat ≤ 57 then some ⟨c.toNat - 48, by omega⟩ else none

@[simp]
theorem Digit.ofChar?_toChar (d : Digit) : Digit.ofChar? d.toChar = some d := by
  revert d; decide

/-- How many values a word of so many bits has. -/
def wordValues (bits : Nat) : Nat := Nat.pow 2 bits

/-- The number that digits spell, continuing a number already read. -/
def ofDigitsFrom (n : Nat) (ds : List Digit) : Nat := ds.foldl (fun n d => 10 * n + d.val) n

/-- The number that digits spell. -/
def ofDigits (ds : List Digit) : Nat := ofDigitsFrom 0 ds

@[simp]
theorem ofDigitsFrom_nil (n : Nat) : ofDigitsFrom n [] = n := rfl

@[simp]
theorem ofDigitsFrom_cons (n : Nat) (d : Digit) (ds : List Digit) :
    ofDigitsFrom n (d :: ds) = ofDigitsFrom (10 * n + d.val) ds := rfl

/-- The digits of a number, written in front of digits already there. -/
def digitsOnto (n : Nat) (tail : List Digit) : List Digit :=
  let last : Digit := ⟨n % 10, Nat.mod_lt _ (by decide)⟩
  if n < 10 then last :: tail else digitsOnto (n / 10) (last :: tail)
termination_by n
decreasing_by omega

/-- The digits of a number without leading zeros; zero has the one digit `0`. -/
def digits (n : Nat) : List Digit := digitsOnto n []

private theorem ofDigitsFrom_digitsOnto (n : Nat) (tail : List Digit) :
    ofDigitsFrom 0 (digitsOnto n tail) = ofDigitsFrom n tail := by
  fun_induction digitsOnto n tail with
  | case1 n tail last h => simp [last, Nat.mod_eq_of_lt h]
  | case2 n tail last h ih => rw [ih]; simp [last, Nat.div_add_mod]

/-- The digits of a number spell that number. -/
@[simp]
theorem ofDigits_digits (n : Nat) : ofDigits (digits n) = n := by
  simp [ofDigits, digits, ofDigitsFrom_digitsOnto]

/-- The last `width` digits of a number, with leading zeros where it is shorter. -/
def digitsPadded (width n : Nat) : List Digit :=
  let ds := digits n
  List.replicate (width - ds.length) Digit.zero ++ ds.drop (ds.length - width)

/-- The text of a list of digits. -/
def digitText (ds : List Digit) : String := String.ofList (ds.map Digit.toChar)

/-- A natural number in decimal notation. -/
def natText (n : Nat) : String := digitText (digits n)

/-- The number that a text of one or more decimal digits spells; leading zeros are allowed. -/
def natOfChars? (cs : List Char) : Option Nat :=
  if cs.isEmpty then none else (cs.mapM Digit.ofChar?).map ofDigits

end PathSelection
