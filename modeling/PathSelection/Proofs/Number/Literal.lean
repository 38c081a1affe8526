import Mathlib.Data.List.TakeDrop
import Mathlib.Data.List.TakeWhile
import PathSelection.Number.Literal
import PathSelection.Proofs.Number.Digits
import PathSelection.Text.Blank

/-!
# Characters of numbers

A text that is accepted as a number is made of digits, letters, signs and points.  None of these
is blank or separates anything in a table, so a number stands in a list of others, with blanks
around it or not, and is found there as it was written.

Main results:

- Theorem `isDigit_or_eq_plus_of_unsignedOfChars?`: an unsigned integer has digits and a sign.
- Theorem `isNumeric_of_scalarOfChars?`: a real number has numeric characters only.
- Theorem `not_isBlank_of_isNumberChar`: no numeric character is blank.
- Theorem `IsNumeric.not_mem`: what separates numbers is in none of them.
-/

namespace PathSelection

/-- Is this a digit, a letter, a sign or a point? -/
def isNumberChar (c : Char) : Bool := c.isAlphanum || c == '.' || c == '+' || c == '-'

/-- Only digits, letters, signs and points. -/
def IsNumeric (cs : List Char) : Prop := ∀ c ∈ cs, isNumberChar c = true

variable {c : Char} {cs ds : List Char}

@[simp]
theorem isNumeric_nil : IsNumeric [] := by simp [IsNumeric]

@[simp]
theorem isNumeric_cons : IsNumeric (c :: cs) ↔ isNumberChar c = true ∧ IsNumeric cs :=
  List.forall_mem_cons

@[simp]
theorem isNumeric_append : IsNumeric (cs ++ ds) ↔ IsNumeric cs ∧ IsNumeric ds :=
  List.forall_mem_append

private theorem isNumberChar_of_isAlpha (h : c.isAlpha = true) : isNumberChar c = true := by
  simp [isNumberChar, Char.isAlphanum, h]

private theorem isNumberChar_of_isDigit (h : c.isDigit = true) : isNumberChar c = true := by
  simp [isNumberChar, Char.isAlphanum, h]

/-- No character of a number is blank. -/
theorem not_isBlank_of_isNumberChar (h : isNumberChar c = true) : isBlank c = false := by
  have hranges : c.isAlphanum = ((decide (c.val ≥ 65 ∧ c.val ≤ 90) ||
      decide (c.val ≥ 97) && decide (c.val ≤ 122)) ||
        decide (c.val ≥ 48) && decide (c.val ≤ 57)) := rfl
  simp only [isNumberChar, hranges, Bool.or_eq_true, Bool.and_eq_true, decide_eq_true_eq,
    beq_iff_eq, ge_iff_le, UInt32.le_iff_toNat_le] at h
  rcases h with ((hcode | rfl) | rfl) | rfl
  · change ((65 ≤ c.toNat ∧ c.toNat ≤ 90) ∨ (97 ≤ c.toNat ∧ c.toNat ≤ 122)) ∨
      (48 ≤ c.toNat ∧ c.toNat ≤ 57) at hcode
    simp only [isBlank, Bool.or_eq_false_iff, Bool.and_eq_false_iff, decide_eq_false_iff_not,
      beq_eq_false_iff_ne]
    omega
  · decide
  · decide
  · decide

/-- A character that is not numeric is not in a number. -/
theorem IsNumeric.not_mem (h : IsNumeric cs) (hc : isNumberChar c = false) : c ∉ cs := by
  intro hmem
  rw [h c hmem] at hc
  cases hc

/-! ## Unsigned integers -/

private theorem isDigit_of_natOfChars? {n : Nat} (h : natOfChars? cs = some n) :
    ∀ c ∈ cs, c.isDigit = true := by
  obtain ⟨run, -, rfl, -⟩ := exists_digits_of_natOfChars? h
  intro c hc
  obtain ⟨d, -, rfl⟩ := List.mem_map.1 hc
  exact Digit.isDigit_toChar d

private theorem isNumeric_of_natOfChars? {n : Nat} (h : natOfChars? cs = some n) : IsNumeric cs :=
  fun c hc => isNumberChar_of_isDigit (isDigit_of_natOfChars? h c hc)

private theorem eq_or_eq_cons_dropPlus (cs : List Char) :
    cs = dropPlus cs ∨ cs = '+' :: dropPlus cs := by
  unfold dropPlus
  split
  · exact .inr rfl
  · exact .inl rfl

/-- An unsigned integer is not empty and made of digits, with a plus sign in front or not. -/
theorem isDigit_or_eq_plus_of_unsignedOfChars? {bound n : Nat}
    (h : unsignedOfChars? bound cs = some n) :
    cs ≠ [] ∧ ∀ c ∈ cs, c.isDigit = true ∨ c = '+' := by
  obtain ⟨m, hm⟩ : ∃ m, natOfChars? (dropPlus cs) = some m := by
    unfold unsignedOfChars? at h
    cases hnumber : natOfChars? (dropPlus cs) with
    | none => simp [hnumber] at h
    | some m => exact ⟨m, rfl⟩
  have hdigits := isDigit_of_natOfChars? hm
  have hne : dropPlus cs ≠ [] := by
    intro hempty
    rw [hempty] at hm
    cases hm
  rcases eq_or_eq_cons_dropPlus cs with hcs | hcs
  · rw [hcs]
    exact ⟨hne, fun c hc => .inl (hdigits c hc)⟩
  · rw [hcs]
    exact ⟨List.cons_ne_nil _ _,
      List.forall_mem_cons.2 ⟨.inr rfl, fun c hc => .inl (hdigits c hc)⟩⟩

/-- Text that is read as a natural number has the characters of numbers. -/
theorem isNumeric_of_unsignedOfChars? {bound n : Nat} (h : unsignedOfChars? bound cs = some n) :
    IsNumeric cs := by
  intro c hc
  rcases (isDigit_or_eq_plus_of_unsignedOfChars? h).2 c hc with hdigit | rfl
  · exact isNumberChar_of_isDigit hdigit
  · rfl

/-! ## Real numbers -/

/-- A letter in lower case was a letter before. -/
theorem isAlpha_of_toLower (h : c.toLower.isAlpha = true) : c.isAlpha = true := by
  by_cases hupper : c.val ≥ 'A'.val ∧ c.val ≤ 'Z'.val
  · have hrange : c.isUpper = true := decide_eq_true hupper
    exact Bool.or_eq_true_iff.2 (.inl hrange)
  · have hsame : c.toLower = c := dif_neg hupper
    rwa [hsame] at h

/-- A name in any case has letters only. -/
theorem isNumeric_of_toLower {name : String} (hname : name.toList.all Char.isAlpha = true)
    (h : String.ofList (cs.map Char.toLower) = name) : IsNumeric cs := by
  intro c hc
  have hlower : c.toLower ∈ name.toList := by
    rw [← h, String.toList_ofList]
    exact List.mem_map_of_mem hc
  exact isNumberChar_of_isAlpha (isAlpha_of_toLower (List.all_eq_true.1 hname _ hlower))

/-- The digits at the front are numeric, so a text is if what follows them is. -/
theorem isNumeric_of_spanDigits (h : IsNumeric (spanDigits cs).2) : IsNumeric cs := by
  have hrest : (spanDigits cs).2 = cs.dropWhile fun c => (Digit.ofChar? c).isSome := by
    simp [spanDigits, List.span_eq_takeWhile_dropWhile]
  have hfront : IsNumeric (cs.takeWhile fun c => (Digit.ofChar? c).isSome) := by
    intro c hc
    have hsome : (Digit.ofChar? c).isSome = true := by simpa using List.mem_takeWhile_imp hc
    cases hdigit : c.isDigit with
    | true => exact isNumberChar_of_isDigit hdigit
    | false => simp [Digit.ofChar?_eq_none_iff.2 hdigit] at hsome
  rw [← List.takeWhile_append_dropWhile (p := fun c => (Digit.ofChar? c).isSome) (l := cs),
    isNumeric_append]
  exact ⟨hfront, hrest ▸ h⟩

private theorem isNumeric_of_exponentOfChars? {e : Int} (h : exponentOfChars? cs = some e) :
    IsNumeric cs := by
  unfold exponentOfChars? at h
  obtain ⟨n, hn, -⟩ := Option.map_eq_some_iff.1 h
  have hnumeric := isNumeric_of_natOfChars? hn
  split at hnumeric
  · exact isNumeric_cons.2 ⟨rfl, hnumeric⟩
  · exact isNumeric_cons.2 ⟨rfl, hnumeric⟩
  · exact hnumeric

/-- What follows the digits of a decimal number is nothing or an exponent. -/
theorem isNumeric_of_exponent {plain : Option Decimal} {value : Int → Decimal} {d : Decimal}
    (h : (match cs with
      | [] => plain
      | c :: cs => if c = 'e' ∨ c = 'E' then (exponentOfChars? cs).map value else none) =
        some d) :
    IsNumeric cs := by
  cases cs with
  | nil => exact isNumeric_nil
  | cons c cs =>
    by_cases hletter : c = 'e' ∨ c = 'E'
    · simp only [if_pos hletter] at h
      obtain ⟨e, he, -⟩ := Option.map_eq_some_iff.1 h
      have hnumber : isNumberChar c = true := by
        rcases hletter with rfl | rfl <;> decide
      exact isNumeric_cons.2 ⟨hnumber, isNumeric_of_exponentOfChars? he⟩
    · simp [hletter] at h

private theorem isNumeric_of_unsignedDecimal? {negative : Bool} {d : Decimal}
    (h : unsignedDecimal? negative cs = some d) : IsNumeric cs := by
  apply isNumeric_of_spanDigits
  unfold unsignedDecimal? at h
  generalize spanDigits cs = whole at h ⊢
  obtain ⟨whole, rest⟩ := whole
  by_cases hpoint : ∃ more, rest = '.' :: more
  · obtain ⟨more, rfl⟩ := hpoint
    refine isNumeric_cons.2 ⟨rfl, isNumeric_of_spanDigits ?_⟩
    simp only at h
    split at h
    · cases h
    · exact isNumeric_of_exponent h
  · have hnone : ∀ more, rest = '.' :: more → False := fun more hmore => hpoint ⟨more, hmore⟩
    simp only at h
    split at h
    · cases h
    · show IsNumeric rest
      exact isNumeric_of_exponent h

/-- What follows the sign of a real number, if there is one. -/
theorem isNumeric_of_scalar {α : Type} [Scalar α] {negative : Bool} {x : α}
    (h : (if String.ofList (cs.map Char.toLower) = "inf" ∨
          String.ofList (cs.map Char.toLower) = "infinity" then Scalar.infinity? negative
        else if String.ofList (cs.map Char.toLower) = "nan" then Scalar.nan?
        else (unsignedDecimal? negative cs).map Scalar.ofDecimal) = some x) :
    IsNumeric cs := by
  split at h
  · rename_i hinf
    rcases hinf with hname | hname
    · exact isNumeric_of_toLower rfl hname
    · exact isNumeric_of_toLower rfl hname
  · split at h
    · rename_i hnan
      exact isNumeric_of_toLower rfl hnan
    · obtain ⟨d, hd, -⟩ := Option.map_eq_some_iff.1 h
      exact isNumeric_of_unsignedDecimal? hd

/-- A text that is accepted as a real number is numeric. -/
theorem isNumeric_of_scalarOfChars? {α : Type} [Scalar α] {x : α}
    (h : scalarOfChars? cs = some x) : IsNumeric cs := by
  unfold scalarOfChars? at h
  split at h
  rename_i negative body hsign
  have hbody : IsNumeric body := isNumeric_of_scalar h
  split at hsign <;> obtain ⟨-, rfl⟩ := Prod.mk.inj hsign
  · exact isNumeric_cons.2 ⟨rfl, hbody⟩
  · exact isNumeric_cons.2 ⟨rfl, hbody⟩
  · exact hbody

end PathSelection
