import Mathlib.Data.Char
import Mathlib.Tactic.Ring
import PathSelection.Number.Digits

/-!
# Digits of numbers

Which characters spell digits, how many digits a number has, what digits with leading
zeros spell, and which of two numbers is the smaller one by their digits.

Main results:

- Theorem `exists_digits_of_natOfChars?`: a text that spells a number is made of digits.
- Theorems `pow_length_digits_le` and `lt_pow_length_digits`: the number of digits.
- Theorem `head?_digits_ne_zero`: no digit zero stands in front of others.
- Theorem `ofDigitsFrom_digitsPadded`: digits behind others, with zeros in between.
- Theorem `compare_ofDigits`: numbers are compared by their digits.
-/

namespace PathSelection

/-! ## Characters of digits -/

namespace Digit

variable {c : Char} {d : Digit}

/-- Only digits spell digits. -/
theorem ofChar?_eq_none_iff : ofChar? c = none ↔ c.isDigit = false := by
  have hval : c.val.toNat = c.toNat := rfl
  simp [ofChar?, Char.isDigit, UInt32.le_iff_toNat_le, hval]

/-- A digit is spelt by the character that it is read from. -/
theorem toChar_of_ofChar? (h : ofChar? c = some d) : d.toChar = c := by
  unfold ofChar? at h
  split at h
  · rename_i hrange
    obtain rfl := Option.some.inj h
    have hcode : 48 + (c.toNat - 48) = c.toNat := by omega
    rw [toChar, hcode, Char.ofNat_toNat]
  · cases h

private theorem isDigit_iff : c.isDigit = true ↔ '0' ≤ c ∧ c ≤ '9' := by
  simp [Char.isDigit, Char.le_def]

/-- A digit is spelt by a digit. -/
theorem isDigit_toChar (d : Digit) : d.toChar.isDigit = true := by
  revert d
  decide

/-- The characters of digits are ordered as the digits are. -/
theorem compare_toChar (d e : Digit) : compare d.toChar e.toChar = compare d e := by
  revert d e
  decide

/-- All digits stand on the same side of a character that is not a digit. -/
theorem compare_of_isDigit {b : Char} (hc : c.isDigit = true) (hb : b.isDigit = false) :
    compare c b = (compare '0' b).then .lt := by
  obtain ⟨hzero, hnine⟩ := isDigit_iff.1 hc
  rcases lt_or_ge b '0' with hlt | hge
  · rw [compare_gt_iff_gt.2 hlt, compare_gt_iff_gt.2 (hlt.trans_le hzero)]
    rfl
  · have hlt : '9' < b := by
      rw [← not_le]
      intro hle
      rw [isDigit_iff.2 ⟨hge, hle⟩] at hb
      cases hb
    rw [compare_lt_iff_lt.2 (hnine.trans_lt hlt),
      compare_lt_iff_lt.2 ((by decide : '0' < '9').trans hlt)]
    rfl

private theorem mapM_ofChar?_eq_some {cs : List Char} {run : List Digit}
    (h : cs.mapM ofChar? = some run) :
    cs = run.map toChar := by
  induction cs generalizing run with
  | nil =>
    obtain rfl : [] = run := by simpa using h
    rfl
  | cons c cs ih =>
    simp only [List.mapM_cons, Option.bind_eq_bind, Option.bind_eq_some_iff] at h
    obtain ⟨d, hd, rest, hrest, hrun⟩ := h
    obtain rfl := Option.some.inj hrun
    rw [List.map_cons, toChar_of_ofChar? hd, ← ih hrest]

/-- The leading digits of a text. -/
theorem exists_takeWhile_isDigit (cs : List Char) :
    ∃ run : List Digit, cs.takeWhile Char.isDigit = run.map toChar := by
  induction cs with
  | nil => exact ⟨[], rfl⟩
  | cons c cs ih =>
    obtain ⟨run, hrun⟩ := ih
    cases hc : ofChar? c with
    | none => exact ⟨[], List.takeWhile_cons_of_neg (by simp [ofChar?_eq_none_iff.1 hc])⟩
    | some d =>
      obtain rfl := toChar_of_ofChar? hc
      exact ⟨d :: run, by rw [List.takeWhile_cons_of_pos (isDigit_toChar d), hrun, List.map_cons]⟩

end Digit

/-- Text that spells a number is a run of digits. -/
theorem exists_digits_of_natOfChars? {cs : List Char} {n : Nat} (h : natOfChars? cs = some n) :
    ∃ run : List Digit, run ≠ [] ∧ cs = run.map Digit.toChar ∧ ofDigits run = n := by
  unfold natOfChars? at h
  split at h
  · cases h
  · rename_i hne
    obtain ⟨run, hrun, hnumber⟩ := Option.map_eq_some_iff.1 h
    have hcs := Digit.mapM_ofChar?_eq_some hrun
    refine ⟨run, ?_, hcs, hnumber⟩
    rintro rfl
    exact hne (by rw [hcs]; rfl)

/-! ## Digits one by one -/

private theorem digitsOnto_append (n : Nat) (ds tail : List Digit) :
    digitsOnto n (ds ++ tail) = digitsOnto n ds ++ tail := by
  fun_induction digitsOnto n ds with
  | case1 n ds last h =>
    rw [digitsOnto, if_pos h]
    rfl
  | case2 n ds last h ih =>
    rw [digitsOnto, if_neg h]
    exact ih

/-- A number below ten has one digit. -/
theorem digits_of_lt {n : Nat} (h : n < 10) : digits n = [⟨n, h⟩] := by
  rw [digits, digitsOnto, if_pos h]
  simp [Nat.mod_eq_of_lt h]

/-- The last digit of a number stands behind the digits of the rest. -/
theorem digits_of_le {n : Nat} (h : 10 ≤ n) :
    digits n = digits (n / 10) ++ [⟨n % 10, Nat.mod_lt _ (by decide)⟩] := by
  rw [digits, digitsOnto, if_neg (by omega), digits]
  exact digitsOnto_append (n / 10) [] _

/-- Every number has a digit. -/
theorem digits_ne_nil (n : Nat) : digits n ≠ [] := by
  by_cases h : n < 10
  · simp [digits_of_lt h]
  · simp [digits_of_le (Nat.le_of_not_lt h)]

/-! ## The number of digits -/

private theorem length_digits_pos (n : Nat) : 0 < (digits n).length :=
  List.length_pos_iff.2 (digits_ne_nil n)

/-- A number is below the power of ten with as many zeros as the number has digits. -/
theorem lt_pow_length_digits (n : Nat) : n < 10 ^ (digits n).length := by
  induction n using Nat.strongRecOn with
  | ind n ih =>
    by_cases h : n < 10
    · simpa [digits_of_lt h] using h
    · have hle := Nat.le_of_not_lt h
      have hrest := ih (n / 10) (by omega)
      rw [digits_of_le hle, List.length_append, pow_add]
      simp only [List.length_singleton, pow_one]
      omega

/-- A positive number reaches the power of ten of its first digit. -/
theorem pow_length_digits_le {n : Nat} (hpos : 0 < n) : 10 ^ ((digits n).length - 1) ≤ n := by
  induction n using Nat.strongRecOn with
  | ind n ih =>
    by_cases h : n < 10
    · simpa [digits_of_lt h] using Nat.succ_le_of_lt hpos
    · have hle := Nat.le_of_not_lt h
      have hrest := ih (n / 10) (by omega) (by omega)
      obtain ⟨length, hlength⟩ := Nat.exists_eq_succ_of_ne_zero (length_digits_pos (n / 10)).ne'
      rw [hlength, Nat.succ_sub_one] at hrest
      rw [digits_of_le hle, List.length_append, hlength, List.length_singleton, Nat.add_sub_cancel,
        pow_succ]
      omega

/-- A number below a power of ten has no more digits than its exponent. -/
theorem length_digits_le {n w : Nat} (h : n < 10 ^ w) (hw : 0 < w) : (digits n).length ≤ w := by
  rcases Nat.eq_zero_or_pos n with rfl | hpos
  · simpa [digits_of_lt] using Nat.succ_le_of_lt hw
  · have hlt : 10 ^ ((digits n).length - 1) < 10 ^ w := (pow_length_digits_le hpos).trans_lt h
    have hexponent := (Nat.pow_lt_pow_iff_right (by decide)).1 hlt
    omega

/-- No digit zero stands in front of a positive number. -/
theorem head?_digits_ne_zero {n : Nat} (hpos : 0 < n) : ∀ d ∈ (digits n).head?, d.val ≠ 0 := by
  induction n using Nat.strongRecOn with
  | ind n ih =>
    by_cases h : n < 10
    · simpa [digits_of_lt h] using hpos.ne'
    · have hle := Nat.le_of_not_lt h
      rw [digits_of_le hle, List.head?_append, Option.or_of_isSome (by simp [digits_ne_nil])]
      exact ih (n / 10) (by omega) (by omega)

/-! ## Digits behind others -/

private theorem ofDigitsFrom_append (n : Nat) (ds es : List Digit) :
    ofDigitsFrom n (ds ++ es) = ofDigitsFrom (ofDigitsFrom n ds) es := by
  simp [ofDigitsFrom]

private theorem ofDigitsFrom_eq (n : Nat) (ds : List Digit) :
    ofDigitsFrom n ds = n * 10 ^ ds.length + ofDigits ds := by
  induction ds generalizing n with
  | nil => simp [ofDigits]
  | cons d ds ih =>
    have hdigits : ofDigits (d :: ds) = d.val * 10 ^ ds.length + ofDigits ds := by
      rw [ofDigits, ofDigitsFrom_cons, ih, mul_zero, zero_add]
    rw [ofDigitsFrom_cons, ih, hdigits, List.length_cons]
    ring

private theorem ofDigits_cons (d : Digit) (ds : List Digit) :
    ofDigits (d :: ds) = d.val * 10 ^ ds.length + ofDigits ds := by
  rw [ofDigits, ofDigitsFrom_cons, ofDigitsFrom_eq, mul_zero, zero_add]

private theorem ofDigits_lt_pow (ds : List Digit) : ofDigits ds < 10 ^ ds.length := by
  induction ds with
  | nil => decide
  | cons d ds ih =>
    have hdigit : d.val * 10 ^ ds.length ≤ 9 * 10 ^ ds.length :=
      Nat.mul_le_mul_right _ (Nat.le_of_lt_succ d.isLt)
    rw [ofDigits_cons, List.length_cons, pow_succ]
    omega

private theorem ofDigits_replicate_zero (k : Nat) : ofDigits (List.replicate k Digit.zero) = 0 := by
  induction k with
  | zero => rfl
  | succ k ih => rwa [List.replicate_succ, ofDigits, ofDigitsFrom_cons]

/-- A number that is short enough is padded to its width. -/
theorem length_digitsPadded {w n : Nat} (h : n < 10 ^ w) (hw : 0 < w) :
    (digitsPadded w n).length = w := by
  have hle := length_digits_le h hw
  simp only [digitsPadded, List.length_append, List.length_replicate, List.length_drop]
  omega

/-- Digits with leading zeros, behind others, fill up their places. -/
theorem ofDigitsFrom_digitsPadded {w n : Nat} (h : n < 10 ^ w) (hw : 0 < w) (m : Nat) :
    ofDigitsFrom m (digitsPadded w n) = m * 10 ^ w + n := by
  have hle := length_digits_le h hw
  have hpadded : digitsPadded w n =
      List.replicate (w - (digits n).length) Digit.zero ++ digits n := by
    simp [digitsPadded, Nat.sub_eq_zero_of_le hle]
  rw [ofDigitsFrom_eq, length_digitsPadded h hw, hpadded, ofDigits, ofDigitsFrom_append]
  change m * 10 ^ w + ofDigitsFrom (ofDigits _) (digits n) = _
  rw [ofDigits_replicate_zero]
  change m * 10 ^ w + ofDigits (digits n) = _
  rw [ofDigits_digits]

/-! ## Comparing digits -/

/-- Numbers in two parts are compared by their first parts if the second ones are small. -/
theorem compare_mul_add {a b k x y : Nat} (hx : x < k) (hy : y < k) :
    compare (a * k + x) (b * k + y) = (compare a b).then (compare x y) := by
  rcases Nat.lt_trichotomy a b with hab | rfl | hab
  · have hparts : (a + 1) * k ≤ b * k := Nat.mul_le_mul_right k hab
    rw [Nat.succ_mul] at hparts
    rw [Nat.compare_eq_lt.2 hab, Nat.compare_eq_lt.2 (by omega)]
    rfl
  · simp only [Nat.compare_eq_ite_lt, Nat.add_lt_add_iff_left, Nat.lt_irrefl, if_false]
    rfl
  · have hparts : (b + 1) * k ≤ a * k := Nat.mul_le_mul_right k hab
    rw [Nat.succ_mul] at hparts
    rw [Nat.compare_eq_gt.2 hab, Nat.compare_eq_gt.2 (by omega)]
    rfl

/-- Of numbers with as many digits as each other, the first digit that differs decides. -/
theorem compare_ofDigits_of_length_eq {r s : List Digit} (h : r.length = s.length) :
    compare (ofDigits r) (ofDigits s) = compare r s := by
  induction r generalizing s with
  | nil =>
    obtain rfl := List.length_eq_zero_iff.1 h.symm
    rfl
  | cons d r ih =>
    cases s with
    | nil => cases h
    | cons e s =>
      have hlength : r.length = s.length := Nat.succ_inj.1 h
      rw [ofDigits_cons, ofDigits_cons, hlength,
        compare_mul_add (hlength ▸ ofDigits_lt_pow r) (ofDigits_lt_pow s), ih hlength,
        List.compare_cons_cons]
      rfl

/-- Digits are told from their number and their length. -/
theorem ofDigits_inj {r s : List Digit} (hlength : r.length = s.length)
    (h : ofDigits r = ofDigits s) : r = s := by
  rw [← Nat.compare_eq_eq, compare_ofDigits_of_length_eq hlength] at h
  exact Std.LawfulEqOrd.eq_of_compare h

/-- Digits without those zeros that stand in front. -/
def trimZeros (ds : List Digit) : List Digit := ds.dropWhile (· == Digit.zero)

private theorem ofDigits_trimZeros (ds : List Digit) : ofDigits (trimZeros ds) = ofDigits ds := by
  induction ds with
  | nil => rfl
  | cons d ds ih =>
    by_cases h : d = Digit.zero
    · subst h
      rw [trimZeros, List.dropWhile_cons_of_pos (by simp), ofDigits_cons, ← ih]
      simp [trimZeros, Digit.zero]
    · rw [trimZeros, List.dropWhile_cons_of_neg (by simpa using h)]

/-- Without zeros in front, the number with fewer digits is the smaller one. -/
theorem ofDigits_trimZeros_lt {r s : List Digit}
    (h : (trimZeros r).length < (trimZeros s).length) : ofDigits r < ofDigits s := by
  rw [← ofDigits_trimZeros r, ← ofDigits_trimZeros s]
  cases hs : trimZeros s with
  | nil => simp [hs] at h
  | cons e rest =>
    have hhead := List.head?_dropWhile_not (· == Digit.zero) s
    rw [← trimZeros.eq_def, hs] at hhead
    have hne : e ≠ Digit.zero := by simpa using hhead
    have hpos : 1 ≤ e.val := Nat.pos_of_ne_zero fun hzero => hne (Fin.ext hzero)
    rw [hs] at h
    calc ofDigits (trimZeros r)
      _ < 10 ^ (trimZeros r).length := ofDigits_lt_pow _
      _ ≤ 10 ^ rest.length := Nat.pow_le_pow_right (by decide) (Nat.le_of_lt_succ h)
      _ = 1 * 10 ^ rest.length := (Nat.one_mul _).symm
      _ ≤ e.val * 10 ^ rest.length := Nat.mul_le_mul_right _ hpos
      _ ≤ ofDigits (e :: rest) := by
        rw [ofDigits_cons]
        exact Nat.le_add_right _ _

/-- Numbers are compared by how many digits they have without zeros in front, and then by the first
digit that differs. -/
theorem compare_ofDigits (r s : List Digit) : compare (ofDigits r) (ofDigits s) =
    (compare (trimZeros r).length (trimZeros s).length).then
      (compare (trimZeros r) (trimZeros s)) := by
  rcases Nat.lt_trichotomy (trimZeros r).length (trimZeros s).length with h | h | h
  · rw [Nat.compare_eq_lt.2 h, Nat.compare_eq_lt.2 (ofDigits_trimZeros_lt h)]
    rfl
  · rw [Nat.compare_eq_eq.2 h, ← ofDigits_trimZeros r, ← ofDigits_trimZeros s,
      compare_ofDigits_of_length_eq h]
    rfl
  · rw [Nat.compare_eq_gt.2 h, Nat.compare_eq_gt.2 (ofDigits_trimZeros_lt h)]
    rfl

end PathSelection
