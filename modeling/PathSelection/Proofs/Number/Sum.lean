import PathSelection.Proofs.Number.Order

/-!
# Sums of doubles

Adding two doubles that are not negative gives a double that is not negative.  Doubles stand on
multiples of a smallest step, so nothing is lost when two small ones are added, and a sum too large
to be held is infinite; so the sum is positive exactly if one of the two is.

Main results:

- Theorem `isPositive_pack_round`: rounding a number on the grid of doubles leaves it positive.
- Theorem `lt_zero_add_iff`: when a sum of two doubles that are not negative is positive.
-/

namespace PathSelection

open Float.Model (Format UnpackedFloat totalExponent)
open Float.Model.UnpackedFloat

variable {m n : Nat} {e f : Int} {s : Sign} {u v : UnpackedFloat} {x y : Float}

/-! ## Signs -/

/-- A double in parts that is larger than zero. -/
def IsPositive : UnpackedFloat → Prop
  | .finite .positive _ _ _ | .infinity .positive => True
  | _ => False

/-- A double in parts that is zero, of either sign. -/
def IsZero : UnpackedFloat → Prop
  | .zero _ => True
  | _ => False

private theorem IsPositive.not_isZero (h : IsPositive u) : ¬IsZero u := by
  cases u with
  | zero => exact h.elim
  | infinity | notANumber | finite => exact not_false

private theorem IsPositive.eq_or (h : IsPositive u) :
    u = .infinity .positive ∨ ∃ m e hm, u = .finite .positive m e hm := by
  cases u with
  | zero | notANumber => exact h.elim
  | infinity s =>
    cases s with
    | positive => exact .inl rfl
    | negative => exact h.elim
  | finite s m e hm =>
    cases s with
    | positive => exact .inr ⟨m, e, hm, rfl⟩
    | negative => exact h.elim

private theorem unpack_zero : (Scalar.zero : Float).toModel.unpack = .zero .positive := rfl

private theorem lt_zero_iff : Scalar.lt Scalar.zero x = true ↔ IsPositive x.toModel.unpack := by
  rw [lt_iff_unpack, unpack_zero]
  cases x.toModel.unpack with
  | zero | notANumber => simp [UnpackedFloat.lt, UnpackedFloat.compare, IsPositive]
  | infinity s | finite s =>
    cases s <;> simp [UnpackedFloat.lt, UnpackedFloat.compare, IsPositive]

private theorem le_zero_iff :
    Scalar.le Scalar.zero x = true ↔ IsZero x.toModel.unpack ∨ IsPositive x.toModel.unpack := by
  rw [le_iff_unpack, unpack_zero]
  cases x.toModel.unpack with
  | zero | notANumber => simp [UnpackedFloat.le, UnpackedFloat.compare, IsPositive, IsZero]
  | infinity s | finite s =>
    cases s <;> simp [UnpackedFloat.le, UnpackedFloat.compare, IsPositive, IsZero]

/-! ## Packing -/

private theorem unpack_packedInfinity (s : Sign) :
    unpack Format.binary64 (packedInfinity Format.binary64 s) = .infinity s := by
  cases s <;> rfl

/-- A significand in place whose exponent is out of range is packed as an infinity. -/
theorem InPlace.unpack_pack_of_lt (h : InPlace m e) (hrange : 971 < e) :
    unpack Format.binary64 (pack Format.binary64 (.finite s m e h.pos)) = .infinity s := by
  have hbiased : 2 ^ Format.binary64.exponentBits ≤ (e + Format.binary64.exponentBias +
      Format.binary64.mantissaBitsWithoutImplicit).toNat + 1 := by
    simp only [Format.exponentBias]
    omega
  rw [pack, if_pos hbiased, unpack_packedInfinity]

private theorem isPositive_pack_infinity :
    IsPositive (unpack Format.binary64 (pack Format.binary64 (.infinity .positive))) := trivial

private theorem InPlace.isPositive_pack (h : InPlace m e) :
    IsPositive (unpack Format.binary64 (pack Format.binary64 (.finite .positive m e h.pos))) := by
  rcases le_or_gt e 971 with hrange | hrange
  · rw [h.unpack_pack hrange]
    trivial
  · rw [h.unpack_pack_of_lt hrange]
    trivial

/-- Rounding a number on the grid of doubles leaves it positive. -/
theorem isPositive_pack_round (hpos : 0 < m) (he : -1074 ≤ e) :
    IsPositive (unpack Format.binary64 (pack Format.binary64
      (UnpackedFloat.round Format.binary64 .positive m e))) := by
  obtain ⟨hfine, -⟩ | ⟨n, f, hplace, hround, -⟩ :=
    round_eq_or (T := max (-1021) (totalExponent m e)) (s := .positive) hpos (le_max_left _ _)
      (le_max_right _ _)
  · omega
  · rw [hround]
    exact hplace.isPositive_pack

private theorem unpack_ofModel_pack (u : UnpackedFloat) : (Float.ofModel (.pack u)).toModel.unpack =
    unpack Format.binary64 (pack Format.binary64 u) := rfl

/-- What was unpacked is packed and unpacked again as it is. -/
theorem unpack_pack_unpack (x : Float) :
    unpack Format.binary64 (pack Format.binary64 x.toModel.unpack) = x.toModel.unpack := by
  rw [← unpack_ofModel_pack, ofModel_pack_unpack]

/-! ## Sums -/

private theorem unpack_add (x y : Float) : (x + y).toModel.unpack = unpack Format.binary64
    (pack Format.binary64 (UnpackedFloat.add Format.binary64 x.toModel.unpack y.toModel.unpack)) :=
  rfl

/-- Zeros add up to a zero. -/
theorem isZero_add (hx : IsZero x.toModel.unpack) (hy : IsZero y.toModel.unpack) :
    IsZero (x + y).toModel.unpack := by
  rw [unpack_add]
  generalize x.toModel.unpack = u at *
  generalize y.toModel.unpack = v at *
  cases u with
  | infinity | notANumber | finite => exact hx.elim
  | zero s =>
    cases v with
    | infinity | notANumber | finite => exact hy.elim
    | zero t => cases s <;> cases t <;> trivial

/-- The sum of two positive finite numbers is a number on the grid of doubles. -/
theorem isPositive_pack_add (hm : InPlace m e) (hn : InPlace n f) :
    IsPositive (unpack Format.binary64 (pack Format.binary64 (UnpackedFloat.add Format.binary64
      (.finite .positive m e hm.pos) (.finite .positive n f hn.pos)))) := by
  have he : -1074 ≤ min e f := by
    have hleast := hm.log2_eq_or
    have hleast' := hn.log2_eq_or
    omega
  obtain ⟨M, hM⟩ : ∃ M, M = m * 2 ^ (e - min e f).toNat + n * 2 ^ (f - min e f).toNat := ⟨_, rfl⟩
  have hpos : 0 < M := by
    have hm' := hm.pos
    rw [hM]
    positivity
  have hsum : UnpackedFloat.add Format.binary64 (.finite .positive m e hm.pos)
      (.finite .positive n f hn.pos) =
        UnpackedFloat.normalize Format.binary64 M (min e f) .positive := by
    simp only [UnpackedFloat.add, decreaseExponent, Sign.apply, Nat.shiftLeft_eq, hM,
      Nat.cast_add]
  have hgt : compare (M : Int) 0 = .gt := Int.compare_eq_gt.2 (by omega)
  rw [hsum]
  simp only [UnpackedFloat.normalize, hgt, Int.toNat_natCast]
  exact isPositive_pack_round hpos he

private theorem add_eq_right (hu : IsZero u) (hv : IsPositive v) :
    UnpackedFloat.add Format.binary64 u v = v := by
  cases u with
  | infinity | notANumber | finite => exact hu.elim
  | zero s =>
    cases v with
    | zero | notANumber => exact hv.elim
    | infinity | finite => rfl

private theorem add_eq_left (hu : IsPositive u) (hv : IsZero v) :
    UnpackedFloat.add Format.binary64 u v = u := by
  cases v with
  | infinity | notANumber | finite => exact hv.elim
  | zero s =>
    cases u with
    | zero | notANumber => exact hu.elim
    | infinity | finite => rfl

/-- Positive numbers add up to a positive one, which may be infinite. -/
theorem isPositive_add (hx : IsPositive x.toModel.unpack) (hy : IsPositive y.toModel.unpack) :
    IsPositive (x + y).toModel.unpack := by
  rw [unpack_add]
  obtain hu | ⟨m, e, hm, hu⟩ := hx.eq_or
  · rw [hu]
    obtain hv | ⟨n, f, hn, hv⟩ := hy.eq_or <;> rw [hv] <;> exact isPositive_pack_infinity
  · obtain hv | ⟨n, f, hn, hv⟩ := hy.eq_or
    · rw [hu, hv]
      exact isPositive_pack_infinity
    · rw [hu, hv]
      exact isPositive_pack_add (inPlace_of_unpack hu).1 (inPlace_of_unpack hv).1

/-- Two doubles that are not negative add up to zero, if both are zero, or to a positive number. -/
theorem add_cases (hx : Scalar.le Scalar.zero x = true) (hy : Scalar.le Scalar.zero y = true) :
    IsZero x.toModel.unpack ∧ IsZero y.toModel.unpack ∧ IsZero (x + y).toModel.unpack ∨
      (IsPositive x.toModel.unpack ∨ IsPositive y.toModel.unpack) ∧
        IsPositive (x + y).toModel.unpack := by
  obtain hx | hx := le_zero_iff.1 hx
  · obtain hy | hy := le_zero_iff.1 hy
    · exact .inl ⟨hx, hy, isZero_add hx hy⟩
    · refine .inr ⟨.inr hy, ?_⟩
      rwa [unpack_add, add_eq_right hx hy, unpack_pack_unpack]
  · obtain hy | hy := le_zero_iff.1 hy
    · refine .inr ⟨.inl hx, ?_⟩
      rwa [unpack_add, add_eq_left hx hy, unpack_pack_unpack]
    · exact .inr ⟨.inl hx, isPositive_add hx hy⟩

/-- A sum of doubles that are not negative is not negative. -/
theorem le_zero_add (hx : Scalar.le Scalar.zero x = true) (hy : Scalar.le Scalar.zero y = true) :
    Scalar.le Scalar.zero (x + y) = true :=
  le_zero_iff.2 ((add_cases hx hy).imp (·.2.2) (·.2))

/-- A sum of doubles that are not negative is positive exactly if one of them is. -/
theorem lt_zero_add_iff (hx : Scalar.le Scalar.zero x = true)
    (hy : Scalar.le Scalar.zero y = true) :
    Scalar.lt Scalar.zero (x + y) = true ↔
      Scalar.lt Scalar.zero x = true ∨ Scalar.lt Scalar.zero y = true := by
  simp only [lt_zero_iff]
  obtain ⟨hx, hy, hsum⟩ | ⟨hpositive, hsum⟩ := add_cases hx hy
  · refine iff_of_false (fun h => h.not_isZero hsum) ?_
    rintro (h | h)
    · exact h.not_isZero hx
    · exact h.not_isZero hy
  · exact iff_of_true hsum hpositive

/-- Doubles that are neither negative nor positive are equal. -/
theorem beq_of_not_lt_zero (hx : Scalar.le Scalar.zero x = true)
    (hy : Scalar.le Scalar.zero y = true) (hx' : ¬Scalar.lt Scalar.zero x = true)
    (hy' : ¬Scalar.lt Scalar.zero y = true) : (x == y) = true := by
  have hzero := (le_zero_iff.1 hx).resolve_right fun h => hx' (lt_zero_iff.2 h)
  have hzero' := (le_zero_iff.1 hy).resolve_right fun h => hy' (lt_zero_iff.2 h)
  change x.toModel.unpack.beq y.toModel.unpack = true
  cases hu : x.toModel.unpack with
  | infinity | notANumber | finite => simp [hu, IsZero] at hzero
  | zero s =>
    cases hv : y.toModel.unpack with
    | infinity | notANumber | finite => simp [hv, IsZero] at hzero'
    | zero t => rfl

end PathSelection
