import PathSelection.Proofs.Number.ReadBack

/-!
# The order of doubles

A finite double has a value, a rational number.  Doubles are compared as their
values, and infinities and NaN are not between any two of them.  A number below
a power of two is not rounded above it; hence what is left of one after a
number from `[0, 1]` lies in `[0, 1]` again, rounded or not.

Main results:

- Theorem `value?_ofNat`: counts of 53 bits are doubles of the same value.
- Theorems `lt_of_value?` and `le_of_value?`: doubles are compared as their values.
- Theorem `le_le_iff`: the doubles between two others are those with a value between theirs.
- Theorem `lt_of_extended?`: doubles other than NaN are compared as their values, infinities
  included.
- Theorem `round_eq_or`: rounding does not lead above a power of two.
- Theorem `between_one_sub`: one minus a double from `[0, 1]` is a double from `[0, 1]`.
-/

namespace PathSelection

open Float.Model (Format UnpackedFloat totalExponent)
open Float.Model.UnpackedFloat

/-! ## Exact values -/

/-- The rational number of this value. -/
def Dyadic.toRat (d : Dyadic) : Rat :=
  (if d.negative then -1 else 1) * (d.significand * 2 ^ d.exponent)

/-- The exact value of a double; infinities and NaN have none. -/
def Float.value? (x : Float) : Option Rat := (Dyadic.ofFloat? x).map Dyadic.toRat

/-- The exact value of a finite double, and zero for any other. -/
def Float.exact (x : Float) : Rat := (value? x).getD 0

/-- The exact value of a double in parts. -/
def unpackedValue? : UnpackedFloat → Option Rat
  | .finite .positive m e _ => some (m * 2 ^ e)
  | .finite .negative m e _ => some (-(m * 2 ^ e))
  | .zero _ => some 0
  | _ => none

variable {m n : Nat} {e f t : Int} {s : Sign} {x y z : Float} {r q : Rat}

private theorem Float.value?_eq (x : Float) : value? x = unpackedValue? x.toModel.unpack := by
  rw [value?, Dyadic.ofFloat?_eq]
  cases x.toModel.unpack with
  | finite s m e hpos => cases s <;> simp [unpackedValue?, Dyadic.toRat]
  | zero s => simp [unpackedValue?, Dyadic.toRat]
  | notANumber => rfl
  | infinity s => rfl

/-- The finite doubles are those with a value. -/
theorem Float.isSome_value? (x : Float) : (value? x).isSome = finite x := by
  have hnan : x.isNaN = x.toModel.unpack.isNaN := rfl
  have hinf : x.isInf = x.toModel.unpack.isInf := rfl
  rw [finite, hnan, hinf, value?_eq]
  cases x.toModel.unpack with
  | finite s m e hpos => cases s <;> rfl
  | zero | notANumber | infinity => rfl

/-- The value of the double zero. -/
theorem value?_zero : Float.value? Scalar.zero = some 0 := by
  have hparts : Dyadic.ofFloat? Scalar.zero = some ⟨false, 0, -1074⟩ := by decide +kernel
  simp [Float.value?, hparts, Dyadic.toRat]

private theorem unpack_one :
    (Scalar.one : Float).toModel.unpack = .finite .positive (2 ^ 52) (-52) (by decide) :=
  rfl

/-- The value of the double one. -/
theorem value?_one : Float.value? Scalar.one = some 1 := by
  rw [Float.value?_eq, unpack_one]
  norm_num [unpackedValue?]

/-- Integers of 53 bits are read as doubles of the same value. -/
theorem value?_ofNat {n : Nat} (h : n < 2 ^ 53) :
    Float.value? (Scalar.ofNat n) = some (n : Rat) := by
  rcases Nat.eq_zero_or_pos n with rfl | hpos
  · exact value?_zero
  · obtain ⟨m, e, hm, hunpack, he, hscaled⟩ := unpack_toFloat hpos h
    obtain ⟨hplace, hrange⟩ := inPlace_of_unpack hunpack
    have hproduct : UnpackedFloat.mul Format.binary64 n.toUInt64.toFloat.toModel.unpack
        (Scalar.one : Float).toModel.unpack = .finite .positive m e hm := by
      rw [hunpack, unpack_one]
      exact hplace.roundWithAccuracy (s := .positive) 52
    have hvalue : (Scalar.ofNat n : Float).toModel.unpack = .finite .positive m e hm := by
      have hofNat : (Scalar.ofNat n : Float) = n.toUInt64.toFloat * Scalar.one := by
        change Float.ofScientific n false 0 = _
        unfold Float.ofScientific
        rw [dif_pos ⟨h, by decide⟩]
        rfl
      rw [hofNat]
      change unpack Format.binary64 (pack Format.binary64 (UnpackedFloat.mul Format.binary64
        n.toUInt64.toFloat.toModel.unpack (Scalar.one : Float).toModel.unpack)) = _
      rw [hproduct, hplace.unpack_pack hrange]
    obtain ⟨k, rfl⟩ : ∃ k : Nat, e = -k := ⟨(-e).toNat, by omega⟩
    rw [Float.value?_eq, hvalue, unpackedValue?, hscaled]
    simp [zpow_neg]

private theorem value_pos (h : 0 < m) : (0 : Rat) < m * 2 ^ e :=
  mul_pos (Nat.cast_pos.2 h) (zpow_pos two_pos e)

/-! ## Comparison -/

/-- Of two significands in place the one with the larger exponent has the larger value. -/
theorem InPlace.lt_of_exponent_lt (h : InPlace m e) (h' : InPlace n f) (hlt : e < f) :
    (m : Rat) * 2 ^ e < n * 2 ^ f := by
  have hm : m < 2 ^ 53 := (Nat.log2_lt h.pos.ne').1 (by have := h.log2_eq_or; omega)
  have hn : 2 ^ 52 ≤ n := by
    have hlog : n.log2 = 52 := by
      have := h.log2_eq_or
      have := h'.log2_eq_or
      omega
    exact hlog ▸ Nat.log2_self_le h'.pos.ne'
  have hm' : (m : Rat) < 2 ^ 53 := by exact_mod_cast hm
  have hn' : (2 : Rat) ^ 52 ≤ n := by exact_mod_cast hn
  calc (m : Rat) * 2 ^ e < 2 ^ 53 * 2 ^ e := by gcongr
    _ = 2 ^ 52 * 2 ^ (e + 1) := by rw [zpow_add_one₀ two_ne_zero]; ring
    _ ≤ n * 2 ^ f := by gcongr; exacts [one_le_two, hlt]

/-- Parts in place are compared by exponent and then by significand. -/
theorem InPlace.compare_eq (h : InPlace m e) (h' : InPlace n f) :
    (compare e f).then (compare m n) = compare ((m : Rat) * 2 ^ e) (n * 2 ^ f) := by
  rcases lt_trichotomy e f with hlt | rfl | hgt
  · rw [compare_lt_iff_lt.2 hlt, compare_lt_iff_lt.2 (h.lt_of_exponent_lt h' hlt)]
    rfl
  · have hscale : (0 : Rat) < 2 ^ e := zpow_pos two_pos e
    have hself : compare e e = .eq := compare_eq_iff_eq.2 rfl
    rw [hself, Ordering.then]
    rcases lt_trichotomy m n with hlt | rfl | hgt
    · rw [compare_lt_iff_lt.2 hlt, eq_comm, compare_lt_iff_lt]
      exact mul_lt_mul_of_pos_right (Nat.cast_lt.2 hlt) hscale
    · rw [compare_eq_iff_eq.2 rfl, compare_eq_iff_eq.2 rfl]
    · rw [compare_gt_iff_gt.2 hgt, eq_comm, compare_gt_iff_gt]
      exact mul_lt_mul_of_pos_right (Nat.cast_lt.2 hgt) hscale
  · rw [compare_gt_iff_gt.2 hgt, compare_gt_iff_gt.2 (h'.lt_of_exponent_lt h hgt)]
    rfl

private theorem compare_neg (a b : Rat) : compare (-a) (-b) = (compare a b).swap := by
  rcases lt_trichotomy a b with hlt | rfl | hgt
  · rw [compare_lt_iff_lt.2 hlt, compare_gt_iff_gt.2 (neg_lt_neg hlt)]
    rfl
  · rw [compare_eq_iff_eq.2 rfl, compare_eq_iff_eq.2 rfl]
    rfl
  · rw [compare_gt_iff_gt.2 hgt, compare_lt_iff_lt.2 (neg_lt_neg hgt)]
    rfl

/-- The significand of a finite number stands in place. -/
def IsInPlace : UnpackedFloat → Prop
  | .finite _ m e _ => InPlace m e
  | _ => True

private theorem isInPlace_unpack (x : Float) : IsInPlace x.toModel.unpack := by
  cases hunpack : x.toModel.unpack with
  | finite s m e hpos => exact (inPlace_of_unpack hunpack).1
  | _ => trivial

/-- Doubles in parts are compared as their values. -/
theorem compare_of_unpackedValue? {u v : UnpackedFloat} (hu : IsInPlace u) (hv : IsInPlace v)
    (hr : unpackedValue? u = some r) (hq : unpackedValue? v = some q) :
    u.compare v = some (compare r q) := by
  cases u with
  | notANumber | infinity => cases hr
  | zero s =>
    obtain rfl := Option.some.inj hr
    cases v with
    | notANumber | infinity => cases hq
    | zero s' =>
      obtain rfl := Option.some.inj hq
      rfl
    | finite s' n f hn =>
      have hpos := value_pos (e := f) hn
      cases s' <;> obtain rfl := Option.some.inj hq
      · exact congrArg some (compare_gt_iff_gt.2 (neg_neg_of_pos hpos)).symm
      · exact congrArg some (compare_lt_iff_lt.2 hpos).symm
  | finite s m e hm =>
    have hpos := value_pos (e := e) hm
    cases v with
    | notANumber | infinity => cases hq
    | zero s' =>
      obtain rfl := Option.some.inj hq
      cases s <;> obtain rfl := Option.some.inj hr
      · exact congrArg some (compare_lt_iff_lt.2 (neg_neg_of_pos hpos)).symm
      · exact congrArg some (compare_gt_iff_gt.2 hpos).symm
    | finite s' n f hn =>
      have hpos' := value_pos (e := f) hn
      -- Numbers of one sign are compared by their parts, and below zero the other way round.
      cases s <;> cases s' <;> obtain rfl := Option.some.inj hr <;>
        obtain rfl := Option.some.inj hq
      · simpa [UnpackedFloat.compare, compare_neg] using hu.compare_eq hv
      · exact congrArg some (compare_lt_iff_lt.2 ((neg_neg_of_pos hpos).trans hpos')).symm
      · exact congrArg some (compare_gt_iff_gt.2 ((neg_neg_of_pos hpos').trans hpos)).symm
      · simpa [UnpackedFloat.compare] using hu.compare_eq hv

private theorem compare_of_value? (hr : Float.value? x = some r) (hq : Float.value? y = some q) :
    x.toModel.unpack.compare y.toModel.unpack = some (compare r q) := by
  rw [Float.value?_eq] at hr hq
  exact compare_of_unpackedValue? (isInPlace_unpack x) (isInPlace_unpack y) hr hq

/-- Doubles are compared by their parts. -/
theorem lt_iff_unpack : Scalar.lt x y = true ↔ x.toModel.unpack.lt y.toModel.unpack = true :=
  decide_eq_true_iff.trans decide_eq_true_iff

/-- Doubles are compared by their parts. -/
theorem le_iff_unpack : Scalar.le x y = true ↔ x.toModel.unpack.le y.toModel.unpack = true :=
  decide_eq_true_iff.trans decide_eq_true_iff

/-- Finite doubles are less if their values are. -/
theorem lt_of_value? (hr : Float.value? x = some r) (hq : Float.value? y = some q) :
    Scalar.lt x y = true ↔ r < q := by
  rw [lt_iff_unpack, UnpackedFloat.lt, compare_of_value? hr hq, ← compare_lt_iff_lt]
  simp

/-- Finite doubles are at most others if their values are. -/
theorem le_of_value? (hr : Float.value? x = some r) (hq : Float.value? y = some q) :
    Scalar.le x y = true ↔ r ≤ q := by
  rw [le_iff_unpack, UnpackedFloat.le, compare_of_value? hr hq, ← compare_le_iff_le,
    Option.any_some, Ordering.isLE_iff_ne_gt]

private theorem le_of_lt_scalar (h : Scalar.lt x y = true) : Scalar.le x y = true := by
  rw [lt_iff_unpack, UnpackedFloat.lt, beq_iff_eq] at h
  rw [le_iff_unpack, UnpackedFloat.le, h]
  rfl

/-- A double that is at most another but has no value is the negative infinity. -/
theorem unpack_of_le_of_value?_eq_none (hx : Float.value? x = none) (hq : Float.value? y = some q)
    (hle : Scalar.le x y = true) : x.toModel.unpack = .infinity .negative := by
  rw [le_iff_unpack] at hle
  rw [Float.value?_eq] at hx hq
  generalize x.toModel.unpack = u at *
  generalize y.toModel.unpack = v at *
  cases u with
  | zero s => cases hx
  | finite s m e hm => cases s <;> cases hx
  | notANumber => cases v <;> simp [UnpackedFloat.le, UnpackedFloat.compare] at hle
  | infinity s =>
    cases s with
    | negative => rfl
    | positive =>
      cases v with
      | notANumber | infinity => cases hq
      | zero t => simp [UnpackedFloat.le, UnpackedFloat.compare] at hle
      | finite t n f hn => simp [UnpackedFloat.le, UnpackedFloat.compare] at hle

/-- What has no value is not between two doubles that have one. -/
theorem exists_value?_of_between (hr : Float.value? y = some r) (hy : Scalar.le y x = true)
    {z : Float} (hq : Float.value? z = some q) (hz : Scalar.le x z = true) :
    ∃ a, Float.value? x = some a := by
  cases hx : Float.value? x with
  | some a => exact ⟨a, rfl⟩
  | none =>
    rw [le_iff_unpack, unpack_of_le_of_value?_eq_none hx hq hz] at hy
    rw [Float.value?_eq] at hr
    cases hv : y.toModel.unpack with
    | notANumber | infinity => simp [hv, unpackedValue?] at hr
    | zero | finite => simp [hv, UnpackedFloat.le, UnpackedFloat.compare] at hy

/-- The doubles between two others are those whose value is between theirs. -/
theorem le_le_iff (hr : Float.value? y = some r) (hq : Float.value? z = some q) :
    Scalar.le y x = true ∧ Scalar.le x z = true ↔
      ∃ a, Float.value? x = some a ∧ r ≤ a ∧ a ≤ q := by
  constructor
  · rintro ⟨hy, hz⟩
    obtain ⟨a, ha⟩ := exists_value?_of_between hr hy hq hz
    exact ⟨a, ha, (le_of_value? hr ha).1 hy, (le_of_value? ha hq).1 hz⟩
  · rintro ⟨a, ha, hy, hz⟩
    exact ⟨(le_of_value? hr ha).2 hy, (le_of_value? ha hq).2 hz⟩

/-- A double between finite ones is finite, and its value is between theirs. -/
theorem lt_le_iff (hr : Float.value? y = some r) (hq : Float.value? z = some q) :
    Scalar.lt y x = true ∧ Scalar.le x z = true ↔
      ∃ a, Float.value? x = some a ∧ r < a ∧ a ≤ q := by
  constructor
  · rintro ⟨hy, hz⟩
    obtain ⟨a, ha, -, hle⟩ := (le_le_iff hr hq).1 ⟨le_of_lt_scalar hy, hz⟩
    exact ⟨a, ha, (lt_of_value? hr ha).1 hy, hle⟩
  · rintro ⟨a, ha, hy, hz⟩
    exact ⟨(lt_of_value? hr ha).2 hy, (le_of_value? ha hq).2 hz⟩

/-! ## Infinities -/

/-- The values of finite doubles between two infinities. -/
abbrev ExtendedRat := WithBot (WithTop Rat)

/-- The value of a double in parts, infinities included; NaN has none. -/
def extendedValue? : UnpackedFloat → Option ExtendedRat
  | .notANumber => none
  | .infinity .negative => some ⊥
  | .infinity .positive => some ⊤
  | u => (unpackedValue? u).map fun r => ((r : WithTop Rat) : ExtendedRat)

/-- The value of a double, infinities included; NaN has none. -/
def Float.extended? (x : Float) : Option ExtendedRat := extendedValue? x.toModel.unpack

/-- Every double has an extended value but those that are no numbers. -/
theorem Float.isSome_extended? (x : Float) : (extended? x).isSome = !x.isNaN := by
  have hnan : x.isNaN = x.toModel.unpack.isNaN := rfl
  rw [extended?, hnan]
  cases x.toModel.unpack with
  | notANumber | zero => rfl
  | infinity s | finite s => cases s <;> rfl

private theorem eq_of_extendedValue? {u : UnpackedFloat} {r : ExtendedRat}
    (h : extendedValue? u = some r) :
    (u = .infinity .negative ∧ r = ⊥) ∨ (u = .infinity .positive ∧ r = ⊤) ∨
      ∃ a : Rat, unpackedValue? u = some a ∧ r = (a : WithTop Rat) := by
  cases u with
  | notANumber => cases h
  | infinity s => cases s <;> obtain rfl := Option.some.inj h <;> simp
  | zero s =>
    obtain rfl := Option.some.inj h
    exact .inr (.inr ⟨_, rfl, rfl⟩)
  | finite s m e hm =>
    cases s <;> obtain rfl := Option.some.inj h <;> exact .inr (.inr ⟨_, rfl, rfl⟩)

/-- What is finite lies between the infinities. -/
theorem compare_infinity {v : UnpackedFloat} (h : unpackedValue? v = some q) :
    UnpackedFloat.compare (.infinity .negative) v = some .lt ∧
      UnpackedFloat.compare (.infinity .positive) v = some .gt ∧
      v.compare (.infinity .negative) = some .gt ∧ v.compare (.infinity .positive) = some .lt := by
  cases v with
  | notANumber | infinity => cases h
  | zero | finite => exact ⟨rfl, rfl, rfl, rfl⟩

/-- A double is smaller than another if its value is, infinities included. -/
theorem lt_of_extended? {r q : ExtendedRat} (hr : Float.extended? x = some r)
    (hq : Float.extended? y = some q) : Scalar.lt x y = true ↔ r < q := by
  have hx := isInPlace_unpack x
  have hy := isInPlace_unpack y
  rw [lt_iff_unpack, UnpackedFloat.lt, beq_iff_eq]
  rcases eq_of_extendedValue? hr with ⟨hu, rfl⟩ | ⟨hu, rfl⟩ | ⟨a, ha, rfl⟩ <;>
    rcases eq_of_extendedValue? hq with ⟨hv, rfl⟩ | ⟨hv, rfl⟩ | ⟨b, hb, rfl⟩
  · rw [hu, hv]
    exact iff_of_false (by decide) (lt_irrefl _)
  · rw [hu, hv]
    exact iff_of_true rfl bot_lt_top
  · rw [hu, (compare_infinity hb).1]
    exact iff_of_true rfl (WithBot.bot_lt_coe _)
  · rw [hu, hv]
    exact iff_of_false (by decide) not_top_lt
  · rw [hu, hv]
    exact iff_of_false (by decide) (lt_irrefl _)
  · rw [hu, (compare_infinity hb).2.1]
    exact iff_of_false (by decide) not_top_lt
  · rw [hv, (compare_infinity ha).2.2.1]
    exact iff_of_false (by decide) not_lt_bot
  · rw [hv, (compare_infinity ha).2.2.2]
    exact iff_of_true rfl (WithBot.coe_lt_coe.2 (WithTop.coe_lt_top a))
  · rw [compare_of_unpackedValue? hx hy ha hb, WithBot.coe_lt_coe, WithTop.coe_lt_coe,
      ← compare_lt_iff_lt, Option.some_inj]
/-! ## Rounding -/

private theorem shiftRight_mantissa (a : ExtendedMantissa) (j : Nat) :
    (a >>> j).mantissa = a.mantissa / 2 ^ j := by
  change (Nat.repeat ExtendedMantissa.shiftRightOne j a).mantissa = _
  induction j with
  | zero => simp [Nat.repeat]
  | succ j ih =>
    rw [Nat.repeat, pow_succ, ← Nat.div_div_eq_div_mul, ← ih]
    simp [ExtendedMantissa.shiftRightOne]

private theorem roundedMantissa_eq_or (a : ExtendedMantissa) :
    a.roundedMantissa = a.mantissa ∨ a.roundedMantissa = a.mantissa + 1 := by
  rcases a with ⟨a, r, s⟩
  cases r <;> cases s <;>
    simp [ExtendedMantissa.roundedMantissa, ExtendedMantissa.accuracy, Accuracy.roundToNearestEven]
  omega

/-- A significand of 53 bits stands in place, and so does any smaller one at the least exponent. -/
theorem inPlace_of_lt (hpos : 0 < m) (hlt : m < 2 ^ 53) (hleast : -1074 ≤ e)
    (h : e = -1074 ∨ 2 ^ 52 ≤ m) : InPlace m e := by
  have hlog := (Nat.log2_lt hpos.ne').2 hlt
  have hfull : e = -1074 ∨ 52 ≤ m.log2 := h.imp id (Nat.le_log2 hpos.ne').2
  refine ⟨hpos, ?_⟩
  simp only [Format.targetExponent, totalExponent, Format.mantissaBits, Format.minExponent]
  omega

/-- Shifting to a larger exponent drops the lowest bits. -/
theorem mantissa_shiftToTargetExponent_eq {j : Nat}
    (ht : Format.binary64.targetExponent (totalExponent m e) = e + j) :
    (shiftToTargetExponent Format.binary64 m e .exact).1.mantissa = m / 2 ^ j := by
  have htoNat : (e + j - e).toNat = j := by omega
  simp only [shiftToTargetExponent, shiftToExponent, ht, htoNat, shiftRight_mantissa]
  rfl

/-- A significand on a fine grid is shifted to 53 bits, or to the least exponent. -/
theorem mantissa_shiftToTargetExponent (hpos : 0 < m)
    (ht : Format.binary64.targetExponent (totalExponent m e) = t) (hfine : e ≤ t) :
    (shiftToTargetExponent Format.binary64 m e .exact).2 = t ∧
      (shiftToTargetExponent Format.binary64 m e .exact).1.mantissa < 2 ^ 53 ∧
      (t = -1074 ∨ 2 ^ 52 ≤ (shiftToTargetExponent Format.binary64 m e .exact).1.mantissa) := by
  obtain ⟨j, hj⟩ : ∃ j : Nat, t = e + j := ⟨(t - e).toNat, by omega⟩
  have htoNat : (t - e).toNat = j := by omega
  have hbits : m.log2 ≤ 52 + j ∧ (t = -1074 ∨ m.log2 = 52 + j) := by
    simp only [Format.targetExponent, totalExponent, Format.mantissaBits, Format.minExponent] at ht
    omega
  rw [mantissa_shiftToTargetExponent_eq (hj ▸ ht)]
  refine ⟨?_, ?_, hbits.2.imp id fun hlog => ?_⟩
  · simp only [shiftToTargetExponent, shiftToExponent, ht, htoNat, hj.symm]
  · rw [Nat.div_lt_iff_lt_mul (by positivity), ← pow_add]
    exact Nat.lt_log2_self.trans_le (Nat.pow_le_pow_right (by decide) (by omega))
  · rw [Nat.le_div_iff_mul_le (by positivity), ← pow_add, ← hlog]
    exact Nat.log2_self_le hpos.ne'

/-- Rounding a significand on a fine grid gives zero, 53 bits at the target, or a power of two; zero
only if all its bits are shifted out. -/
theorem roundWithAccuracy_eq_or (hpos : 0 < m)
    (ht : Format.binary64.targetExponent (totalExponent m e) = t) (hfine : e ≤ t) :
    (shiftToTargetExponent Format.binary64 m e .exact).1.mantissa = 0 ∧
        UnpackedFloat.roundWithAccuracy Format.binary64 s m e .exact = .zero s ∨
      ∃ n f, ∃ h : InPlace n f,
        UnpackedFloat.roundWithAccuracy Format.binary64 s m e .exact = .finite s n f h.pos ∧
          f ≤ t + 1 ∧ (n * 2 ^ f : Rat) ≤ 2 ^ (t + 53) := by
  have hleast : -1074 ≤ t := by
    simp only [Format.targetExponent, Format.mantissaBits, Format.minExponent] at ht
    omega
  obtain ⟨hexponent, hbelow, habove⟩ := mantissa_shiftToTargetExponent hpos ht hfine
  have hrounded := roundedMantissa_eq_or (shiftToTargetExponent Format.binary64 m e .exact).1
  unfold UnpackedFloat.roundWithAccuracy
  generalize shiftToTargetExponent Format.binary64 m e .exact = first at *
  obtain ⟨a, u⟩ := first
  obtain rfl : u = t := hexponent
  simp only at hbelow habove hrounded ⊢
  generalize a.roundedMantissa = r at *
  rcases Nat.eq_zero_or_pos r with rfl | hr
  · left
    have hzero : (shiftToTargetExponent Format.binary64 0 u .exact).1.mantissa = 0 := by
      simp only [shiftToTargetExponent, shiftToExponent, shiftRight_mantissa]
      exact Nat.zero_div _
    exact ⟨by omega, dif_pos hzero⟩
  right
  rcases lt_or_ge r (2 ^ 53) with hlt | hge
  · have hplace : InPlace r u := inPlace_of_lt hr hlt hleast (habove.imp id (by omega))
    have hagain := hplace.shiftToTargetExponent 0
    simp only [pow_zero, mul_one, Nat.cast_zero, sub_zero] at hagain
    refine ⟨r, u, hplace, ?_, by omega, ?_⟩
    · simp [hagain, hr.ne']
    · have hr' : (r : Rat) ≤ 2 ^ 53 := by exact_mod_cast hlt.le
      calc (r : Rat) * 2 ^ u ≤ 2 ^ 53 * 2 ^ u := by gcongr
        _ = 2 ^ (u + 53) := by rw [zpow_add₀ two_ne_zero, mul_comm]; norm_num
  · obtain rfl : r = 2 ^ 53 := by omega
    have hplace : InPlace (2 ^ 52) (u + 1) :=
      inPlace_of_lt (by decide) (by decide) (by omega) (.inr le_rfl)
    have hagain : shiftToTargetExponent Format.binary64 (2 ^ 53) u .exact =
        (⟨2 ^ 52, false, false⟩, u + 1) := by
      have hone := hplace.shiftToTargetExponent 1
      rwa [Nat.cast_one, add_sub_cancel_right, ← pow_add] at hone
    refine ⟨2 ^ 52, u + 1, hplace, ?_, le_rfl, ?_⟩
    · simp only [hagain]
      rw [dif_neg (by decide)]
    · rw [show u + 53 = (u + 1) + 52 by ring, zpow_add₀ two_ne_zero (u + 1) 52, mul_comm]
      norm_num

/-- Rounding a number below a power of two does not lead above it, nor to zero where no number is on
a finer grid than doubles are. -/
theorem round_eq_or {T : Int} (hpos : 0 < m) (hlow : -1021 ≤ T)
    (hT : totalExponent m e ≤ T) :
    e < -1074 ∧ UnpackedFloat.round Format.binary64 s m e = .zero s ∨
      ∃ n f, ∃ h : InPlace n f, UnpackedFloat.round Format.binary64 s m e = .finite s n f h.pos ∧
        f ≤ T - 52 ∧ (n * 2 ^ f : Rat) ≤ 2 ^ T := by
  obtain ⟨t, ht⟩ : ∃ t, Format.binary64.targetExponent (totalExponent m e) = t := ⟨_, rfl⟩
  have htarget : t ≤ T - 53 := by
    simp only [Format.targetExponent, Format.mantissaBits, Format.minExponent] at ht
    omega
  obtain ⟨k, hk⟩ : ∃ k, k = (e - t).toNat := ⟨_, rfl⟩
  have htotal : totalExponent (m * 2 ^ k) (e - k) = totalExponent m e := by
    simp only [totalExponent, log2_mul_two_pow hpos.ne']
    omega
  have hround : UnpackedFloat.round Format.binary64 s m e =
      UnpackedFloat.roundWithAccuracy Format.binary64 s (m * 2 ^ k) (e - k) .exact := by
    simp only [UnpackedFloat.round, decreaseExponent, ht, ← hk, Nat.shiftLeft_eq]
  rw [hround]
  have htarget' := htotal ▸ ht
  have hpos' : 0 < m * 2 ^ k := by positivity
  obtain ⟨-, -, hbits⟩ := mantissa_shiftToTargetExponent hpos' htarget' (by omega)
  obtain ⟨hzero, heq⟩ | ⟨n, f, h, heq, hf, hvalue⟩ :=
    roundWithAccuracy_eq_or (s := s) hpos' htarget' (by omega)
  · refine .inl ⟨?_, heq⟩
    -- On a grid that doubles are on no bit is shifted out.
    by_contra hcoarse
    rw [mantissa_shiftToTargetExponent_eq (j := 0) (by omega), pow_zero, Nat.div_one] at hzero
    exact hpos'.ne' hzero
  refine .inr ⟨n, f, h, heq, by omega, hvalue.trans ?_⟩
  exact zpow_le_zpow_right₀ one_le_two (by omega)

/-- A whole number of steps that fits between zero and one is rounded to a number between them. -/
theorem exists_value?_normalize {M k : Nat} (h : M < 2 ^ k) :
    ∃ r, unpackedValue? (unpack Format.binary64 (pack Format.binary64
      (UnpackedFloat.normalize Format.binary64 M (-k) .positive))) = some r ∧ 0 ≤ r ∧ r ≤ 1 := by
  have hzero : unpackedValue? (unpack Format.binary64 (pack Format.binary64 (.zero .positive))) =
      some 0 := rfl
  rcases Nat.eq_zero_or_pos M with rfl | hpos
  · exact ⟨0, hzero, le_rfl, zero_le_one⟩
  have hgt : compare (M : Int) 0 = .gt := Int.compare_eq_gt.2 (by omega)
  simp only [UnpackedFloat.normalize, hgt, Int.toNat_natCast]
  have hT : totalExponent M (-k) ≤ 0 := by
    have hlog := (Nat.log2_lt hpos.ne').2 h
    unfold totalExponent
    omega
  rcases round_eq_or (s := .positive) hpos (by decide) hT with
    ⟨-, hround⟩ | ⟨n, f, hplace, hround, hf, hle⟩
  · exact ⟨0, hround ▸ hzero, le_rfl, zero_le_one⟩
  · rw [hround, hplace.unpack_pack (by omega)]
    exact ⟨n * 2 ^ f, rfl, by positivity, by simpa using hle⟩

/-- One minus a double from `[0, 1]` is a double from `[0, 1]`. -/
theorem between_one_sub (hr : Float.value? x = some r) (hnonneg : 0 ≤ r) (hone : r ≤ 1) :
    ∃ q, Float.value? (Scalar.one - x) = some q ∧ 0 ≤ q ∧ q ≤ 1 := by
  have hsub : (Scalar.one - x).toModel.unpack = unpack Format.binary64 (pack Format.binary64
      (UnpackedFloat.sub Format.binary64 (Scalar.one : Float).toModel.unpack x.toModel.unpack)) :=
    rfl
  have hone' : InPlace (2 ^ 52) (-52) := (inPlace_of_unpack unpack_one).1
  rw [Float.value?_eq] at hr ⊢
  rw [hsub, unpack_one]
  cases hunpack : x.toModel.unpack with
  | notANumber | infinity => simp [hunpack, unpackedValue?] at hr
  | zero s =>
    change ∃ q, unpackedValue? (unpack Format.binary64 (pack Format.binary64
      (.finite .positive (2 ^ 52) (-52) hone'.pos))) = some q ∧ 0 ≤ q ∧ q ≤ 1
    rw [hone'.unpack_pack (by decide)]
    exact ⟨(2 ^ 52 : Nat) * 2 ^ (-52 : Int), rfl, by positivity, by norm_num⟩
  | finite s m e hpos =>
    rw [hunpack] at hr
    obtain rfl : s = .positive := by
      cases s with
      | positive => rfl
      | negative =>
        obtain rfl := Option.some.inj hr
        exact absurd hnonneg (not_le.2 (neg_neg_of_pos (value_pos hpos)))
    obtain rfl := Option.some.inj hr
    -- Not above one, the double stands on a grid at least as fine as that of one.
    have hfine : e ≤ -52 := by
      by_contra hlt
      have hgt := hone'.lt_of_exponent_lt (inPlace_of_unpack hunpack).1 (by omega)
      norm_num at hgt
      exact absurd hone (not_le.2 hgt)
    obtain ⟨k, rfl⟩ : ∃ k : Nat, e = -(k + 52 : Nat) := ⟨(-52 - e).toNat, by omega⟩
    have hbound : m ≤ 2 ^ (k + 52) := by
      rw [zpow_neg, ← div_eq_mul_inv, div_le_one (by positivity), zpow_natCast] at hone
      exact_mod_cast hone
    have hsteps : UnpackedFloat.sub Format.binary64 (.finite .positive (2 ^ 52) (-52) (by decide))
        (.finite .positive m (-(k + 52 : Nat)) hpos) = UnpackedFloat.normalize Format.binary64
          ((2 ^ (k + 52) - m : Nat) : Int) (-(k + 52 : Nat)) .positive := by
      have hmin : min (-52) (-(k + 52 : Nat) : Int) = -(k + 52 : Nat) := by omega
      have hshift : (-52 - -(k + 52 : Nat) : Int).toNat = k := by omega
      simp only [UnpackedFloat.sub, decreaseExponent, hmin, hshift, sub_self, Int.toNat_zero,
        Nat.shiftLeft_eq, Sign.apply, pow_zero, mul_one, ← pow_add, Nat.add_comm 52,
        Nat.cast_sub hbound]
    rw [hsteps]
    exact exists_value?_normalize (Nat.sub_lt (by positivity) hpos)

end PathSelection
