import Mathlib
import PathSelection.Number.Scalar
import PathSelection.Proofs.Number.Digits

/-!
# Doubles that are read back

A document holds a double as a decimal numeral: with the fewest digits that are
read back, or, were none found, with its exact expansion.  That the second is
read back too rests on the arithmetic of doubles: a product or quotient whose
exact value is a double is computed without rounding.

Main results:

- Theorem `InPlace.div`: a quotient that is a double is computed exactly.
- Theorem `Dyadic.ofFloat?_eq`: the value read off the word of a double.
- Theorem `Numeral.toFloat_of_ofFloat?`: a double is read back from its numeral.
- Theorem `Numeral.isSome_ofFloat?`: the finite doubles are those with a numeral.
-/

namespace PathSelection

open Float.Model (Format UnpackedFloat totalExponent)
open Float.Model.UnpackedFloat

/-! ## Exact roundings -/

/-- A power of two as a factor shifts the logarithm. -/
theorem log2_mul_two_pow {m : Nat} (h : m ≠ 0) (j : Nat) : (m * 2 ^ j).log2 = m.log2 + j := by
  induction j with
  | zero => simp
  | succ j ih =>
    have hne : m * 2 ^ j ≠ 0 := by positivity
    rw [pow_succ', mul_left_comm, Nat.log2_two_mul hne, ih, Nat.add_assoc]

/-- A significand and an exponent that rounding leaves alone. -/
structure InPlace (m : Nat) (e : Int) : Prop where
  pos : 0 < m
  target : Format.binary64.targetExponent (totalExponent m e) = e

variable {m : Nat} {e : Int} {s t : Sign}

/-- Zeros at the end of a significand are shifted out without a trace. -/
theorem shiftRight_mul_two_pow (m j : Nat) :
    ExtendedMantissa.ofMantissaAndAccuracy (m * 2 ^ j) .exact >>> j = ⟨m, false, false⟩ := by
  change Nat.repeat ExtendedMantissa.shiftRightOne j ⟨m * 2 ^ j, false, false⟩ = _
  induction j generalizing m with
  | zero => simp [Nat.repeat]
  | succ j ih =>
    rw [Nat.repeat, pow_succ', ← mul_assoc, ih (m * 2)]
    simp [ExtendedMantissa.shiftRightOne]

/-- A significand that is written with more bits is shifted back into place. -/
theorem InPlace.shiftToTargetExponent (h : InPlace m e) (j : Nat) :
    shiftToTargetExponent Format.binary64 (m * 2 ^ j) (e - j) .exact = (⟨m, false, false⟩, e) := by
  have htotal : totalExponent (m * 2 ^ j) (e - j) = totalExponent m e := by
    simp only [totalExponent, log2_mul_two_pow h.pos.ne']
    omega
  have hshift : (e - (e - (j : Int))).toNat = j := by omega
  simp only [UnpackedFloat.shiftToTargetExponent, shiftToExponent, htotal, h.target, hshift,
    shiftRight_mul_two_pow, sub_add_cancel]

/-- Rounding gives a significand in place back from one with more zeros at its end. -/
theorem InPlace.roundWithAccuracy (h : InPlace m e) (j : Nat) :
    roundWithAccuracy Format.binary64 s (m * 2 ^ j) (e - j) .exact = .finite s m e h.pos := by
  have hzero := h.shiftToTargetExponent 0
  simp only [pow_zero, mul_one, Nat.cast_zero, sub_zero] at hzero
  simp [UnpackedFloat.roundWithAccuracy, h.shiftToTargetExponent, ExtendedMantissa.roundedMantissa,
    ExtendedMantissa.accuracy, Accuracy.roundToNearestEven, hzero, h.pos.ne']

private theorem log2_mul_le {m n : Nat} (hm : 0 < m) (hn : 0 < n) :
    (m * n).log2 ≤ m.log2 + n.log2 + 1 := by
  have hlt : m * n < 2 ^ (m.log2 + 1) * 2 ^ (n.log2 + 1) :=
    Nat.mul_lt_mul'' Nat.lt_log2_self Nat.lt_log2_self
  rw [← pow_add] at hlt
  have hlog := (Nat.log2_lt (Nat.mul_pos hm hn).ne').2 hlt
  omega

private theorem targetExponent_mono {a b : Int} (h : a ≤ b) :
    Format.binary64.targetExponent a ≤ Format.binary64.targetExponent b := by
  unfold Format.targetExponent
  omega

/-- A quotient that is a significand in place is computed exactly. -/
theorem InPlace.div (h : InPlace m e) {M D a b : Nat} {E F : Int} (hM : 0 < M) (hD : 0 < D)
    (hvalue : M * 2 ^ a = m * D * 2 ^ b) (hexponent : E - F + b = e + a) :
    UnpackedFloat.div Format.binary64 (.finite s M E hM) (.finite t D F hD) =
      .finite (s / t) m e h.pos := by
  have hlog : M.log2 + a ≤ m.log2 + D.log2 + 1 + b := by
    rw [← log2_mul_two_pow hM.ne', hvalue, log2_mul_two_pow (Nat.mul_pos h.pos hD).ne']
    exact Nat.add_le_add_right (log2_mul_le h.pos hD) b
  -- The quotient is computed on a grid at least as fine as that of the significand.
  obtain ⟨grid, hgrid⟩ : ∃ grid, grid = min (E - F)
      (Format.binary64.targetExponent (totalExponent M E - totalExponent D F)) := ⟨_, rfl⟩
  have hfine : grid ≤ e := by
    have hmono : Format.binary64.targetExponent (totalExponent M E - totalExponent D F) ≤
        Format.binary64.targetExponent (totalExponent m e) := by
      apply targetExponent_mono
      unfold totalExponent
      omega
    rw [h.target] at hmono
    omega
  obtain ⟨j, hj⟩ : ∃ j : Nat, grid = e - j := ⟨(e - grid).toNat, by omega⟩
  obtain ⟨shift, hshift⟩ : ∃ shift : Nat, E - F - grid = shift := ⟨(E - F - grid).toNat, by omega⟩
  have hquotient : M <<< shift = m * 2 ^ j * D := by
    have hpower : 2 ^ shift * 2 ^ b = 2 ^ j * 2 ^ a := by
      rw [← pow_add, ← pow_add]
      congr 1
      omega
    have hscaled : M * 2 ^ shift * 2 ^ b = m * 2 ^ j * D * 2 ^ b := by
      calc M * 2 ^ shift * 2 ^ b = M * 2 ^ a * 2 ^ j := by rw [mul_assoc, hpower]; ring
        _ = m * 2 ^ j * D * 2 ^ b := by rw [hvalue]; ring
    rw [Nat.shiftLeft_eq]
    exact Nat.eq_of_mul_eq_mul_right (by positivity) hscaled
  have hcore : divCore Format.binary64 M E D F = (m * 2 ^ j, e - j, .exact) := by
    simp only [divCore, ← hgrid, hshift, Int.toNat_natCast]
    rw [hquotient, Nat.mul_div_cancel _ hD, Nat.mul_mod_left, hj]
    rfl
  simp only [UnpackedFloat.div, hcore, h.roundWithAccuracy]

/-! ## Packed doubles -/

/-- A significand in place has all its bits, or the exponent is the least one. -/
theorem InPlace.log2_eq_or (h : InPlace m e) :
    m.log2 = 52 ∧ -1074 ≤ e ∨ m.log2 < 52 ∧ e = -1074 := by
  have htarget := h.target
  simp only [Format.targetExponent, totalExponent, Format.mantissaBits, Format.minExponent] at htarget
  omega

/-- A biased exponent other than the least and the greatest is unpacked with the implicit bit. -/
theorem unpack_packComponents_normal {biased : Nat} (hm : 0 < m) (hlog : m.log2 = 52)
    (hpos : 0 < biased) (hlt : biased < 2047) :
    unpack Format.binary64
        (packComponents Format.binary64 s (BitVec.ofNat 11 biased) (BitVec.ofNat 52 m)) =
      .finite s m (biased - 1075) hm := by
  have hmantissa : (1#1 ++ BitVec.ofNat 52 m).toNat = m := by
    have hbounds := (Nat.log2_eq_iff hm.ne').1 hlog
    rw [BitVec.toNat_append, ← Nat.shiftLeft_add_eq_or_of_lt (BitVec.isLt _), BitVec.toNat_ofNat,
      BitVec.toNat_ofNat, Nat.shiftLeft_eq]
    omega
  have hbiased : (BitVec.ofNat 11 biased).toNat = biased := by
    rw [BitVec.toNat_ofNat]
    omega
  have hgreatest : BitVec.ofNat 11 biased ≠ -1#11 := by
    intro heq
    have htoNat := congrArg BitVec.toNat heq
    rw [hbiased] at htoNat
    simp at htoNat
    omega
  have hleast : BitVec.ofNat 11 biased ≠ 0#11 := by
    intro heq
    have htoNat := congrArg BitVec.toNat heq
    rw [hbiased] at htoNat
    simp at htoNat
    omega
  simp only [unpack, unpackMantissa_packComponents, unpackExponent_packComponents,
    unpackSign_packComponents, Sign.ofBitVec_toBitVec, if_neg hgreatest, if_neg hleast, hmantissa,
    hbiased]
  rfl

/-- With the least biased exponent there is no implicit bit. -/
theorem unpack_packComponents_subnormal (hpos : 0 < m) (hlog : m.log2 < 52) :
    unpack Format.binary64 (packComponents Format.binary64 s 0#11 (BitVec.ofNat 52 m)) =
      .finite s m (-1074) hpos := by
  have hmantissa : (BitVec.ofNat 52 m).toNat = m := by
    have hlt := (Nat.log2_lt hpos.ne').1 hlog
    rw [BitVec.toNat_ofNat]
    omega
  have hne : BitVec.ofNat 52 m ≠ 0#52 := by
    intro heq
    have htoNat := congrArg BitVec.toNat heq
    rw [hmantissa] at htoNat
    simp at htoNat
    omega
  have hleast : 0#11 ≠ -1#11 := by decide
  simp only [unpack, unpackMantissa_packComponents, unpackExponent_packComponents,
    unpackSign_packComponents, Sign.ofBitVec_toBitVec, if_neg hleast, if_true, dif_neg hne,
    hmantissa]
  rfl

/-- A significand in place whose exponent is in range is unpacked as it was packed. -/
theorem InPlace.unpack_pack (h : InPlace m e) (hrange : e ≤ 971) :
    unpack Format.binary64 (pack Format.binary64 (.finite s m e h.pos)) = .finite s m e h.pos := by
  rcases h.log2_eq_or with ⟨hlog, hleast⟩ | ⟨hlog, rfl⟩
  · have hbiased : (e + Format.binary64.exponentBias +
        Format.binary64.mantissaBitsWithoutImplicit).toNat = (e + 1075).toNat := by
      simp only [Format.exponentBias]
      omega
    have hfits : ¬2 ^ Format.binary64.exponentBits ≤ (e + 1075).toNat + 1 := by
      simp only
      omega
    have hnormal : m.log2 + 1 = Format.binary64.mantissaBits := by
      rw [hlog]
      rfl
    simp only [pack, hbiased, if_neg hfits, if_pos hnormal]
    rw [unpack_packComponents_normal h.pos hlog (by omega) (by omega)]
    congr 1
    omega
  · have hbiased : ((-1074 : Int) + Format.binary64.exponentBias +
        Format.binary64.mantissaBitsWithoutImplicit).toNat = 1 := by decide
    have hfits : ¬2 ^ Format.binary64.exponentBits ≤ 1 + 1 := by decide
    have hsubnormal : ¬m.log2 + 1 = Format.binary64.mantissaBits := by
      simp only [Format.mantissaBits]
      omega
    simp only [pack, hbiased, if_neg hfits, if_neg hsubnormal]
    exact unpack_packComponents_subnormal h.pos hlog

/-! ## Doubles in parts -/

/-- The fields of the word of a double. -/
theorem toNat_unpackExponent (x : Float) :
    (@unpackExponent Format.binary64 x.toBits.toBitVec).toNat =
      x.toBits.toNat / wordValues 52 % wordValues 11 := by
  rw [unpackExponent_def, BitVec.extractLsb'_toNat, Nat.shiftRight_eq_div_pow]
  rfl

private theorem toNat_unpackMantissa (x : Float) :
    (@unpackMantissa Format.binary64 x.toBits.toBitVec).toNat =
      x.toBits.toNat % wordValues 52 := by
  rw [unpackMantissa_def, BitVec.extractLsb'_toNat, Nat.shiftRight_zero]
  rfl

private theorem ofBitVec_unpackSign (x : Float) :
    (Sign.ofBitVec (@unpackSign Format.binary64 x.toBits.toBitVec) == .negative) =
      (x.toBits.toNat / wordValues 63 == 1) := by
  have htoNat : (@unpackSign Format.binary64 x.toBits.toBitVec).toNat =
      x.toBits.toNat / wordValues 63 := by
    rw [unpackSign_def, BitVec.extractLsb'_toNat, Nat.shiftRight_eq_div_pow]
    have hlt : x.toBits.toNat < 2 ^ 64 := x.toBits.toNat_lt
    change x.toBits.toNat / 2 ^ 63 % 2 = x.toBits.toNat / 2 ^ 63
    omega
  rw [← htoNat]
  generalize @unpackSign Format.binary64 x.toBits.toBitVec = b
  revert b
  decide

/-- The value of a double, read off its parts. -/
theorem Dyadic.ofFloat?_eq (x : Float) :
    ofFloat? x = match x.toModel.unpack with
      | .finite s m e _ => some ⟨s == .negative, m, e⟩
      | .zero s => some ⟨s == .negative, 0, -1074⟩
      | _ => none := by
  have hunpack : x.toModel.unpack = unpack Format.binary64 x.toBits.toBitVec := rfl
  have hgreatest : @unpackExponent Format.binary64 x.toBits.toBitVec = -1#11 ↔
      (@unpackExponent Format.binary64 x.toBits.toBitVec).toNat = 2047 :=
    BitVec.toNat_inj.symm
  have hleast : @unpackExponent Format.binary64 x.toBits.toBitVec = 0#11 ↔
      (@unpackExponent Format.binary64 x.toBits.toBitVec).toNat = 0 :=
    BitVec.toNat_inj.symm
  have hzero : @unpackMantissa Format.binary64 x.toBits.toBitVec = 0#52 ↔
      (@unpackMantissa Format.binary64 x.toBits.toBitVec).toNat = 0 :=
    BitVec.toNat_inj.symm
  have himplicit (b : BitVec 52) : (1#1 ++ b).toNat = wordValues 52 + b.toNat := by
    rw [BitVec.toNat_append, ← Nat.shiftLeft_add_eq_or_of_lt b.isLt]
    rfl
  rw [hunpack]
  unfold ofFloat?
  simp only [← toNat_unpackExponent, ← toNat_unpackMantissa, ← ofBitVec_unpackSign]
  fun_cases unpack Format.binary64 x.toBits.toBitVec with
  | case1 _ _ _ _ hexponent => rw [if_pos (hgreatest.1 hexponent)]
  | case2 _ _ hexponent => rw [if_pos (hgreatest.1 hexponent)]
  | case3 _ _ sign s hspecial hexponent hmantissa =>
    rw [if_neg (mt hgreatest.2 hspecial), if_pos (hleast.1 hexponent), hzero.1 hmantissa]
  | case4 mantissa exponent value sign s hspecial hexponent hmantissa =>
    have hvalue : value + 1 = -1074 := by
      simp only [value, exponent, hleast.1 hexponent]
      rfl
    rw [if_neg (mt hgreatest.2 hspecial), if_pos (hleast.1 hexponent), hvalue]
  | case5 mantissa exponent value sign s hspecial hexponent =>
    rw [if_neg (mt hgreatest.2 hspecial), if_neg (mt hleast.2 hexponent), ← himplicit]
    rfl

/-- The significand of a finite double is in place, and its exponent in range. -/
theorem inPlace_of_unpack {x : Float} {hpos : 0 < m} (h : x.toModel.unpack = .finite s m e hpos) :
    InPlace m e ∧ e ≤ 971 := by
  have hunpack : unpack Format.binary64 x.toBits.toBitVec = .finite s m e hpos := h
  suffices hshape : m.log2 = 52 ∧ -1074 ≤ e ∧ e ≤ 971 ∨ m.log2 < 52 ∧ e = -1074 by
    refine ⟨⟨hpos, ?_⟩, by omega⟩
    simp only [Format.targetExponent, totalExponent, Format.mantissaBits, Format.minExponent]
    omega
  have hgreatest : @unpackExponent Format.binary64 x.toBits.toBitVec = -1#11 ↔
      (@unpackExponent Format.binary64 x.toBits.toBitVec).toNat = 2047 :=
    BitVec.toNat_inj.symm
  have hleast : @unpackExponent Format.binary64 x.toBits.toBitVec = 0#11 ↔
      (@unpackExponent Format.binary64 x.toBits.toBitVec).toNat = 0 :=
    BitVec.toNat_inj.symm
  have hexponent := (@unpackExponent Format.binary64 x.toBits.toBitVec).isLt
  have hmantissa := (@unpackMantissa Format.binary64 x.toBits.toBitVec).isLt
  simp only at hexponent hmantissa
  revert hunpack
  fun_cases unpack Format.binary64 x.toBits.toBitVec with
  | case1 | case2 | case3 => rintro ⟨⟩
  | case4 mantissa exponent value sign s hspecial hzero hne =>
    intro heq
    obtain ⟨-, rfl, rfl⟩ := UnpackedFloat.finite.inj heq
    right
    refine ⟨(Nat.log2_lt hpos.ne').2 hmantissa, ?_⟩
    simp only [value, exponent, hleast.1 hzero]
    rfl
  | case5 mantissa exponent value sign s hspecial hzero =>
    intro heq
    obtain ⟨-, rfl, rfl⟩ := UnpackedFloat.finite.inj heq
    left
    have hne := mt hgreatest.2 hspecial
    have hne' := mt hleast.2 hzero
    have hvalue : value = (@unpackExponent Format.binary64 x.toBits.toBitVec).toNat - 1075 := rfl
    refine ⟨?_, by omega, by omega⟩
    rw [Nat.log2_eq_iff hpos.ne', BitVec.toNat_append,
      ← Nat.shiftLeft_add_eq_or_of_lt (BitVec.isLt _), Nat.shiftLeft_eq]
    simp only [mantissa, BitVec.toNat_ofNat]
    omega

/-! ## Decimal numbers that are doubles -/

/-- Integers of 53 bits are doubles. -/
theorem unpack_toFloat {M : Nat} (hM : 0 < M) (hlt : M < 2 ^ 53) :
    ∃ N F, ∃ hN : 0 < N, M.toUInt64.toFloat.toModel.unpack = .finite .positive N F hN ∧
      F ≤ 0 ∧ N = M * 2 ^ (-F).toNat := by
  have hlog : M.log2 < 53 := (Nat.log2_lt hM.ne').2 hlt
  obtain ⟨shift, hshift⟩ : ∃ shift, M.log2 + shift = 52 := ⟨52 - M.log2, by omega⟩
  have hplace : InPlace (M * 2 ^ shift) (-shift) := by
    refine ⟨by positivity, ?_⟩
    simp only [Format.targetExponent, totalExponent, Format.mantissaBits, Format.minExponent,
      log2_mul_two_pow hM.ne']
    omega
  have htarget : Format.binary64.targetExponent (totalExponent M 0) = -shift := by
    rw [← hplace.target]
    congr 1
    simp only [totalExponent, log2_mul_two_pow hM.ne']
    omega
  have hround : UnpackedFloat.round Format.binary64 .positive M 0 =
      .finite .positive (M * 2 ^ shift) (-shift) hplace.pos := by
    have hzero := hplace.roundWithAccuracy (s := .positive) 0
    simp only [pow_zero, mul_one, Nat.cast_zero, sub_zero] at hzero
    simp only [UnpackedFloat.round, htarget, decreaseExponent, zero_sub, neg_neg,
      Int.toNat_natCast, Nat.shiftLeft_eq, hzero]
  have htoNat : M.toUInt64.toNat = M := by
    rw [UInt64.toNat_ofNat']
    omega
  have hunpacked : M.toUInt64.toFloat.toModel.unpack =
      unpack Format.binary64 (pack Format.binary64
        (UnpackedFloat.round Format.binary64 .positive M 0)) := by
    have hgt : compare (M : Int) 0 = .gt := Int.compare_eq_gt.2 (by omega)
    change unpack Format.binary64 (pack Format.binary64
      (UnpackedFloat.normalize Format.binary64 (M.toUInt64.toNat : Int) 0 .positive)) = _
    rw [htoNat, UnpackedFloat.normalize, hgt, Int.toNat_natCast]
  refine ⟨M * 2 ^ shift, -shift, hplace.pos, ?_, by omega, by simp⟩
  rw [hunpacked, hround, hplace.unpack_pack (by omega)]

private theorem powersOfTen_exact :
    ∀ k : Fin Float.exactlyRepresentablePowersOfTen.size,
      (match (Float.exactlyRepresentablePowersOfTen[k]).toModel.unpack with
        | .finite .positive D F _ => decide (D * 2 ^ F.toNat = 10 ^ k.val * 2 ^ (-F).toNat)
        | _ => false) = true := by
  decide +kernel

/-- The small powers of ten are doubles. -/
theorem unpack_powerOfTen {k : Nat} (h : k < Float.exactlyRepresentablePowersOfTen.size) :
    ∃ D F, ∃ hD : 0 < D,
      (Float.exactlyRepresentablePowersOfTen[k]).toModel.unpack = .finite .positive D F hD ∧
        D * 2 ^ F.toNat = 10 ^ k * 2 ^ (-F).toNat := by
  have hentry := powersOfTen_exact ⟨k, h⟩
  simp only [Fin.getElem_fin] at hentry
  split at hentry
  · rename_i D F hD heq
    exact ⟨D, F, hD, heq, of_decide_eq_true hentry⟩
  · cases hentry

/-- A decimal number with places that is exactly a double is read as this double. -/
theorem InPlace.ofScientific_places (h : InPlace m e) {M k a b : Nat} (hM : 0 < M) (hpos : 0 < k)
    (hk : k ≤ 1074) (hvalue : M * 2 ^ a = m * 10 ^ k * 2 ^ b) (hexponent : (b : Int) = e + a) :
    Float.ofScientific M true k = .ofModel (.pack (.finite .positive m e h.pos)) := by
  unfold Float.ofScientific
  split
  · rename_i hfast
    have hsize : k < Float.exactlyRepresentablePowersOfTen.size := Nat.lt_succ_of_le hfast.2
    obtain ⟨N, F, hN, hnumerator, hF, hscaled⟩ := unpack_toFloat hM hfast.1
    obtain ⟨D, G, hD, hdenominator, hpower⟩ := unpack_powerOfTen hsize
    have hquotient : N * 2 ^ (a + (-G).toNat) = m * D * 2 ^ (G.toNat + b + (-F).toNat) := by
      calc N * 2 ^ (a + (-G).toNat)
          = M * 2 ^ a * 2 ^ (-G).toNat * 2 ^ (-F).toNat := by rw [hscaled]; ring
        _ = m * (10 ^ k * 2 ^ (-G).toNat) * 2 ^ b * 2 ^ (-F).toNat := by rw [hvalue]; ring
        _ = m * D * 2 ^ (G.toNat + b + (-F).toNat) := by rw [← hpower]; ring
    have hdiv := h.div (s := .positive) (t := .positive) (E := F) (F := G) hN hD hquotient
      (by push_cast; omega)
    change Float.ofModel (.pack (UnpackedFloat.div Format.binary64
      M.toUInt64.toFloat.toModel.unpack
      (Float.exactlyRepresentablePowersOfTen[k]).toModel.unpack)) = _
    rw [hnumerator, hdenominator, hdiv]
    rfl
  · have hdiv := h.div (s := .positive) (t := .positive) (E := 0) (F := 0) hM
      (Nat.pow_pos (by decide) : 0 < 10 ^ k) hvalue (by simpa using hexponent)
    have hscientific : UnpackedFloat.ofScientific Format.binary64 M (Int.negOfNat k) =
        .finite .positive m e h.pos := by
      have hnegative : Int.negOfNat k = -(k : Int) := Int.negOfNat_eq
      have hsmall : ¬(-(k : Int) > 2 ^ 11) := by omega
      have hlarge : ¬(-(k : Int) < -((2 ^ 11 : Int) + M.log2)) := by omega
      have hplaces : ¬(0 ≤ -(k : Int)) := by omega
      unfold UnpackedFloat.ofScientific
      simp only [hnegative, dif_neg hM.ne', if_neg hsmall, if_neg hlarge, if_neg hplaces,
        neg_neg, Int.toNat_natCast]
      rw [hdiv]
      rfl
    simp only [if_true]
    change Float.ofModel (.pack (UnpackedFloat.ofScientific Format.binary64 M (Int.negOfNat k))) = _
    rw [hscientific]

/-- A large integer that is exactly a double is read as this double. -/
theorem InPlace.ofScientific_integer (h : InPlace m e) {j : Nat} (hexponent : e = j)
    (hlarge : 2 ^ 53 ≤ m * 2 ^ j) :
    Float.ofScientific (m * 2 ^ j) false 0 = .ofModel (.pack (.finite .positive m e h.pos)) := by
  have hM : m * 2 ^ j ≠ 0 := by omega
  have hscientific : UnpackedFloat.ofScientific Format.binary64 (m * 2 ^ j) 0 =
      .finite .positive m e h.pos := by
    have hplace := h.roundWithAccuracy (s := .positive * .positive) (j + 53)
    have hshift : (e : Int) - (j + 53 : Nat) = -53 := by omega
    have hsmall : ¬((0 : Int) > 2 ^ 11) := by decide
    have hlarge : ¬((0 : Int) < -((2 ^ 11 : Int) + (m * 2 ^ j).log2)) := by omega
    rw [hshift, pow_add, ← mul_assoc] at hplace
    unfold UnpackedFloat.ofScientific
    simp only [dif_neg hM, if_neg hsmall, if_neg hlarge, le_refl, if_true, Int.toNat_zero, pow_zero,
      UnpackedFloat.mul, Nat.shiftLeft_eq, mul_one, add_zero]
    exact hplace
  unfold Float.ofScientific
  rw [dif_neg (by omega)]
  change Float.ofModel (.pack (UnpackedFloat.ofScientific Format.binary64 (m * 2 ^ j) 0)) = _
  rw [hscientific]

/-- A double is what its parts make. -/
theorem ofModel_pack_unpack (x : Float) : Float.ofModel (.pack x.toModel.unpack) = x :=
  Float.ofBits_toBits x

/-- The sign of a double is put to its magnitude. -/
theorem InPlace.neg_ofModel_pack (h : InPlace m e) (hrange : e ≤ 971) :
    -Float.ofModel (.pack (.finite .positive m e h.pos)) =
      .ofModel (.pack (.finite .negative m e h.pos)) := by
  change Float.ofModel (.pack (UnpackedFloat.neg (unpack Format.binary64
    (pack Format.binary64 (.finite .positive m e h.pos))))) = _
  rw [h.unpack_pack hrange]
  rfl

/-- A decimal number within reach is read as the double of its sign and magnitude. -/
theorem InPlace.toFloat_eq (h : InPlace m e) (hrange : e ≤ 971) {x : Float}
    (hx : x.toModel.unpack = .finite s m e h.pos) {d : Decimal}
    (hsign : d.negative = (s == .negative)) (hne : d.coefficient ≠ 0)
    (hhigh : d.leadingExponent ≤ Decimal.exponentBound)
    (hlow : -Decimal.exponentBound ≤ d.leadingExponent)
    (hread : Float.ofScientific d.coefficient (decide (d.exponent < 0)) d.exponent.natAbs =
      .ofModel (.pack (.finite .positive m e h.pos))) :
    d.toFloat = x := by
  have hsmall : ¬Decimal.exponentBound < d.leadingExponent := by omega
  have hlarge : ¬d.leadingExponent < -Decimal.exponentBound := by omega
  rw [← ofModel_pack_unpack x, hx]
  simp only [Decimal.toFloat, if_neg hne, if_neg hsmall, if_neg hlarge, hread, hsign]
  cases s with
  | negative => exact h.neg_ofModel_pack hrange
  | positive => rfl

/-! ## Numerals of decimal numbers -/

namespace Numeral

variable {d : Decimal}

/-- A numeral with an exponent keeps the decimal number. -/
theorem toDecimal_scientific (d : Decimal) : (scientific d).toDecimal = d := by
  rcases hdigits : digits d.coefficient with _ | ⟨first, rest⟩
  · exact absurd hdigits (digits_ne_nil _)
  · have hcoefficient : ofDigitsFrom first.val rest = d.coefficient := by
      have hspelled := ofDigits_digits d.coefficient
      rwa [hdigits, ofDigits, ofDigitsFrom_cons, mul_zero, zero_add] at hspelled
    simp only [scientific, hdigits, toDecimal, hcoefficient, Option.getD_some,
      Decimal.leadingExponent, List.length_cons]
    congr 1
    omega

/-- A positional numeral with places keeps the decimal number. -/
theorem toDecimal_positional (h : d.exponent < 0) :
    (positional d).toDecimal = d ∧ (positional d).fraction.isEmpty = false := by
  obtain ⟨places, hplaces⟩ : ∃ places : Nat, d.exponent = -places := ⟨(-d.exponent).toNat, by omega⟩
  have hpos : 0 < places := by omega
  have htoNat : (-d.exponent).toNat = places := by omega
  have hmod : d.coefficient % 10 ^ places < 10 ^ places := Nat.mod_lt _ (by positivity)
  have hlength := length_digitsPadded hmod hpos
  have hspelled := ofDigitsFrom_digitsPadded hmod hpos (d.coefficient / 10 ^ places)
  rw [Nat.div_add_mod'] at hspelled
  constructor
  · simp only [positional, if_neg (Int.not_le.2 h), htoNat, toDecimal]
    change Decimal.mk d.negative (ofDigitsFrom (d.coefficient / 10 ^ places)
      (digitsPadded places (d.coefficient % 10 ^ places))) _ = _
    rw [hspelled]
    change Decimal.mk _ _ (0 - ((digitsPadded places (d.coefficient % 10 ^ places)).length : Int)) = _
    rw [hlength, zero_sub, ← hplaces]
  · simp only [positional, if_neg (Int.not_le.2 h), htoNat]
    change (digitsPadded places (d.coefficient % 10 ^ places)).isEmpty = false
    rw [List.isEmpty_eq_false_iff, ← List.length_pos_iff, hlength]
    exact hpos

/-- A document keeps a decimal number with places. -/
theorem toDecimal_document_of_neg (hne : d.coefficient ≠ 0) (h : d.exponent < 0) :
    (document d).toDecimal = d := by
  rcases toDecimal_positional h with ⟨hpositional, hfraction⟩
  unfold document
  rw [if_neg hne]
  split
  · rwa [if_neg (by simp [hfraction])]
  · exact toDecimal_scientific d

/-- A document writes a small integer with one place. -/
theorem toDecimal_document_of_nonneg (hne : d.coefficient ≠ 0) (h : d.exponent = 0)
    (hsmall : d.leadingExponent < positionalBelow) :
    (document d).toDecimal = ⟨d.negative, d.coefficient * 10, -1⟩ := by
  have hleading : positionalFrom ≤ d.leadingExponent := by
    simp only [Decimal.leadingExponent, h, positionalFrom]
    omega
  have hpositional : positional d = ⟨d.negative, d.coefficient, [], none⟩ := by
    simp [positional, h]
  simp only [document, if_neg hne, if_pos (And.intro hleading hsmall), hpositional, List.isEmpty_nil,
    if_true, toDecimal, ofDigitsFrom_cons, ofDigitsFrom_nil, Digit.zero, mul_comm 10]
  rfl

/-- A document writes a large integer with an exponent. -/
theorem toDecimal_document_of_large (hne : d.coefficient ≠ 0)
    (hlarge : positionalBelow ≤ d.leadingExponent) : (document d).toDecimal = d := by
  rw [document, if_neg hne, if_neg (by omega)]
  exact toDecimal_scientific d

end Numeral

/-! ## Doubles in documents -/

namespace Decimal

variable {d : Decimal} {n : Nat}

private theorem leadingExponent_le (h : d.coefficient < 10 ^ n) (hn : 0 < n) :
    d.leadingExponent ≤ d.exponent + n - 1 := by
  have hlength := length_digits_le h hn
  unfold leadingExponent
  omega

private theorem le_leadingExponent (h : 10 ^ n ≤ d.coefficient) :
    d.exponent + n ≤ d.leadingExponent := by
  have hlength : n < (digits d.coefficient).length :=
    (Nat.pow_lt_pow_iff_right (by decide)).1 (h.trans_lt (lt_pow_length_digits _))
  unfold leadingExponent
  omega

/-- A number without places whose leading power is large is large. -/
theorem pow_le_coefficient (hne : d.coefficient ≠ 0) (h : d.exponent + n ≤ d.leadingExponent) :
    10 ^ n ≤ d.coefficient := by
  refine le_trans (Nat.pow_le_pow_right (by decide) ?_)
    (pow_length_digits_le (Nat.pos_of_ne_zero hne))
  unfold leadingExponent at h
  omega

end Decimal

private theorem two_pow_le {a b l n : Nat} (hbase : 2 ^ a ≤ b) (h : l ≤ a * n) : 2 ^ l ≤ b ^ n :=
  calc 2 ^ l ≤ 2 ^ (a * n) := Nat.pow_le_pow_right (by decide) h
    _ = (2 ^ a) ^ n := pow_mul 2 a n
    _ ≤ b ^ n := Nat.pow_le_pow_left hbase n

/-- Five to the power of the places is never so small that the number is out of reach. -/
theorem five_pow_bounds (k : Nat) (hk : k ≤ 1074) : 10 ^ (k - 400) ≤ 5 ^ k := by
  rcases Nat.lt_or_ge k 400 with hlt | hle
  · rw [Nat.sub_eq_zero_of_le hlt.le, pow_zero]
    exact Nat.one_le_pow _ _ (by decide)
  · obtain ⟨l, rfl⟩ := Nat.exists_eq_add_of_le hle
    have hsmall : 2 ^ l ≤ 5 ^ 400 := two_pow_le (a := 2) (by decide) (by omega)
    calc 10 ^ (400 + l - 400) = 2 ^ l * 5 ^ l := by
          rw [Nat.add_sub_cancel_left, ← mul_pow]
          rfl
      _ ≤ 5 ^ 400 * 5 ^ l := Nat.mul_le_mul_right _ hsmall
      _ = 5 ^ (400 + l) := (pow_add 5 400 l).symm

section

variable {x : Float}

/-- A double with places is read back from the document of its exact expansion. -/
theorem toFloat_document_of_places (h : InPlace m e) (hrange : e ≤ 971)
    (hx : x.toModel.unpack = .finite s m e h.pos) {k : Nat} (hk : e = -k) (hpos : 0 < k) :
    (Numeral.document ⟨s == .negative, m * 5 ^ k, -k⟩).toFloat = x := by
  have hbounds := h.log2_eq_or
  have hne : m * 5 ^ k ≠ 0 := by
    have := h.pos
    positivity
  have hm : m < 2 ^ 53 := (Nat.log2_lt h.pos.ne').1 (by omega)
  rw [Numeral.toFloat, Numeral.toDecimal_document_of_neg hne (by simpa using hpos)]
  refine h.toFloat_eq hrange hx rfl hne ?_ ?_ ?_
  · have hlt : m * 5 ^ k < 10 ^ (17 + k) :=
      calc m * 5 ^ k < 10 ^ 17 * 5 ^ k :=
            Nat.mul_lt_mul_of_pos_right (hm.trans (by norm_num)) (by positivity)
        _ ≤ 10 ^ 17 * 10 ^ k := Nat.mul_le_mul_left _ (Nat.pow_le_pow_left (by decide) k)
        _ = 10 ^ (17 + k) := (pow_add 10 17 k).symm
    have hle := Decimal.leadingExponent_le (d := ⟨s == .negative, m * 5 ^ k, -k⟩) hlt (by omega)
    unfold Decimal.exponentBound
    simp only at hle
    omega
  · have hge : 10 ^ (k - 400) ≤ m * 5 ^ k :=
      (five_pow_bounds k (by omega)).trans (Nat.le_mul_of_pos_left _ h.pos)
    have hle := Decimal.le_leadingExponent (d := ⟨s == .negative, m * 5 ^ k, -k⟩) hge
    unfold Decimal.exponentBound
    simp only at hle
    omega
  · have hread := h.ofScientific_places (Nat.pos_of_ne_zero hne) hpos (by omega)
      (M := m * 5 ^ k) (k := k) (a := k) (b := 0)
      (by rw [pow_zero, mul_one, mul_assoc, ← mul_pow]; rfl) (by omega)
    simpa [hpos] using hread

/-- A double that is an integer is read back from the document of its exact expansion. -/
theorem toFloat_document_of_integer (h : InPlace m e) (hrange : e ≤ 971)
    (hx : x.toModel.unpack = .finite s m e h.pos) {j : Nat} (hj : e = j) :
    (Numeral.document ⟨s == .negative, m * 2 ^ j, 0⟩).toFloat = x := by
  have hbounds := h.log2_eq_or
  have hne : m * 2 ^ j ≠ 0 := by
    have := h.pos
    positivity
  have hm : m < 2 ^ 53 := (Nat.log2_lt h.pos.ne').1 (by omega)
  have hlt : m * 2 ^ j < 10 ^ 400 :=
    calc m * 2 ^ j < 2 ^ 53 * 2 ^ j := Nat.mul_lt_mul_of_pos_right hm (by positivity)
      _ = 2 ^ (53 + j) := (pow_add 2 53 j).symm
      _ ≤ 10 ^ 400 := two_pow_le (a := 3) (by decide) (by omega)
  have hge : 10 ^ 0 ≤ m * 2 ^ j := Nat.pos_of_ne_zero hne
  rcases lt_or_ge (Decimal.leadingExponent ⟨s == .negative, m * 2 ^ j, 0⟩) Numeral.positionalBelow
    with hsmall | hlarge
  · rw [Numeral.toFloat, Numeral.toDecimal_document_of_nonneg hne rfl hsmall]
    refine h.toFloat_eq hrange hx rfl (by simpa using hne) ?_ ?_ ?_
    · have hle := Decimal.leadingExponent_le (d := ⟨s == .negative, m * 2 ^ j * 10, -1⟩) (n := 401)
        (by rw [pow_succ]; exact Nat.mul_lt_mul_of_pos_right hlt (by decide)) (by decide)
      change Decimal.leadingExponent ⟨s == .negative, m * 2 ^ j * 10, -1⟩ ≤ _
      unfold Decimal.exponentBound
      simp only at hle
      omega
    · have hle := Decimal.le_leadingExponent (d := ⟨s == .negative, m * 2 ^ j * 10, -1⟩) (n := 0)
        (by simp only; omega)
      change _ ≤ Decimal.leadingExponent ⟨s == .negative, m * 2 ^ j * 10, -1⟩
      unfold Decimal.exponentBound
      simp only at hle
      omega
    · have hread := h.ofScientific_places (M := m * 2 ^ j * 10) (k := 1) (a := 0) (b := j)
        (by positivity) (by decide) (by decide) (by ring) (by omega)
      simpa using hread
  · rw [Numeral.toFloat, Numeral.toDecimal_document_of_large hne hlarge]
    have hfar : 2 ^ 53 ≤ m * 2 ^ j := by
      have hpow := Decimal.pow_le_coefficient (d := ⟨s == .negative, m * 2 ^ j, 0⟩) (n := 16) hne
        (by simpa [Numeral.positionalBelow] using hlarge)
      exact le_trans (by norm_num) hpow
    refine h.toFloat_eq hrange hx rfl hne ?_ ?_ ?_
    · have hle := Decimal.leadingExponent_le (d := ⟨s == .negative, m * 2 ^ j, 0⟩) hlt (by decide)
      unfold Decimal.exponentBound
      simp only at hle
      omega
    · have hle := Decimal.le_leadingExponent (d := ⟨s == .negative, m * 2 ^ j, 0⟩) hge
      unfold Decimal.exponentBound
      simp only at hle
      omega
    · simpa using h.ofScientific_integer hj hfar

private theorem toFloat_document_zero (negative : Bool) :
    (Numeral.document (Dyadic.toDecimal ⟨negative, 0, -1074⟩)).toFloat =
      Float.ofModel (.pack (.zero (if negative then .negative else .positive))) := by
  have hexact : Dyadic.toDecimal ⟨negative, 0, -1074⟩ = ⟨negative, 0, -1074⟩ := by
    simp only [Dyadic.toDecimal, zero_mul]
    rfl
  rw [hexact, Numeral.document, if_pos rfl]
  cases negative <;> rfl

/-- The exact expansion of a double is read back from a document. -/
theorem toFloat_document_of_ofFloat? {exact : Decimal} (h : Decimal.ofFloat? x = some exact) :
    (Numeral.document exact).toFloat = x := by
  rw [Decimal.ofFloat?, Dyadic.ofFloat?_eq] at h
  split at h
  · rename_i s m e hpos hunpack
    obtain rfl := Option.some.inj h
    obtain ⟨hplace, hrange⟩ := inPlace_of_unpack hunpack
    rcases lt_or_ge e 0 with hneg | hnonneg
    · obtain ⟨k, rfl⟩ : ∃ k : Nat, e = -k := ⟨e.natAbs, by omega⟩
      rw [Dyadic.toDecimal, if_neg (Int.not_le.2 hneg)]
      simpa using toFloat_document_of_places hplace hrange hunpack rfl (by omega)
    · obtain ⟨j, rfl⟩ := Int.eq_ofNat_of_zero_le hnonneg
      simpa [Dyadic.toDecimal] using toFloat_document_of_integer hplace hrange hunpack rfl
  · rename_i s hunpack
    obtain rfl := Option.some.inj h
    rw [← ofModel_pack_unpack x, hunpack]
    cases s
    · exact toFloat_document_zero true
    · exact toFloat_document_zero false
  · cases h

namespace Numeral

/-- A double that a document can hold is read back from its numeral. -/
theorem toFloat_of_ofFloat? {n : Numeral} (h : ofFloat? x = some n) : n.toFloat = x := by
  unfold ofFloat? at h
  obtain ⟨exact, hexact, rfl⟩ := Option.map_eq_some_iff.1 h
  rcases hfound : Decimal.fewestDigits? .toEven
      (fun d => (document d).toFloat.toBits == x.toBits) exact with _ | d
  · simpa [hfound] using toFloat_document_of_ofFloat? hexact
  · have haccepted := Decimal.accept_of_fewestDigits? hfound
    simp only [hfound, Option.getD_some]
    exact Float.toBits_inj.1 (eq_of_beq haccepted)

/-- The finite doubles are those that a document can hold. -/
theorem isSome_ofFloat? (x : Float) : (ofFloat? x).isSome = Float.finite x := by
  have hnan : x.isNaN = x.toModel.unpack.isNaN := rfl
  have hinf : x.isInf = x.toModel.unpack.isInf := rfl
  rw [Float.finite, hnan, hinf, ofFloat?, Option.isSome_map, Decimal.ofFloat?, Option.isSome_map,
    Dyadic.ofFloat?_eq]
  cases x.toModel.unpack <;> rfl

end Numeral

/-- A finite double equals itself. -/
theorem beq_self_of_finite (h : Float.finite x = true) : (x == x) = true := by
  have hbeq : (x == x) = x.toModel.unpack.beq x.toModel.unpack := rfl
  have hnan : x.isNaN = x.toModel.unpack.isNaN := rfl
  rw [Float.finite, hnan] at h
  rw [hbeq]
  cases hunpack : x.toModel.unpack with
  | notANumber => simp [hunpack, UnpackedFloat.isNaN] at h
  | infinity s => cases s <;> rfl
  | zero s => cases s <;> rfl
  | finite s m e hpos => cases s <;> simp [UnpackedFloat.beq, UnpackedFloat.compare]

end

end PathSelection
