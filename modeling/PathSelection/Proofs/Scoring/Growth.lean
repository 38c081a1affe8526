import PathSelection.Proofs.Circuit.Reordering
import PathSelection.Proofs.Scoring.Sentinel

/-!
# Scores of growing circuits

One more instruction never makes a compiled circuit look better.  It counts as one more
gate at most, and each gate takes a share of the coherence time of a valid device and can
fail with a probability that is not negative.  By a table that was taken it multiplies the
fidelity of the circuit by probabilities, or the circuit loses its fidelity altogether.
All of this holds of the arithmetic read exactly.

Main results:

- Theorem `countNativeGates_of_apply`: what one more instruction changes about the count.
- Theorem `calibrationFidelity_of_apply`: what it changes about the fidelity of a circuit.
- Theorem `scores_of_apply`: one more instruction makes no score lower.
-/

namespace PathSelection

/-! ## Counts -/

namespace GateCount

variable {p : Provider}

/-- Further gates can be counted in any order. -/
theorem add_right_comm (c : GateCount) (entry other : String × Nat) :
    (c.add p entry).add p other = (c.add p other).add p entry := by
  unfold add
  cases p.classify entry.1 with
  | none => rfl
  | some kind =>
    cases kind <;> cases p.classify other.1 with
    | none => rfl
    | some kind => cases kind <;> simp [Nat.add_right_comm]

/-- Gates of one name can be counted one after another. -/
theorem add_add (c : GateCount) (name : String) (m n : Nat) :
    c.add p (name, m + n) = (c.add p (name, m)).add p (name, n) := by
  unfold add
  cases p.classify name with
  | none => rfl
  | some kind => cases kind <;> simp [Nat.add_assoc]

private theorem ofTally_cons (p : Provider) (entry : String × Nat) (t : Tally) :
    ofTally p (entry :: t) = (ofTally p t).add p entry := by
  have : RightCommutative (add p) := ⟨add_right_comm⟩
  exact List.foldl_cons_eq_apply_foldl

/-- One more occurrence of a name counts as one more gate of this name. -/
theorem ofTally_add (p : Provider) (t : Tally) (name : String) :
    ofTally p (t.add name) = (ofTally p t).add p (name, 1) := by
  induction t with
  | nil => rfl
  | cons entry rest ih =>
    obtain ⟨other, n⟩ := entry
    unfold Tally.add
    split_ifs with hsame hlt
    · subst hsame
      rw [ofTally_cons, ofTally_cons, add_add]
    · rw [ofTally_cons]
    · rw [ofTally_cons, ofTally_cons, ih, add_right_comm]

/-- Further gates lower neither number. -/
theorem le_add (c : GateCount) (entry : String × Nat) :
    c.singleQubit ≤ (c.add p entry).singleQubit ∧ c.twoQubit ≤ (c.add p entry).twoQubit := by
  unfold add
  cases p.classify entry.1 with
  | none => exact ⟨le_rfl, le_rfl⟩
  | some kind => cases kind <;> simp

end GateCount

/-- One more instruction counts as one more gate of its name. -/
theorem ofTally_countOps_of_apply {c c' : Circuit} {i : Instruction}
    (h : Circuit.apply i c = .ok () c') (p : Provider) :
    GateCount.ofTally p c'.countOps = (GateCount.ofTally p c.countOps).add p (i.name, 1) := by
  have hops : c'.countOps = c.countOps.add i.name := by
    rw [Circuit.countOps_eq, Circuit.countOps_eq, Circuit.instructions_of_apply h, List.map_append,
      List.map_singleton, Tally.ofNames_concat]
  rw [hops, GateCount.ofTally_add]

/-! ## Scores that grow with the count -/

section

variable {d : Descriptor Rat} {count count' : GateCount} {f1 f2 : Rat} {width : Nat}

/-- Gates fit into the coherence time of a valid device. -/
theorem Descriptor.maxDepth_pos_of_validate (h : d.validate = .ok ()) :
    0 < d.maxDepth1 ∧ 0 < d.maxDepth2 := by
  obtain ⟨ht1, ht2, hgate1, hgate2, -⟩ := pos_of_validate h
  have hcoherence : 0 < d.minCoherence := by
    rw [minCoherence_eq_min]
    exact lt_min ht1 ht2
  exact ⟨div_pos hcoherence hgate1, div_pos hcoherence hgate2⟩

/-- More gates take a larger share of the coherence time. -/
theorem analyticalScore_mono (hd : d.validate = .ok ())
    (hone : count.singleQubit ≤ count'.singleQubit) (htwo : count.twoQubit ≤ count'.twoQubit) :
    analyticalScore count d width ≤ analyticalScore count' d width := by
  obtain ⟨hdepth1, hdepth2⟩ := Descriptor.maxDepth_pos_of_validate hd
  rw [analyticalScore_rat, analyticalScore_rat]
  gcongr

/-- No share of the coherence time is negative. -/
theorem analyticalScore_nonneg (hd : d.validate = .ok ()) (count : GateCount) (width : Nat) :
    0 ≤ analyticalScore count d width := by
  obtain ⟨hdepth1, hdepth2⟩ := Descriptor.maxDepth_pos_of_validate hd
  have hpenalty : (0 : Rat) ≤ if d.numQubits < width then widthPenalty else 0 := by
    split
    · exact Nat.cast_nonneg 5000
    · exact le_rfl
  rw [analyticalScore_rat]
  positivity

/-- More gates are less likely to succeed all together. -/
theorem averageFidelityScore_mono (hf1 : 0 ≤ f1 ∧ f1 ≤ 1) (hf2 : 0 ≤ f2 ∧ f2 ≤ 1)
    (hone : count.singleQubit ≤ count'.singleQubit) (htwo : count.twoQubit ≤ count'.twoQubit) :
    averageFidelityScore count f1 f2 ≤ averageFidelityScore count' f1 f2 := by
  have hpow1 : f1 ^ min count'.singleQubit exponentLimit ≤
      f1 ^ min count.singleQubit exponentLimit :=
    pow_le_pow_of_le_one hf1.1 hf1.2 (min_le_min_right _ hone)
  have hpow2 : f2 ^ min count'.twoQubit exponentLimit ≤ f2 ^ min count.twoQubit exponentLimit :=
    pow_le_pow_of_le_one hf2.1 hf2.2 (min_le_min_right _ htwo)
  rw [averageFidelityScore_rat, averageFidelityScore_rat]
  linarith

end

/-! ## Fidelities of circuits -/

section

variable {c c' : Circuit} {i : Instruction}

/-- One more instruction multiplies the fidelity of a circuit by its own fidelities.  Without any of
them the circuit has none either. -/
theorem calibrationFidelity_of_apply {α : Type} [Scalar α] {t : CalibrationTable α} {f' : α}
    (h : Circuit.apply i c = .ok () c') :
    calibrationFidelity c' t = .ok f' ↔ ∃ f fs, calibrationFidelity c t = .ok f ∧
      instructionFidelities t i = .ok fs ∧ fs.foldl (· * ·) f = f' := by
  simp only [calibrationFidelity_eq_ok_iff, Circuit.instructions_of_apply h,
    mapM_concat_eq_ok_iff]
  constructor
  · rintro ⟨_, ⟨fidelities, fs, hfidelities, hfs, rfl⟩, rfl⟩
    exact ⟨_, fs, ⟨fidelities, hfidelities, rfl⟩, hfs, by simp⟩
  · rintro ⟨_, fs, ⟨fidelities, hfidelities, rfl⟩, hfs, rfl⟩
    exact ⟨_, ⟨fidelities, fs, hfidelities, hfs, rfl⟩, by simp⟩

/-- By a table in range one more instruction makes the fidelity of a circuit no larger. -/
theorem exists_le_calibrationFidelity {t : CalibrationTable Rat} {f' : Rat}
    (ht : t.fault? = none) (h : Circuit.apply i c = .ok () c')
    (hf' : calibrationFidelity c' t = .ok f') :
    ∃ f, calibrationFidelity c t = .ok f ∧ f' ≤ f := by
  obtain ⟨f, fs, hf, hfs, rfl⟩ := (calibrationFidelity_of_apply h).1 hf'
  have hbounds : ∀ x ∈ fs, 0 ≤ x ∧ x ≤ 1 := by
    intro x hx
    obtain ⟨hnonneg, hone, -⟩ := instructionFidelities_bounds ht hfs hx
    exact ⟨hnonneg, hone⟩
  have hnonneg : 0 ≤ f := (calibrationFidelity_bounds ht hf).1
  have hfold : fs.foldl (· * ·) (f * 1) = f * fs.foldl (· * ·) 1 := List.foldl_assoc
  refine ⟨f, hf, ?_⟩
  calc
    fs.foldl (· * ·) f = f * fs.prod := by rw [List.prod_eq_foldl, ← hfold, mul_one]
    _ ≤ f := mul_le_of_le_one_right hnonneg (prod_le_one hbounds)

/--
One more instruction, of whatever kind, never makes a circuit look better on a valid device,
in exact arithmetic.  The analytical score does not get lower on any width, nor does the
average-fidelity score with the fidelities of the device or with the means of a table that was
taken, and by such a table the circuit had a fidelity, if it still has one, that was no
smaller.  Analytical scores are not negative, and a circuit that is too wide for the device
has the score of one that fits and the penalty.
-/
theorem scores_of_apply {d : Descriptor Float} (hd : d.validate = .ok ())
    (h : Circuit.apply i c = .ok () c') :
    ∃ count count', countNativeGates c d .wholeCircuit = some count ∧
    countNativeGates c' d .wholeCircuit = some count' ∧
    (∀ width, analyticalScore count d.exact width ≤ analyticalScore count' d.exact width) ∧
    averageFidelityScore count d.exact.fidelity1 d.exact.fidelity2 ≤
      averageFidelityScore count' d.exact.fidelity1 d.exact.fidelity2 ∧
    (∀ schema source text (t : CalibrationTable Float),
      CalibrationTable.parse schema source text = .ok t →
      (∀ f1 f2, t.exact.averageFidelities = some (f1, f2) →
        averageFidelityScore count f1 f2 ≤ averageFidelityScore count' f1 f2) ∧
      ∀ x', calibrationFidelity c' t = .ok x' → ∃ x f f', calibrationFidelity c t = .ok x ∧
        calibrationFidelity c t.exact = .ok f ∧ calibrationFidelity c' t.exact = .ok f' ∧
        f' ≤ f) ∧
    (∀ n width, 0 ≤ analyticalScore n d.exact width) ∧
    ∀ n fits wide, fits ≤ d.numQubits → d.numQubits < wide →
      analyticalScore n d.exact wide = analyticalScore n d.exact fits + widthPenalty := by
  have hvalid : d.exact.validate = .ok () :=
    Descriptor.validate_eq_ok_iff.2 (Descriptor.validate_eq_ok_iff.1 hd).exact
  refine ⟨_, _, countNativeGates_wholeCircuit c d, countNativeGates_wholeCircuit c' d, ?_⟩
  rw [ofTally_countOps_of_apply h]
  generalize GateCount.ofTally d.provider c.countOps = count
  obtain ⟨hone, htwo⟩ := count.le_add (p := d.provider) (i.name, 1)
  generalize count.add d.provider (i.name, 1) = count' at hone htwo ⊢
  obtain ⟨-, -, -, -, hpos1, hpos2⟩ := Descriptor.pos_of_validate hvalid
  obtain ⟨hle1, hle2⟩ := Descriptor.fidelity_le_one_of_validate hvalid
  refine ⟨fun width => analyticalScore_mono hvalid hone htwo,
    averageFidelityScore_mono ⟨hpos1.le, hle1⟩ ⟨hpos2.le, hle2⟩ hone htwo, ?_,
    analyticalScore_nonneg hvalid, ?_⟩
  · intro schema source text t ht
    have hrange := CalibrationTable.fault?_exact_of_parse ht
    refine ⟨fun f1 f2 hmeans => ?_, fun x' hx' => ?_⟩
    · obtain ⟨hf1, hf2⟩ := CalibrationTable.averageFidelities_bounds hrange hmeans
      exact averageFidelityScore_mono hf1 hf2 hone htwo
    · obtain ⟨x, -, hx, -⟩ := (calibrationFidelity_of_apply h).1 hx'
      obtain ⟨f', hf'⟩ := exists_calibrationFidelity hx' Float.exact
      obtain ⟨f, hf, hle⟩ := exists_le_calibrationFidelity hrange h hf'
      exact ⟨x, f, f', hx, hf, hf', hle⟩
  · intro n fits wide hfits hwide
    have hsize : d.exact.numQubits = d.numQubits := rfl
    rw [analyticalScore_rat, analyticalScore_rat, hsize, if_neg (Nat.not_lt.2 hfits),
      if_pos hwide, add_zero]

/-- A native gate on a device whose times and fidelities are one. -/
theorem scores_of_apply_rootCircuit :
    let d : Descriptor Float := .ofProvider .ibm "device" 1
    d.validate = .ok () ∧
      Circuit.apply (.ofGate (.zeroed .sx) [0]) (.withSize "root" 1 0) = .ok () rootCircuit ∧
      ∀ width, analyticalScore ⟨0, 0⟩ d.exact width ≤ analyticalScore ⟨1, 0⟩ d.exact width := by
  have hvalid : (Descriptor.ofProvider .ibm "device" 1 : Descriptor Float).validate = .ok () := by
    rfl
  have happly : Circuit.apply (.ofGate (.zeroed .sx) [0]) (.withSize "root" 1 0) =
      .ok () rootCircuit := rfl
  obtain ⟨count, count', hcount, hcount', hmore, -⟩ := scores_of_apply hvalid happly
  obtain rfl : ⟨0, 0⟩ = count := Option.some.inj hcount
  obtain rfl : ⟨1, 0⟩ = count' := Option.some.inj hcount'
  exact ⟨hvalid, happly, hmore⟩

end

end PathSelection
