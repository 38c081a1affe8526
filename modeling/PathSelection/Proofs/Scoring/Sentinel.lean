import Mathlib.Tactic.FieldSimp
import Mathlib.Tactic.Ring
import PathSelection.Proofs.Device.Validity
import PathSelection.Proofs.Scoring.Batch
import PathSelection.Proofs.Scoring.Probability

/-!
# Scores and the sentinel

The sentinel is a fixed number, and each of the three strategies has a scale of its
own.  Read exactly, calibrated scores and those from mean fidelities never come near
the sentinel.  Analytical scores grow with the number of gates, and stay below it just
as long as the gates of the circuit fit into a budget of coherence time.

Main results:

- Theorem `value_score_lt_sentinel_iff`: the scores below the sentinel, one at a time.
- Theorem `scoreBatch_lt_sentinel_iff`: the batches whose scores are all below it.
-/

namespace PathSelection

/-! ## The three scales -/

/-- Repeated squaring computes powers. -/
theorem Scalar.powFrom_rat {steps : Nat} {r x : Rat} {n : Nat} (h : n < 2 ^ steps) :
    Scalar.powFrom steps r x n = r * x ^ n := by
  induction steps generalizing r x n with
  | zero =>
    obtain rfl : n = 0 := by simpa using h
    simp [Scalar.powFrom]
  | succ steps ih =>
    have hbit : (if n % 2 == 1 then r * x else r) = r * x ^ (n % 2) := by
      rcases Nat.mod_two_eq_zero_or_one n with hzero | hone
      · simp [hzero]
      · simp [hone]
    have hpower : x ^ (n % 2) * (x * x) ^ (n / 2) = x ^ n := by
      rw [← pow_two, ← pow_mul, ← pow_add, Nat.mod_add_div]
    unfold Scalar.powFrom
    simp only [beq_iff_eq] at hbit ⊢
    change (if n / 2 = 0 then (if n % 2 = 1 then r * x else r)
      else Scalar.powFrom steps (if n % 2 = 1 then r * x else r) (x * x) (n / 2)) = r * x ^ n
    rw [hbit]
    split
    · rename_i hhalf
      rw [← hpower, hhalf, pow_zero, mul_one]
    · have hhalf : n / 2 < 2 ^ steps := by
        rw [pow_succ] at h
        omega
      rw [ih hhalf, mul_assoc, hpower]

@[simp]
theorem Scalar.pow_rat (x : Rat) (n : Nat) : Scalar.pow x n = x ^ n := by
  rw [Scalar.pow, Scalar.powFrom_rat Nat.lt_log2_self, Scalar.one_rat, one_mul]

private theorem sentinelPenalty_rat : (sentinelPenalty : Rat) = 1000000 := rfl

/-- The analytical score in exact arithmetic. -/
theorem analyticalScore_rat (count : GateCount) (d : Descriptor Rat) (width : Nat) :
    analyticalScore count d width =
      count.singleQubit / d.maxDepth1 * 500 + count.twoQubit / d.maxDepth2 * 1000 +
        if d.numQubits < width then widthPenalty else 0 := by
  have hscore : analyticalScore count d width =
      if d.numQubits < width then
        count.singleQubit / d.maxDepth1 * 500 + count.twoQubit / d.maxDepth2 * 1000 + widthPenalty
      else count.singleQubit / d.maxDepth1 * 500 + count.twoQubit / d.maxDepth2 * 1000 := rfl
  rw [hscore]
  split
  · rfl
  · exact (add_zero _).symm

/-- The average-fidelity score in exact arithmetic. -/
theorem averageFidelityScore_rat (count : GateCount) (f1 f2 : Rat) :
    averageFidelityScore count f1 f2 =
      (1 - f1 ^ min count.singleQubit exponentLimit) * 1 +
        (1 - f2 ^ min count.twoQubit exponentLimit) * 10 := by
  rw [← Scalar.pow_rat, ← Scalar.pow_rat]
  rfl

/-- An average-fidelity score is at most the sum of its two weights. -/
theorem averageFidelityScore_le {count : GateCount} {f1 f2 : Rat} (h1 : 0 ≤ f1) (h2 : 0 ≤ f2) :
    averageFidelityScore count f1 f2 ≤ 11 := by
  have hpow1 := pow_nonneg h1 (min count.singleQubit exponentLimit)
  have hpow2 := pow_nonneg h2 (min count.twoQubit exponentLimit)
  rw [averageFidelityScore_rat]
  linarith

/-! ## Scores below the sentinel -/

namespace ScoringEngine

variable {e : ScoringEngine Rat} {c : Candidate Rat} {cs : List (Candidate Rat)} {width : Nat}
  {s : Score Rat}

/-- The gates of a candidate can be counted and take less than two thousand coherence times of its
device, those on two qubits counting twice. -/
def WithinBudget (e : ScoringEngine Rat) (c : Candidate Rat) : Prop :=
  ∃ count ∈ countNativeGates c.circuit c.device e.countMode,
    count.singleQubit * c.device.gateTime1 + 2 * (count.twoQubit * c.device.gateTime2) <
      2000 * min c.device.t1 c.device.t2

instance : Decidable (e.WithinBudget c) := inferInstanceAs (Decidable (∃ _ ∈ _, _))

/-- The calibration tables of the engine are in range. -/
def InRange (e : ScoringEngine Rat) : Prop := CalibrationStore.InRange e.calibrations

private theorem InRange.fault?_eq_none (h : e.InRange) {name : String} {t : CalibrationTable Rat}
    (ht : CalibrationStore.get e.calibrations name = .ok t) : t.fault? = none := by
  unfold CalibrationStore.get at ht
  split at ht
  · rename_i hget
    exact Except.ok.inj ht ▸ h _ (Dict.mem_values_of_get? hget)
  · simp at ht

/-- Analytical scores are below the sentinel as long as the gates fit into the budget. -/
theorem value_analytical_lt_sentinel_iff (hvalid : c.device.validate = .ok ())
    (hfits : width ≤ c.device.numQubits) (hs : e.analytical c width = some s) :
    s.value < sentinelPenalty ↔ e.WithinBudget c := by
  rcases Descriptor.pos_of_validate hvalid with ⟨ht1, ht2, hgate1, hgate2, _⟩
  have hcoherence : 0 < min c.device.t1 c.device.t2 := lt_min ht1 ht2
  obtain ⟨count, hcount, rfl⟩ := Option.map_eq_some_iff.1 hs
  have hvalue : analyticalScore count c.device width =
      count.singleQubit / (c.device.minCoherence / c.device.gateTime1) * 500 +
        count.twoQubit / (c.device.minCoherence / c.device.gateTime2) * 1000 := by
    rw [analyticalScore_rat, if_neg hfits.not_gt, add_zero]
    rfl
  have hquotient : analyticalScore count c.device width =
      (500 * (count.singleQubit * c.device.gateTime1) +
        1000 * (count.twoQubit * c.device.gateTime2)) / min c.device.t1 c.device.t2 := by
    rw [hvalue, Descriptor.minCoherence_eq_min]
    field_simp
  simp only [WithinBudget, hcount, Option.mem_def, Option.some.injEq, exists_eq_left']
  rw [hquotient, sentinelPenalty_rat, div_lt_iff₀ hcoherence]
  constructor
  · intro h
    linarith
  · intro h
    linarith

/-- Scores from mean fidelities are below the sentinel. -/
theorem value_averageFidelity_lt_sentinel (h : e.InRange) (hvalid : c.device.validate = .ok ())
    (hs : e.averageFidelity c = some s) : s.value < sentinelPenalty := by
  rcases Descriptor.pos_of_validate hvalid with ⟨_, _, _, _, hfidelity1, hfidelity2⟩
  have hmean : 0 ≤ (e.meanFidelities c.device).1 ∧ 0 ≤ (e.meanFidelities c.device).2 := by
    unfold meanFidelities
    split
    · rename_i t ht
      cases hmeans : t.averageFidelities with
      | none => exact ⟨hfidelity1.le, hfidelity2.le⟩
      | some means =>
        obtain ⟨hone, htwo⟩ :=
          CalibrationTable.averageFidelities_bounds (h.fault?_eq_none ht) hmeans
        exact ⟨hone.1, htwo.1⟩
    · exact ⟨hfidelity1.le, hfidelity2.le⟩
  obtain ⟨count, -, rfl⟩ := Option.map_eq_some_iff.1 hs
  have hle : averageFidelityScore count (e.meanFidelities c.device).1
      (e.meanFidelities c.device).2 ≤ 11 := averageFidelityScore_le hmean.1 hmean.2
  rw [sentinelPenalty_rat]
  exact hle.trans_lt (by norm_num)

/-- Calibrated scores are below the sentinel. -/
theorem value_calibrated_lt_sentinel (h : e.InRange) (hs : e.calibrated c = .ok s) :
    s.value < sentinelPenalty := by
  unfold calibrated at hs
  split at hs
  · simp at hs
  · rename_i t ht
    cases hfidelity : calibrationFidelity c.circuit t with
    | error cause => simp [hfidelity, Except.map] at hs
    | ok f =>
      have hnonneg := (calibrationFidelity_bounds (h.fault?_eq_none ht) hfidelity).1
      have hvalue : s.value = 1 - f := by
        rw [hfidelity] at hs
        exact congrArg Score.value (Except.ok.inj hs).symm
      rw [hvalue, sentinelPenalty_rat]
      linarith

/-- A score on a large enough device is below the sentinel, unless it is an analytical score of
gates beyond the budget. -/
theorem value_score_lt_sentinel_iff (h : e.InRange) (hvalid : c.device.validate = .ok ())
    (hfits : width ≤ c.device.numQubits) (hs : e.score c width = some s) :
    s.value < sentinelPenalty ↔ (s.strategy = .analytical → e.WithinBudget c) := by
  have hwide : ¬tooWide c width = true := fun hw => hfits.not_gt (tooWide_iff.1 hw)
  have hanalytical (hs : e.analytical c width = some s) :
      s.value < sentinelPenalty ↔ (s.strategy = .analytical → e.WithinBudget c) := by
    rw [value_analytical_lt_sentinel_iff hvalid hfits hs]
    exact ⟨fun hbudget _ => hbudget, fun hbudget => hbudget (strategy_analytical hs)⟩
  unfold score at hs
  rw [if_neg hwide] at hs
  cases hpolicy : e.policy with
  | calibrated =>
    rw [hpolicy] at hs
    cases hscore : e.calibrated c with
    | ok s' =>
      simp only [hscore, Option.some.injEq] at hs
      subst hs
      simp [value_calibrated_lt_sentinel h hscore, strategy_calibrated hscore]
    | error cause =>
      simp only [hscore] at hs
      exact hanalytical hs
  | analytical =>
    rw [hpolicy] at hs
    exact hanalytical hs
  | averageFidelity =>
    rw [hpolicy] at hs
    simp [value_averageFidelity_lt_sentinel h hvalid hs, strategy_averageFidelity hs]

/-- In a batch a score on a large enough device is below the sentinel, unless the batch is
analytical and the gates are beyond the budget. -/
theorem value_scoreBatch_lt_sentinel_iff (h : e.InRange) {batch : ScoreBatch Rat}
    (hbatch : e.scoreBatch cs width = some batch) (hc : c ∈ cs)
    (hvalid : c.device.validate = .ok ()) (hfits : width ≤ c.device.numQubits)
    (hs : (e.under (e.agreedPolicy cs width)).score c width = some s) :
    s.value < sentinelPenalty ↔ (batch.strategy = .analytical → e.WithinBudget c) := by
  have hwide : ¬tooWide c width = true := fun hw => hfits.not_gt (tooWide_iff.1 hw)
  have hunder : (e.under (e.agreedPolicy cs width)).InRange := h
  rw [value_score_lt_sentinel_iff hunder hvalid hfits hs, strategy_of_score_agreedPolicy hc hs hwide,
    (scoreBatch_eq_some_iff.1 hbatch).2]
  rfl

/-- All scores of a batch other than sentinels are below the sentinel exactly if the batch is not
analytical or all its candidates are within the budget. -/
theorem scoreBatch_lt_sentinel_iff (h : e.InRange) {batch : ScoreBatch Rat}
    (hbatch : e.scoreBatch cs width = some batch)
    (hvalid : ∀ c ∈ cs, c.device.validate = .ok ()) :
    (∀ s ∈ batch.scores, s.isSentinel = false → s.value < sentinelPenalty) ↔
      (batch.strategy = .analytical →
        ∀ c ∈ cs, width ≤ c.device.numQubits → e.WithinBudget c) := by
  have hscores := (scoreBatch_eq_some_iff.1 hbatch).1
  have hscored {c : Candidate Rat} {s : Score Rat}
      (hs : (e.under (e.agreedPolicy cs width)).score c width = some s) :
      s.isSentinel = false ↔ width ≤ c.device.numQubits := by
    rw [← Bool.not_eq_true, isSentinel_iff_of_score hs, not_lt]
  constructor
  · intro hbelow hstrategy c hc hfits
    obtain ⟨s, hmem, hs⟩ := exists_of_forall₂ hscores hc
    exact (value_scoreBatch_lt_sentinel_iff h hbatch hc (hvalid c hc) hfits hs).1
      (hbelow s hmem ((hscored hs).2 hfits)) hstrategy
  · intro hbudget s hmem hsentinel
    obtain ⟨c, hc, hs⟩ := exists_source_of_forall₂ hscores hmem
    have hfits := (hscored hs).1 hsentinel
    exact (value_scoreBatch_lt_sentinel_iff h hbatch hc (hvalid c hc) hfits hs).2
      fun hstrategy => hbudget hstrategy c hc hfits

end ScoringEngine

end PathSelection
