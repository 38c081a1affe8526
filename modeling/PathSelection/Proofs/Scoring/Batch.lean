import Mathlib.Data.List.OfFn
import Mathlib.Logic.Equiv.Defs
import PathSelection.Proofs.Circuit.LongestChain
import PathSelection.Proofs.Circuit.Refusal
import PathSelection.Proofs.Traversal
import PathSelection.Scoring.Engine

/-!
# Batches of scores

A batch is scored as if every candidate were scored on its own by one policy, the
agreed one.  It is the policy of the engine, unless calibration is wanted and some
candidate that fits its device lacks it: then the whole batch is analytical.  There is
no batch if one of its scores needs a count that never ends.

Main results:

- Theorem `scoreBatch_eq`: a batch holds the scores under the agreed policy.
- Theorem `agreedPolicy_congr`: the agreed policy depends only on which candidates there are.
- Theorem `exists_scoreBatch_iff`: when there is a batch.
- Theorem `scoreBatch_agrees`: one strategy for all scores, agreement with scores one by
  one, and the scores of permuted candidates.
- Theorem `scoreBatch_repeatCircuit`: a candidate for which there is no batch.
-/

namespace PathSelection

/-! ## Counts that end -/

/-- Native gates can be counted in the whole circuit, and along the longest chain if the way back
from its end ends. -/
theorem exists_countNativeGates_iff {α : Type} {c : Circuit} {d : Descriptor α} {mode : CountMode} :
    (∃ count, countNativeGates c d mode = some count) ↔
      (mode = .longestPath → c.dag.Traceable) := by
  cases mode with
  | wholeCircuit => simp
  | longestPath =>
    simp [← Dag.exists_longestPath_iff, countNativeGates, Circuit.tally?,
      Circuit.countOpsLongestPath, Dag.countOpsLongestPath]

/-! ## The agreed policy -/

/-- The strategy of a policy, if nothing is missing. -/
def ScoringPolicy.strategy : ScoringPolicy → ScoringStrategy
  | calibrated => .calibrated
  | analytical => .analytical
  | averageFidelity => .averageFidelity

private theorem ScoringPolicy.strategy_ne_sentinel (p : ScoringPolicy) :
    p.strategy ≠ .sentinel := by
  cases p <;> decide

namespace ScoringEngine

variable {α : Type} {e : ScoringEngine α} {c : Candidate α} {cs : List (Candidate α)}
  {width : Nat}

/-- The engine with another policy. -/
def under (e : ScoringEngine α) (p : ScoringPolicy) : ScoringEngine α := { e with policy := p }

@[simp]
theorem policy_under (p : ScoringPolicy) : (e.under p).policy = p := rfl

@[simp]
theorem under_policy : e.under e.policy = e := rfl

/-- A circuit is too wide for a device with fewer qubits. -/
theorem tooWide_iff : tooWide c width = true ↔ c.device.numQubits < width := by
  simp [tooWide]

/-- The counting of the native gates of a candidate ends. -/
def Countable (e : ScoringEngine α) (c : Candidate α) : Prop :=
  e.countMode = .longestPath → c.circuit.dag.Traceable

/-- The counting ends for circuits none of whose operations names a classical bit twice. -/
theorem countable_of_nodup (h : c.circuit.Reachable)
    (hclbits : ∀ i ∈ c.circuit.instructions, i.clbits.Nodup) : e.Countable c := by
  intro _
  obtain ⟨path, hpath, -⟩ := h.sound.exists_longestPath hclbits
  exact Dag.exists_longestPath_iff.1 ⟨path, hpath⟩

variable [Scalar α]

@[simp]
theorem calibrated_under (p : ScoringPolicy) : (e.under p).calibrated c = e.calibrated c := rfl

/-- Is there a calibrated score for each of the candidates that fits its device? -/
def allCalibrated (e : ScoringEngine α) (cs : List (Candidate α)) (width : Nat) : Bool :=
  cs.all fun c => tooWide c width || (e.calibrated c).isOk

/-- The policy by which all candidates of a batch can be scored. -/
def agreedPolicy (e : ScoringEngine α) (cs : List (Candidate α)) (width : Nat) : ScoringPolicy :=
  match e.policy with
  | .calibrated => if e.allCalibrated cs width then .calibrated else .analytical
  | p => p

/-- A candidate has a calibrated score if its table knows the fidelity of its circuit. -/
theorem isOk_calibrated_iff :
    (e.calibrated c).isOk = true ↔
      ∃ t f, CalibrationStore.get e.calibrations c.device.name = .ok t ∧
        calibrationFidelity c.circuit t = .ok f := by
  unfold calibrated
  cases htable : CalibrationStore.get e.calibrations c.device.name with
  | error cause => simp [Except.isOk, Except.toBool]
  | ok t =>
    cases hfidelity : calibrationFidelity c.circuit t with
    | error cause => simp [Except.isOk, Except.toBool, Except.map, hfidelity]
    | ok f => simp [Except.isOk, Except.toBool, Except.map, hfidelity]

/-- All candidates that fit are calibrated if each has a table with a fidelity. -/
theorem allCalibrated_iff :
    e.allCalibrated cs width = true ↔
      ∀ c ∈ cs, width ≤ c.device.numQubits →
        ∃ t f, CalibrationStore.get e.calibrations c.device.name = .ok t ∧
          calibrationFidelity c.circuit t = .ok f := by
  simp only [allCalibrated, List.all_eq_true, Bool.or_eq_true, tooWide_iff, isOk_calibrated_iff]
  refine forall₂_congr fun c _ => ?_
  rw [← not_lt, or_iff_not_imp_left]

private theorem agreedPolicy_of_calibrated (h : e.policy = .calibrated) :
    e.agreedPolicy cs width = if e.allCalibrated cs width then .calibrated else .analytical := by
  simp only [agreedPolicy, h]

private theorem agreedPolicy_of_ne_calibrated (h : e.policy ≠ .calibrated) :
    e.agreedPolicy cs width = e.policy := by
  unfold agreedPolicy
  split
  · contradiction
  · rfl

/-- The agreed policy depends only on which candidates there are. -/
theorem agreedPolicy_congr {cs cs' : List (Candidate α)} (h : ∀ c, c ∈ cs ↔ c ∈ cs') :
    e.agreedPolicy cs width = e.agreedPolicy cs' width := by
  have hall : e.allCalibrated cs width = e.allCalibrated cs' width := by
    rw [Bool.eq_iff_iff, allCalibrated_iff, allCalibrated_iff]
    simp only [h]
  unfold agreedPolicy
  rw [hall]

/-! ## One score at a time -/

private theorem score_of_tooWide (h : tooWide c width = true) : e.score c width = some .sentinel :=
  if_pos h

/-- A calibrated score says so. -/
theorem strategy_calibrated {s : Score α} (h : e.calibrated c = .ok s) :
    s.strategy = .calibrated := by
  unfold calibrated at h
  cases htable : CalibrationStore.get e.calibrations c.device.name with
  | error cause => simp [htable] at h
  | ok t =>
    cases hfidelity : calibrationFidelity c.circuit t with
    | error cause => simp [htable, hfidelity, Except.map] at h
    | ok f =>
      obtain rfl : _ = s := by simpa [htable, hfidelity, Except.map] using h
      rfl

/-- An analytical score says so. -/
theorem strategy_analytical {s : Score α} (h : e.analytical c width = some s) :
    s.strategy = .analytical := by
  obtain ⟨count, -, rfl⟩ := Option.map_eq_some_iff.1 h
  rfl

/-- A score from mean fidelities says so. -/
theorem strategy_averageFidelity {s : Score α} (h : e.averageFidelity c = some s) :
    s.strategy = .averageFidelity := by
  obtain ⟨count, -, rfl⟩ := Option.map_eq_some_iff.1 h
  rfl

/-- A candidate that fits its device is scored by the policy that it agrees to on its own. -/
theorem strategy_of_score {s : Score α} (h : e.score c width = some s)
    (hfits : ¬tooWide c width = true) : s.strategy = (e.agreedPolicy [c] width).strategy := by
  unfold score at h
  rw [if_neg hfits] at h
  unfold agreedPolicy
  cases hpolicy : e.policy with
  | calibrated =>
    rw [hpolicy] at h
    cases hscore : e.calibrated c with
    | ok s' =>
      simp only [hscore, Option.some.injEq] at h
      simp [allCalibrated, hscore, Except.isOk, Except.toBool, ScoringPolicy.strategy, ← h,
        strategy_calibrated hscore]
    | error cause =>
      simp only [hscore] at h
      simp [allCalibrated, hscore, hfits, Except.isOk, Except.toBool, ScoringPolicy.strategy,
        strategy_analytical h]
  | analytical =>
    rw [hpolicy] at h
    exact strategy_analytical h
  | averageFidelity =>
    rw [hpolicy] at h
    exact strategy_averageFidelity h

/-- A candidate gets the sentinel exactly if its device is too small. -/
theorem isSentinel_iff_of_score {s : Score α} (h : e.score c width = some s) :
    s.isSentinel = true ↔ c.device.numQubits < width := by
  rw [← tooWide_iff, Score.isSentinel, beq_iff_eq]
  constructor
  · intro hsentinel
    by_contra hfits
    rw [strategy_of_score h hfits] at hsentinel
    exact ScoringPolicy.strategy_ne_sentinel _ hsentinel
  · intro hwide
    rw [score_of_tooWide hwide] at h
    rw [← Option.some.inj h]
    rfl

/-- Where there is a calibrated score, it is the score under the calibrated policy. -/
theorem score_under_calibrated {s : Score α} (h : e.calibrated c = .ok s)
    (hfits : ¬tooWide c width = true) : (e.under .calibrated).score c width = some s := by
  simp only [score, if_neg hfits, policy_under, calibrated_under, h]

/-- Where calibration is not wanted, a candidate that fits its device has a score exactly if the
counting of its gates ends. -/
theorem exists_score_iff (h : e.policy ≠ .calibrated) :
    (∃ s, e.score c width = some s) ↔ (width ≤ c.device.numQubits → e.Countable c) := by
  by_cases hwide : tooWide c width = true
  · rw [score_of_tooWide hwide]
    have hsmall := tooWide_iff.1 hwide
    exact iff_of_true ⟨_, rfl⟩ fun hfits => absurd hfits hsmall.not_ge
  · have hfits : width ≤ c.device.numQubits := not_lt.1 fun hsmall => hwide (tooWide_iff.2 hsmall)
    rw [Countable, ← exists_countNativeGates_iff (d := c.device), score, if_neg hwide]
    cases hpolicy : e.policy with
    | calibrated => exact absurd hpolicy h
    | analytical => simp [analytical, hfits]
    | averageFidelity => simp [averageFidelity, hfits]

/-! ## Whole batches -/

/-- In a batch all candidates that fit their device are scored by one strategy. -/
theorem strategy_of_score_agreedPolicy (hc : c ∈ cs) {s : Score α}
    (h : (e.under (e.agreedPolicy cs width)).score c width = some s)
    (hfits : ¬tooWide c width = true) : s.strategy = (e.agreedPolicy cs width).strategy := by
  rw [strategy_of_score h hfits]
  unfold agreedPolicy
  cases e.policy with
  | calibrated =>
    by_cases hall : e.allCalibrated cs width = true
    · have hone : (e.under .calibrated).allCalibrated [c] width = true := by
        refine List.all_eq_true.2 fun a ha => ?_
        rw [List.mem_singleton.1 ha]
        exact List.all_eq_true.1 hall c hc
      simp [hall, hone]
    · simp [hall]
  | analytical => rfl
  | averageFidelity => rfl

/-- Calibrated scores are those under the calibrated policy. -/
theorem forall₂_of_calibratedBatch {scores : List (Score α)}
    (h : e.calibratedBatch cs width = .ok scores) :
    List.Forall₂ (fun c s => (e.under .calibrated).score c width = some s) cs scores := by
  refine (mapM_eq_ok_iff.1 h).imp fun c s hs => ?_
  by_cases hwide : tooWide c width = true
  · rw [if_pos hwide] at hs
    rw [score_of_tooWide hwide, Except.ok.inj hs]
  · rw [if_neg hwide] at hs
    exact score_under_calibrated hs hwide

/-- A batch has calibrated scores exactly if all its candidates that fit their device do. -/
theorem exists_calibratedBatch_iff :
    (∃ scores, e.calibratedBatch cs width = .ok scores) ↔ e.allCalibrated cs width = true := by
  constructor
  · rintro ⟨scores, hscores⟩
    refine List.all_eq_true.2 fun c hc => ?_
    obtain ⟨s, -, hs⟩ := exists_of_mapM_eq_ok hscores hc
    by_cases hwide : tooWide c width = true
    · simp [hwide]
    · rw [if_neg hwide] at hs
      simp [hs, Except.isOk, Except.toBool]
  · intro hall
    refine exists_mapM_eq_ok fun c hc => ?_
    by_cases hwide : tooWide c width = true
    · exact ⟨_, if_pos hwide⟩
    · have hok := List.all_eq_true.1 hall c hc
      rw [if_neg hwide]
      cases hscore : e.calibrated c with
      | ok s => exact ⟨s, rfl⟩
      | error cause => simp [hwide, hscore, Except.isOk, Except.toBool] at hok

/-- A batch holds the scores of its candidates under the agreed policy. -/
theorem scoreBatch_eq (e : ScoringEngine α) (cs : List (Candidate α)) (width : Nat) :
    e.scoreBatch cs width =
      (cs.mapM fun c => (e.under (e.agreedPolicy cs width)).score c width).map
        (⟨·, (e.agreedPolicy cs width).strategy⟩) := by
  -- Scoring one by one checks the width in the same place, so these agree by computation.
  have hanalytical : e.analyticalBatch cs width =
      (cs.mapM fun c => (e.under .analytical).score c width).map (⟨·, .analytical⟩) := rfl
  unfold scoreBatch agreedPolicy
  cases e.policy with
  | calibrated =>
    cases hbatch : e.calibratedBatch cs width with
    | ok scores =>
      have hall := exists_calibratedBatch_iff.1 ⟨scores, hbatch⟩
      simp [hall, mapM_eq_some_iff.2 (forall₂_of_calibratedBatch hbatch), ScoringPolicy.strategy]
    | error cause =>
      have hall : ¬e.allCalibrated cs width = true := fun hall => by
        obtain ⟨scores, hscores⟩ := exists_calibratedBatch_iff.2 hall
        simp [hscores] at hbatch
      simp [hall, hanalytical, ScoringPolicy.strategy]
  | analytical => exact hanalytical
  | averageFidelity => rfl

/-- What a batch is: the scores of its candidates under the agreed policy, one for each. -/
theorem scoreBatch_eq_some_iff {batch : ScoreBatch α} :
    e.scoreBatch cs width = some batch ↔
      List.Forall₂ (fun c s => (e.under (e.agreedPolicy cs width)).score c width = some s) cs
        batch.scores ∧
      batch.strategy = (e.agreedPolicy cs width).strategy := by
  rw [scoreBatch_eq, Option.map_eq_some_iff]
  simp only [mapM_eq_some_iff]
  constructor
  · rintro ⟨scores, hscores, rfl⟩
    exact ⟨hscores, rfl⟩
  · rintro ⟨hscores, hstrategy⟩
    exact ⟨_, hscores, by rw [← hstrategy]⟩

/-- There is a batch if calibration is wanted and can be had, or else if the counting of the gates
of all candidates that fit their device ends. -/
theorem exists_scoreBatch_iff :
    (∃ batch, e.scoreBatch cs width = some batch) ↔
      (e.policy = .calibrated ∧ e.allCalibrated cs width = true) ∨
        ∀ c ∈ cs, width ≤ c.device.numQubits → e.Countable c := by
  simp only [scoreBatch_eq, Option.map_eq_some_iff]
  rw [exists_comm]
  simp only [exists_and_left, exists_eq', and_true, exists_mapM_eq_some_iff]
  by_cases hagreed : e.agreedPolicy cs width = .calibrated
  · obtain ⟨hpolicy, hall⟩ : e.policy = .calibrated ∧ e.allCalibrated cs width = true := by
      unfold agreedPolicy at hagreed
      cases hpolicy : e.policy <;> simp_all
    refine iff_of_true (exists_mapM_eq_some_iff.1 ?_) (.inl ⟨hpolicy, hall⟩)
    obtain ⟨scores, hscores⟩ := exists_calibratedBatch_iff.2 hall
    exact ⟨scores, hagreed ▸ mapM_eq_some_iff.2 (forall₂_of_calibratedBatch hscores)⟩
  · have hnot : ¬(e.policy = .calibrated ∧ e.allCalibrated cs width = true) :=
      fun ⟨hpolicy, hall⟩ => hagreed (by rw [agreedPolicy_of_calibrated hpolicy, if_pos hall])
    rw [or_iff_right hnot]
    exact forall₂_congr fun c _ => exists_score_iff (e := e.under _) hagreed

/-- The sentinels of a batch are those of candidates on too small devices; all other scores
have its strategy. -/
theorem forall₂_of_scoreBatch {batch : ScoreBatch α} (h : e.scoreBatch cs width = some batch) :
    List.Forall₂
      (fun c s =>
        (s.isSentinel = true ↔ c.device.numQubits < width) ∧
        (s.isSentinel = true → s = .sentinel) ∧
        (s.isSentinel = false → s.strategy = batch.strategy))
      cs batch.scores := by
  obtain ⟨hscores, hstrategy⟩ := scoreBatch_eq_some_iff.1 h
  refine ((List.forall₂_and_left _ _).2 ⟨fun c hc => hc, hscores⟩).imp ?_
  rintro c s ⟨hc, hs⟩
  refine ⟨isSentinel_iff_of_score hs, fun hsentinel => ?_, fun hscored => ?_⟩
  · rw [score_of_tooWide (tooWide_iff.2 ((isSentinel_iff_of_score hs).1 hsentinel))] at hs
    exact (Option.some.inj hs).symm
  · rw [hstrategy]
    refine strategy_of_score_agreedPolicy hc hs fun hwide => ?_
    rw [(isSentinel_iff_of_score hs).2 (tooWide_iff.1 hwide)] at hscored
    contradiction

/-- A batch under the calibrated policy is calibrated if it can be, and else analytical. -/
theorem scoreBatch_of_calibrated (hpolicy : e.policy = .calibrated) {batch : ScoreBatch α}
    (h : e.scoreBatch cs width = some batch) :
    (batch.strategy = .calibrated ↔
      ∀ c ∈ cs, width ≤ c.device.numQubits →
        ∃ t f, CalibrationStore.get e.calibrations c.device.name = .ok t ∧
          calibrationFidelity c.circuit t = .ok f) ∧
    (batch.strategy = .calibrated ∧
        List.Forall₂ (fun c s => e.score c width = some s) cs batch.scores ∨
      batch.strategy = .analytical ∧
        List.Forall₂ (fun c s => (e.under .analytical).score c width = some s) cs
          batch.scores) := by
  obtain ⟨hscores, hstrategy⟩ := scoreBatch_eq_some_iff.1 h
  have hsame : e.under .calibrated = e := hpolicy ▸ under_policy
  rw [agreedPolicy_of_calibrated hpolicy] at hscores hstrategy
  rw [← allCalibrated_iff, hstrategy]
  by_cases hall : e.allCalibrated cs width = true
  · rw [if_pos hall] at hscores ⊢
    rw [hsame] at hscores
    exact ⟨iff_of_true rfl hall, .inl ⟨rfl, hscores⟩⟩
  · rw [if_neg hall] at hscores ⊢
    exact ⟨iff_of_false (by simp [ScoringPolicy.strategy]) hall, .inr ⟨rfl, hscores⟩⟩

/-- A batch under another policy is scored by it. -/
theorem scoreBatch_of_ne_calibrated (hpolicy : e.policy ≠ .calibrated) {batch : ScoreBatch α}
    (h : e.scoreBatch cs width = some batch) :
    batch.strategy = e.policy.strategy ∧
      List.Forall₂ (fun c s => e.score c width = some s) cs batch.scores := by
  obtain ⟨hscores, hstrategy⟩ := scoreBatch_eq_some_iff.1 h
  rw [agreedPolicy_of_ne_calibrated hpolicy] at hscores hstrategy
  exact ⟨hstrategy, hscores⟩

/-- Permuted candidates get their scores by the same strategy. -/
theorem scoreBatch_permute {batch : ScoreBatch α} (h : e.scoreBatch cs width = some batch)
    (σ : Equiv.Perm (Fin cs.length)) :
    ∃ permuted, e.scoreBatch (List.ofFn fun i => cs.get (σ i)) width = some permuted ∧
      permuted.strategy = batch.strategy ∧
      ∀ i : Fin cs.length, permuted.scores[i.val]? = batch.scores[(σ i).val]? := by
  obtain ⟨hscores, hstrategy⟩ := scoreBatch_eq_some_iff.1 h
  have hlength := hscores.length_eq
  have hpolicy : e.agreedPolicy (List.ofFn fun i => cs.get (σ i)) width =
      e.agreedPolicy cs width := by
    refine agreedPolicy_congr fun c => ?_
    rw [List.mem_ofFn, List.mem_iff_get]
    exact (σ.surjective.exists (p := fun i => cs.get i = c)).symm
  refine ⟨⟨List.ofFn fun i => batch.scores.get ((σ i).cast hlength), batch.strategy⟩,
    scoreBatch_eq_some_iff.2 ⟨?_, hpolicy ▸ hstrategy⟩, rfl, fun i => ?_⟩
  · rw [hpolicy, List.forall₂_iff_get]
    refine ⟨by simp, fun i hi hi' => ?_⟩
    simpa using (List.forall₂_iff_get.1 hscores).2 (σ ⟨i, by simpa using hi⟩) (by simp)
      (by simp [← hlength])
  · simp

/-- When a batch has a result: calibration is wanted and can be had for all candidates that fit
their device, or the counting of the gates of each of these ends.  It ends for circuits none of
whose operations names a classical bit twice.  A batch is scored by one strategy, and its scores are
those that its candidates get one by one.  Only where calibration is wanted but cannot be had for
all of them they are those of an analytical engine. -/
theorem scoreBatch_agrees (e : ScoringEngine α) (cs : List (Candidate α)) (width : Nat) :
    ((∃ batch, e.scoreBatch cs width = some batch) ↔
      (e.policy = .calibrated ∧ ∀ c ∈ cs, width ≤ c.device.numQubits →
        ∃ t f, CalibrationStore.get e.calibrations c.device.name = .ok t ∧
          calibrationFidelity c.circuit t = .ok f) ∨
      ∀ c ∈ cs, width ≤ c.device.numQubits → e.Countable c) ∧
    (∀ c ∈ cs, c.circuit.Reachable → (∀ i ∈ c.circuit.instructions, i.clbits.Nodup) →
      e.Countable c) ∧
    ∀ batch, e.scoreBatch cs width = some batch →
      List.Forall₂
        (fun c s =>
          (s.isSentinel = true ↔ c.device.numQubits < width) ∧
          (s.isSentinel = true → s = .sentinel) ∧
          (s.isSentinel = false → s.strategy = batch.strategy)) cs batch.scores ∧
      (match e.policy with
        | .calibrated =>
          (batch.strategy = .calibrated ↔
            ∀ c ∈ cs, width ≤ c.device.numQubits →
              ∃ t f, CalibrationStore.get e.calibrations c.device.name = .ok t ∧
                calibrationFidelity c.circuit t = .ok f) ∧
          (batch.strategy = .calibrated ∧
              List.Forall₂ (fun c s => e.score c width = some s) cs batch.scores ∨
            batch.strategy = .analytical ∧
              List.Forall₂ (fun c s => { e with policy := .analytical }.score c width = some s) cs
                batch.scores)
        | .analytical | .averageFidelity =>
          batch.strategy = e.policy.strategy ∧
            List.Forall₂ (fun c s => e.score c width = some s) cs batch.scores) ∧
      ∀ σ : Equiv.Perm (Fin cs.length),
        ∃ permuted, e.scoreBatch (List.ofFn fun i => cs.get (σ i)) width = some permuted ∧
          permuted.strategy = batch.strategy ∧
          ∀ i : Fin cs.length, permuted.scores[i.val]? = batch.scores[(σ i).val]? := by
  refine ⟨?_, fun c _ => countable_of_nodup, fun batch h => ⟨forall₂_of_scoreBatch h, ?_,
    scoreBatch_permute h⟩⟩
  · rw [← allCalibrated_iff]
    exact exists_scoreBatch_iff
  · split
    case h_1 hpolicy => exact scoreBatch_of_calibrated hpolicy h
    case h_2 hpolicy => exact scoreBatch_of_ne_calibrated (fun h => by simp [hpolicy] at h) h
    case h_3 hpolicy => exact scoreBatch_of_ne_calibrated (fun h => by simp [hpolicy] at h) h

/-- A measurement of one qubit that names a classical bit twice. -/
def repeatCircuit : Circuit :=
  match Circuit.apply ⟨.measure, [0], [0, 0]⟩ (Circuit.withSize "repeat" 1 1) with
  | .ok _ c => c
  | .error _ c => c

/-- The measurement is accepted, and fits its device.  It is its own parent, so an engine that
counts along longest chains has no score for it and no batch. -/
theorem scoreBatch_repeatCircuit :
    let e : ScoringEngine Float := ⟨[], .analytical, .longestPath⟩
    let c : Candidate Float := ⟨repeatCircuit, .ofProvider .ibm "one" 1⟩
    Circuit.apply ⟨.measure, [0], [0, 0]⟩ (Circuit.withSize "repeat" 1 1) = .ok () repeatCircuit ∧
      1 ≤ c.device.numQubits ∧ ¬e.Countable c ∧ e.score c 1 = none ∧ e.scoreBatch [c] 1 = none := by
  intro e c
  have hcount : countNativeGates repeatCircuit c.device .longestPath = none := by decide +kernel
  have hendless : ¬e.Countable c := fun hcountable => by
    obtain ⟨count, hsome⟩ := exists_countNativeGates_iff (d := c.device).2 hcountable
    rw [hcount] at hsome
    cases hsome
  refine ⟨rfl, le_rfl, hendless, ?_, Option.eq_none_iff_forall_ne_some.2 fun batch hbatch => ?_⟩
  · have hanalytical : e.score c 1 = e.analytical c 1 := rfl
    rw [hanalytical, analytical, Option.map_eq_none_iff]
    exact hcount
  · rcases exists_scoreBatch_iff.1 ⟨batch, hbatch⟩ with ⟨hpolicy, -⟩ | hcountable
    · cases hpolicy
    · exact hendless (hcountable c (List.mem_singleton_self c) le_rfl)

end ScoringEngine

end PathSelection
