import PathSelection.Scoring.Score

/-!
# Scoring engines

An engine scores compiled circuits against their devices.  A batch of candidates
is scored by one strategy, so that its scores can be compared: one candidate
without usable calibration data makes the whole batch analytical.  There is no score
where the counting of gates never ends.
-/

namespace PathSelection

/-- Calibration tables and the wanted way of scoring. -/
structure ScoringEngine (α : Type) where
  calibrations : CalibrationStore α
  policy : ScoringPolicy
  countMode : CountMode

/-- A compiled circuit and the device that it is compiled for. -/
structure Candidate (α : Type) where
  circuit : Circuit
  device : Descriptor α

/-- The scores of candidates in their order and the strategy behind those that are no sentinel. -/
structure ScoreBatch (α : Type) where
  scores : List (Score α)
  strategy : ScoringStrategy

namespace ScoringEngine

variable {α : Type} [Scalar α]

/-- The analytical score of a candidate, if the counting of its gates ends. -/
def analytical (e : ScoringEngine α) (c : Candidate α) (width : Nat) : Option (Score α) :=
  (countNativeGates c.circuit c.device e.countMode).map fun count =>
    ⟨analyticalScore count c.device width, .analytical⟩

/-- The mean fidelities of a device: those of its table, if it has them, or its own. -/
def meanFidelities (e : ScoringEngine α) (d : Descriptor α) : α × α :=
  match CalibrationStore.get e.calibrations d.name with
  | .ok t => t.averageFidelities.getD (d.fidelity1, d.fidelity2)
  | .error _ => (d.fidelity1, d.fidelity2)

/-- The average-fidelity score of a candidate, if the counting of its gates ends. -/
def averageFidelity (e : ScoringEngine α) (c : Candidate α) : Option (Score α) :=
  let (f1, f2) := e.meanFidelities c.device
  (countNativeGates c.circuit c.device e.countMode).map fun count =>
    ⟨averageFidelityScore count f1 f2, .averageFidelity⟩

/-- The calibrated score of a candidate: the probability that something in it fails. -/
def calibrated (e : ScoringEngine α) (c : Candidate α) : Except ScoringError (Score α) :=
  match CalibrationStore.get e.calibrations c.device.name with
  | .error cause => .error (.ofDevice cause)
  | .ok t => (calibrationFidelity c.circuit t).map fun f => ⟨Scalar.one - f, .calibrated⟩

/-- Is the source circuit wider than the device of a candidate? -/
def tooWide (c : Candidate α) (width : Nat) : Bool := decide (c.device.numQubits < width)

/-- The score of a candidate, compiled from a circuit of some width, if it can be computed. -/
def score (e : ScoringEngine α) (c : Candidate α) (width : Nat) : Option (Score α) :=
  if tooWide c width then some .sentinel
  else match e.policy with
    | .calibrated =>
      match e.calibrated c with
      | .ok s => some s
      | .error _ => e.analytical c width
    | .analytical => e.analytical c width
    | .averageFidelity => e.averageFidelity c

/-- The score of a candidate that fits its device, or the sentinel. -/
def scoreFitting (score : Candidate α → Option (Score α)) (width : Nat) (c : Candidate α) :
    Option (Score α) :=
  if tooWide c width then some .sentinel else score c

/-- The calibrated scores of candidates, if all that fit their device have one. -/
def calibratedBatch (e : ScoringEngine α) (cs : List (Candidate α)) (width : Nat) :
    Except ScoringError (List (Score α)) :=
  cs.mapM fun c => if tooWide c width then .ok .sentinel else e.calibrated c

/-- The analytical scores of candidates, if all can be computed. -/
def analyticalBatch (e : ScoringEngine α) (cs : List (Candidate α)) (width : Nat) :
    Option (ScoreBatch α) :=
  (cs.mapM (scoreFitting (e.analytical · width) width)).map (⟨·, .analytical⟩)

/-- The scores of the candidates for one source circuit of some width, all by one strategy, if all
can be computed. -/
def scoreBatch (e : ScoringEngine α) (cs : List (Candidate α)) (width : Nat) :
    Option (ScoreBatch α) :=
  match e.policy with
  | .calibrated =>
    match e.calibratedBatch cs width with
    | .ok scores => some ⟨scores, .calibrated⟩
    | .error _ => e.analyticalBatch cs width
  | .analytical => e.analyticalBatch cs width
  | .averageFidelity =>
    (cs.mapM (scoreFitting e.averageFidelity width)).map (⟨·, .averageFidelity⟩)

end ScoringEngine

end PathSelection
