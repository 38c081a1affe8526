import PathSelection.Calibration.Store
import PathSelection.Scoring.GateCount

/-!
# Scores

The quality of a compiled circuit as one number, of which a lower one is
better, and the three strategies that compute it: from the share of the
coherence time that the gates take, from mean fidelities, and from the
calibration of the very gates and readouts that the circuit uses.
-/

namespace PathSelection

/-! ## Strategies -/

/-- Which strategy is wanted. -/
inductive ScoringPolicy where
  /-- calibration data where there is any -/
  | calibrated
  | analytical
  | averageFidelity
  deriving DecidableEq, Repr

namespace ScoringPolicy

/-- The name of a policy. -/
def name : ScoringPolicy → String
  | calibrated => "calibrated"
  | analytical => "analytical"
  | averageFidelity => "average-fidelity"

/-- The capitalised name of a policy. -/
def variantName : ScoringPolicy → String
  | calibrated => "Calibrated"
  | analytical => "Analytical"
  | averageFidelity => "AverageFidelity"

/-- All policies by name. -/
def names : List (String × ScoringPolicy) :=
  [calibrated, analytical, averageFidelity].map fun p => (p.name, p)

/-- The policy of a name or of one of two other spellings, in any case. -/
def ofName (s : String) : Except String ScoringPolicy :=
  let lower := Provider.asciiLower s
  match (names ++ [("calibration", calibrated), ("average_fidelity", averageFidelity)]).lookup
      lower with
  | some p => .ok p
  | none => .error s!"unknown scoring policy '{lower}'"

/-- The document of a policy. -/
def toJson (p : ScoringPolicy) : Json := .text p.name

/-- Reads a policy. -/
def decoder : Json.Decoder ScoringPolicy := Json.nameOf names

end ScoringPolicy

/-- Which strategy computed a score. -/
inductive ScoringStrategy where
  | calibrated
  | analytical
  | averageFidelity
  /-- none: the path cannot be used -/
  | sentinel
  deriving DecidableEq, Repr

namespace ScoringStrategy

/-- The name of a strategy. -/
def name : ScoringStrategy → String
  | calibrated => "calibrated"
  | analytical => "analytical"
  | averageFidelity => "average_fidelity"
  | sentinel => "sentinel"

/-- The document of a strategy. -/
def toJson (s : ScoringStrategy) : Json := .text s.name

/-- Reads a strategy. -/
def decoder : Json.Decoder ScoringStrategy :=
  Json.nameOf ([calibrated, analytical, averageFidelity, sentinel].map fun s => (s.name, s))

end ScoringStrategy

/-! ## Problems -/

/-- Why a score cannot be computed. -/
inductive ScoringError where
  | noCalibration (device : String)
  | missingEntry (entry : String)
  | device (cause : DeviceError)

namespace ScoringError

/-- The problem with a score that a problem with a device makes. -/
def ofDevice : DeviceError → ScoringError
  | .noCalibration name => noCalibration name
  | .missingEntry entry => missingEntry entry
  | e => device e

/-- Does the calibration data lack something that another strategy does without? -/
def isCalibrationGap : ScoringError → Bool
  | noCalibration _ | missingEntry _ => true
  | device _ => false

/-- The wording of a problem. -/
def message : ScoringError → String
  | noCalibration name => s!"No calibration data for backend '{name}'"
  | missingEntry entry => s!"Calibration entry missing: {entry}"
  | device cause => s!"Backend error: {cause.message}"

end ScoringError

/-! ## The three strategies -/

section

variable {α : Type} [Scalar α]

/-- The weight of gates on one qubit in the analytical score. -/
def oneQubitWeight : α := Scalar.ofNat 500

/-- The weight of gates on two qubits in the analytical score. -/
def twoQubitWeight : α := Scalar.ofNat 1000

/-- What a circuit wider than its device adds to the analytical score. -/
def widthPenalty : α := Scalar.ofNat 5000

/-- The score of a path that yields no usable circuit. -/
def sentinelPenalty : α := Scalar.ofNat 1000000

/-- The weight of gates on one qubit in the average-fidelity score. -/
def oneQubitFidelityWeight : α := Scalar.ofNat 1

/-- The weight of gates on two qubits in the average-fidelity score. -/
def twoQubitFidelityWeight : α := Scalar.ofNat 10

/-- The weighted share of the coherence time that the gates take. -/
def analyticalScore (count : GateCount) (d : Descriptor α) (width : Nat) : α :=
  let score :=
    Scalar.ofNat count.singleQubit / d.maxDepth1 * oneQubitWeight
      + Scalar.ofNat count.twoQubit / d.maxDepth2 * twoQubitWeight
  if d.numQubits < width then score + widthPenalty else score

/-- The largest exponent of a power of a fidelity. -/
def exponentLimit : Nat := wordValues 31 - 1

/-- The weighted probabilities that some gate on one qubit, and some on two, fails. -/
def averageFidelityScore (count : GateCount) (fidelity1 fidelity2 : α) : α :=
  (Scalar.one - Scalar.pow fidelity1 (min count.singleQubit exponentLimit)) * oneQubitFidelityWeight
    + (Scalar.one - Scalar.pow fidelity2 (min count.twoQubit exponentLimit))
      * twoQubitFidelityWeight

/-- The fidelities that an instruction contributes: that of its gate, or those of its readouts. -/
def instructionFidelities (t : CalibrationTable α) (i : Instruction) :
    Except DeviceError (List α) :=
  match i.operation with
  | .gate g => (t.gateFidelity g.name i.qubits).map fun f => [f]
  | .measure => i.qubits.mapM t.readoutFidelity
  | .barrier | .delay _ | .reset => .ok []

/-- The product of the fidelities of all gates and readouts of a circuit. -/
def calibrationFidelity (c : Circuit) (t : CalibrationTable α) : Except ScoringError α :=
  match c.instructions.mapM (instructionFidelities t) with
  | .ok fidelities => .ok (fidelities.flatten.foldl (· * ·) Scalar.one)
  | .error e => .error (.ofDevice e)

end

/-! ## Scores with their strategy -/

/-- A score and the strategy that computed it. -/
structure Score (α : Type) where
  value : α
  strategy : ScoringStrategy

namespace Score

/-- The score of a path that cannot be used. -/
def sentinel {α : Type} [Scalar α] : Score α := ⟨sentinelPenalty, .sentinel⟩

/-- Does the score belong to a path that cannot be used? -/
def isSentinel {α : Type} (s : Score α) : Bool := s.strategy == .sentinel

end Score

end PathSelection
