import PathSelection.Calibration.Records
import PathSelection.Device.Provider

/-!
# Calibration tables

The parsed form of a calibration export.  It says how likely a gate on certain
qubits succeeds and how likely the readout of a qubit is right.  A missing entry
is an error and never a default.
-/

namespace PathSelection

/-- A calibration export of one of four formats. -/
inductive CalibrationTable (α : Type) where
  | ibm (t : IbmTable α)
  | rigetti (t : RigettiTable α)
  | oqc (t : OqcTable α)
  | ionq (t : IonqTable α)

namespace CalibrationTable

variable {α : Type} [Scalar α]

/-- A document of a format. -/
def document {β : Type} (decoder : Json.Decoder β) (text : String) : Except CalibrationFault β :=
  (Json.parse decoder text).mapError .document

/-- The table that a text describes, whatever its values. -/
def ofText (schema : CalibrationSchema) (text : String) :
    Except CalibrationFault (CalibrationTable α) :=
  match schema with
  | .ibmCsv => (IbmTable.ofText text).map .ibm
  | .rigettiSpecs => (document RigettiTable.decoder text).map .rigetti
  | .oqcProperties => (document OqcTable.decoder text).map .oqc
  | .ionqMean => (document IonqTable.decoder text).map .ionq

/-- The first value that is out of range. -/
def fault? : CalibrationTable α → Option String
  | ibm t => t.fault?
  | rigetti t => t.fault?
  | oqc t => t.fault?
  | ionq t => t.fault?

/-- The table that a text describes, all of whose values must be in range. -/
def parse (schema : CalibrationSchema) (source text : String) :
    Except DeviceError (CalibrationTable α) :=
  match ofText schema text with
  | .error fault => .error (.calibration source fault)
  | .ok t =>
    match t.fault? with
    | some message => .error (.calibration source (.rule message))
    | none => .ok t

/-- How likely a gate on qubits succeeds. -/
def gateFidelity (t : CalibrationTable α) (gate : String) (qubits : List Nat) :
    Except DeviceError α :=
  match t with
  | ibm t => t.gateFidelity gate qubits
  | rigetti t => t.gateFidelity gate qubits
  | oqc t => t.gateFidelity gate qubits
  | ionq t => t.gateFidelity gate qubits

/-- How likely the readout of a qubit is right. -/
def readoutFidelity (t : CalibrationTable α) (qubit : Nat) : Except DeviceError α :=
  match t with
  | ibm t => t.readoutFidelity qubit
  | rigetti t => t.readoutFidelity qubit
  | oqc t => t.readoutFidelity qubit
  | ionq t => .ok t.readoutFidelity

/-- The fidelities of all gates on one qubit and of all on two. -/
def fidelities : CalibrationTable α → List α × List α
  | ibm t => t.fidelities
  | rigetti t => t.fidelities
  | oqc t => t.fidelities
  | ionq t => t.fidelities

/-- The mean of a list of numbers that is not empty. -/
def mean? (xs : List α) : Option α :=
  if xs.isEmpty then none else some (Scalar.sum xs / Scalar.ofNat xs.length)

/-- The mean fidelities of gates on one qubit and on two, if there are entries of both kinds. -/
def averageFidelities (t : CalibrationTable α) : Option (α × α) := do
  let one ← mean? t.fidelities.1
  let two ← mean? t.fidelities.2
  return (one, two)

end CalibrationTable

end PathSelection
