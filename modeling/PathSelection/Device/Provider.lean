import PathSelection.Json.Variants

/-!
# Providers

A provider makes devices with a native set of gates and exports their
calibration data in a format of its own.

Main result:

- Theorem `Provider.singleQubitGates_disjoint`: no native gate counts both as a
  gate on one qubit and as one on two.
-/

namespace PathSelection

/-- A maker of devices. -/
inductive Provider where
  | ibm
  | rigetti
  | ionq
  | oqc
  deriving DecidableEq, Repr

/-- The format of a calibration export. -/
inductive CalibrationSchema where
  /-- a table of qubits with error rates, comma-separated -/
  | ibmCsv
  /-- records of fidelities by qubit and by pair -/
  | rigettiSpecs
  /-- lists of fidelities by qubit and by pair -/
  | oqcProperties
  /-- means over the whole device -/
  | ionqMean
  deriving DecidableEq, Repr

/-- How a native gate is counted. -/
inductive GateClass where
  | singleQubit
  | twoQubit
  deriving DecidableEq, Repr

namespace Provider

/-- All providers. -/
def all : List Provider := [ibm, rigetti, ionq, oqc]

/-- The name of a provider. -/
def name : Provider → String
  | ibm => "ibm"
  | rigetti => "rigetti"
  | ionq => "ionq"
  | oqc => "oqc"

/-- The native gates on one qubit. -/
def singleQubitGates : Provider → List String
  | ibm => ["id", "rz", "sx", "x"]
  | rigetti => ["rx", "rz"]
  | ionq => ["rx", "ry", "rz"]
  | oqc => ["rz", "sx", "x"]

/-- The native gates on two qubits. -/
def twoQubitGates : Provider → List String
  | ibm => ["cx"]
  | rigetti => ["cz"]
  | ionq => ["rxx", "ms"]
  | oqc => ["ecr"]

/-- All native gates, those on one qubit first. -/
def nativeGates (p : Provider) : List String := p.singleQubitGates ++ p.twoQubitGates

/-- The format of the calibration exports. -/
def schema : Provider → CalibrationSchema
  | ibm => .ibmCsv
  | rigetti => .rigettiSpecs
  | ionq => .ionqMean
  | oqc => .oqcProperties

/-- How a gate is counted; one that is not native is not. -/
def classify (p : Provider) (gate : String) : Option GateClass :=
  if p.singleQubitGates.contains gate then some .singleQubit
  else if p.twoQubitGates.contains gate then some .twoQubit
  else none

/-- No native gate counts both as a gate on one qubit and as one on two. -/
theorem singleQubitGates_disjoint (p : Provider) :
    ∀ g ∈ p.singleQubitGates, g ∉ p.twoQubitGates := by
  cases p <;> decide

/-- A text with the ASCII letters in lower case. -/
def asciiLower (s : String) : String := String.ofList (s.toList.map Char.toLower)

/-- The provider of a name in any case; otherwise the name is said to be unknown. -/
def ofName (s : String) : Except String Provider :=
  let lower := asciiLower s
  match all.find? (fun p => p.name == lower) with
  | some p => .ok p
  | none => .error s!"unknown provider '{lower}'"

/-- The document of a provider. -/
def toJson (p : Provider) : Json := .text p.name

/-- Reads a provider. -/
def decoder : Json.Decoder Provider := Json.nameOf (all.map fun p => (p.name, p))

end Provider

end PathSelection
