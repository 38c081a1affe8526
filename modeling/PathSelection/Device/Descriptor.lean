import PathSelection.Device.Error
import PathSelection.Device.Provider
import PathSelection.Device.Topology

/-!
# Device descriptors

The mean physical properties of a device.  Times are in microseconds and
fidelities are probabilities.
-/

namespace PathSelection

/-- A device and its mean properties. -/
structure Descriptor (α : Type) where
  provider : Provider
  name : String
  numQubits : Nat
  /-- mean relaxation time -/
  t1 : α
  /-- mean dephasing time -/
  t2 : α
  /-- mean duration of a gate on one qubit -/
  gateTime1 : α
  /-- mean duration of a gate on two qubits -/
  gateTime2 : α
  /-- mean fidelity of a gate on one qubit -/
  fidelity1 : α
  /-- mean fidelity of a gate on two qubits -/
  fidelity2 : α
  nativeGates : List String
  topology : Topology
  /-- the calibration export, relative to the directory of exports -/
  calibrationFile : Option String

namespace Descriptor

variable {α : Type} [Scalar α]

/-- A device with the native gates of its provider, all of whose properties are one. -/
def ofProvider (provider : Provider) (name : String) (numQubits : Nat) : Descriptor α where
  provider
  name
  numQubits
  t1 := Scalar.one
  t2 := Scalar.one
  gateTime1 := Scalar.one
  gateTime2 := Scalar.one
  fidelity1 := Scalar.one
  fidelity2 := Scalar.one
  nativeGates := provider.nativeGates
  topology := .full numQubits
  calibrationFile := none

/-- The shorter one of the two coherence times. -/
def minCoherence (d : Descriptor α) : α := Scalar.min d.t1 d.t2

/-- How many gates on one qubit fit into the coherence time. -/
def maxDepth1 (d : Descriptor α) : α := d.minCoherence / d.gateTime1

/-- How many gates on two qubits fit into the coherence time. -/
def maxDepth2 (d : Descriptor α) : α := d.minCoherence / d.gateTime2

/-! ## Validity -/

/-- A time must be finite and positive. -/
def isTime (x : α) : Bool := Scalar.isFinite x && Scalar.lt Scalar.zero x

/-- A fidelity must be positive and at most one. -/
def isFidelity (x : α) : Bool := Scalar.lt Scalar.zero x && Scalar.le x Scalar.one

/-- The times of a device by name. -/
def times (d : Descriptor α) : List (String × α) :=
  [("t1_avg", d.t1), ("t2_avg", d.t2), ("avg_gate_time_1q", d.gateTime1),
    ("avg_gate_time_2q", d.gateTime2)]

/-- The fidelities of a device by name. -/
def fidelities (d : Descriptor α) : List (String × α) :=
  [("fidelity_1q", d.fidelity1), ("fidelity_2q", d.fidelity2)]

/-- What is wrong with a device, if anything is. -/
def fault? (d : Descriptor α) : Option String :=
  if d.numQubits = 0 then some "num_qubits must be positive"
  else match d.times.find? (fun (_, x) => !isTime x) with
    | some (field, x) => some s!"{field} must be positive, got {Scalar.text x}"
    | none =>
      match d.fidelities.find? (fun (_, x) => !isFidelity x) with
      | some (field, x) => some s!"{field} must be in (0, 1], got {Scalar.text x}"
      | none => none

/-- A device must have qubits, positive times and fidelities in `(0, 1]`. -/
def validate (d : Descriptor α) : Except DeviceError Unit :=
  match d.fault? with
  | some reason => .error (.invalidDescriptor d.name reason)
  | none => .ok ()

/-! ## Documents -/

/-- The document of a device. -/
def toJson (d : Descriptor α) : Json :=
  .record [("provider", d.provider.toJson), ("name", .text d.name),
    ("num_qubits", .nat d.numQubits), ("t1_avg", .scalar d.t1), ("t2_avg", .scalar d.t2),
    ("avg_gate_time_1q", .scalar d.gateTime1), ("avg_gate_time_2q", .scalar d.gateTime2),
    ("fidelity_1q", .scalar d.fidelity1), ("fidelity_2q", .scalar d.fidelity2),
    ("native_gate_set", .list .text d.nativeGates), ("topology", d.topology.toJson),
    ("calibration_file", .option .text d.calibrationFile)]

/-- Reads a device. -/
def decoder : Json.Decoder (Descriptor α) :=
  Json.recordOf "BackendDescriptor"
    (Descriptor.mk <$> .required "provider" Provider.decoder
      <*> .required "name" Json.Decoder.text
      <*> .required "num_qubits" Json.Decoder.u32
      <*> .required "t1_avg" Json.Decoder.number
      <*> .required "t2_avg" Json.Decoder.number
      <*> .required "avg_gate_time_1q" Json.Decoder.number
      <*> .required "avg_gate_time_2q" Json.Decoder.number
      <*> .required "fidelity_1q" Json.Decoder.number
      <*> .required "fidelity_2q" Json.Decoder.number
      <*> .required "native_gate_set" (Json.Decoder.listOf Json.Decoder.text)
      <*> .required "topology" (Topology.decoder 1)
      <*> .optional "calibration_file" Json.Decoder.text)

end Descriptor

end PathSelection
