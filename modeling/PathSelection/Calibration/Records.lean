import PathSelection.Calibration.Ibm
import PathSelection.Json.Fields

/-!
# Records of fidelities

Three exports that are documents: fidelities by qubit and by pair of qubits, in
two forms, and means over a whole device.  A pair is named by its two qubits
with a hyphen between them, in either order.
-/

namespace PathSelection

/-- Values by name, in ascending order of the names; of two values the later one counts. -/
def sortedTable {α : Type} (entries : List (String × α)) : Dict String α :=
  (Dict.ofEntries entries).sorted fun a b => decide (a ≤ b)

/-- Reads values by name. -/
def Json.Decoder.sortedTableOf {α : Type} (item : Json.Decoder α) : Json.Decoder (Dict String α) :=
  fun v => (Json.Decoder.tableOf item v).map sortedTable

/-- The record of a pair of qubits, in either order. -/
def pairRecord? {ν : Type} (d : Dict String ν) (a b : Nat) : Option ν :=
  (d.get? (natText a ++ "-" ++ natText b)).or (d.get? (natText b ++ "-" ++ natText a))

/-- What is wrong with a fidelity, if anything is: it must lie in `(0, 1]`. -/
def fidelityFault? {α : Type} [Scalar α] (what : String) (x : α) : Option String :=
  if Scalar.lt Scalar.zero x && Scalar.le x Scalar.one then none
  else some s!"{what} is {Scalar.text x}, outside (0, 1]"

/-- The value that is there, or the entry that is missing. -/
def entryOr {α : Type} (entry : String) : Option α → Except DeviceError α
  | some a => .ok a
  | none => .error (.missingEntry entry)

/-! ## Fidelities that may be absent -/

/-- The fidelities of gates on a qubit and of its readout. -/
structure RigettiQubit (α : Type) where
  gate : Option α
  readout : Option α

/-- The fidelity of the gate on a pair. -/
structure RigettiPair (α : Type) where
  gate : Option α

/-- Records of qubits and of pairs. -/
structure RigettiTable (α : Type) where
  qubits : Dict String (RigettiQubit α)
  pairs : Dict String (RigettiPair α)

namespace RigettiTable

variable {α : Type} [Scalar α]

/-- Reads the records. -/
def decoder : Json.Decoder (RigettiTable α) :=
  let qubit : Json.Decoder (RigettiQubit α) :=
    Json.recordOf "RigettiQubitSpec"
      (RigettiQubit.mk <$> .optional "f1QRB" Json.Decoder.number
        <*> .optional "fRO" Json.Decoder.number)
  let pair : Json.Decoder (RigettiPair α) :=
    Json.recordOf "RigettiEdgeSpec" (RigettiPair.mk <$> .optional "fCZ" Json.Decoder.number)
  let specs : Json.Decoder (RigettiTable α) :=
    Json.recordOf "RigettiSpecs"
      (RigettiTable.mk <$> .defaulted "1Q" [] (Json.Decoder.sortedTableOf qubit)
        <*> .defaulted "2Q" [] (Json.Decoder.sortedTableOf pair))
  Json.recordOf "RigettiCalibration" (.required "specs" specs)

/-- The fidelity of a gate on qubits. -/
def gateFidelity (t : RigettiTable α) (gate : String) (qubits : List Nat) :
    Except DeviceError α :=
  match qubits with
  | [q] => entryOr s!"f1QRB of qubit {q}" ((t.qubits.get? (natText q)).bind (·.gate))
  | [a, b] =>
    entryOr s!"fCZ of edge {IbmTable.qubitList qubits}" ((pairRecord? t.pairs a b).bind (·.gate))
  | _ => .error (.missingEntry s!"{gate} on {IbmTable.qubitList qubits}")

/-- The fidelity of the readout of a qubit. -/
def readoutFidelity (t : RigettiTable α) (qubit : Nat) : Except DeviceError α :=
  entryOr s!"fRO of qubit {qubit}" ((t.qubits.get? (natText qubit)).bind (·.readout))

/-- The fidelities of all gates on one qubit and of all on two. -/
def fidelities (t : RigettiTable α) : List α × List α :=
  (t.qubits.values.filterMap (·.gate), t.pairs.values.filterMap (·.gate))

/-- The first value that is out of range. -/
def fault? (t : RigettiTable α) : Option String :=
  (t.qubits.findSome? fun (q, r) =>
    (r.gate.bind (fidelityFault? s!"f1QRB of qubit {q}")).or
      (r.readout.bind (fidelityFault? s!"fRO of qubit {q}"))).or
    (t.pairs.findSome? fun (e, r) => r.gate.bind (fidelityFault? s!"fCZ of edge {e}"))

end RigettiTable

/-! ## Lists of fidelities -/

/-- Lists of fidelities of qubits, for gates and for readout, and of pairs. -/
structure OqcTable (α : Type) where
  qubits : Dict String (List α)
  pairs : Dict String (List α)

namespace OqcTable

variable {α : Type} [Scalar α]

/-- Reads the lists. -/
def decoder : Json.Decoder (OqcTable α) :=
  let fidelity : Json.Decoder α :=
    Json.recordOf "OqcFidelity" (.required "fidelity" Json.Decoder.number)
  let qubit : Json.Decoder (List α) :=
    Json.recordOf "OqcQubitProperties"
      (.required "oneQubitFidelity" (Json.Decoder.listOf fidelity))
  let pair : Json.Decoder (List α) :=
    Json.recordOf "OqcEdgeProperties"
      (.required "twoQubitGateFidelity" (Json.Decoder.listOf fidelity))
  Json.recordOf "OqcCalibration"
    (OqcTable.mk <$> .defaulted "oneQubitProperties" [] (Json.Decoder.sortedTableOf qubit)
      <*> .defaulted "twoQubitProperties" [] (Json.Decoder.sortedTableOf pair))

/-- A fidelity of a qubit: of gates in the first place, of readout in the second. -/
def qubitFidelity (t : OqcTable α) (qubit place : Nat) : Except DeviceError α :=
  entryOr s!"one-qubit fidelity #{place} of qubit {qubit}"
    ((t.qubits.get? (natText qubit)).bind (·[place]?))

/-- The fidelity of a gate on qubits. -/
def gateFidelity (t : OqcTable α) (gate : String) (qubits : List Nat) : Except DeviceError α :=
  match qubits with
  | [q] => t.qubitFidelity q 0
  | [a, b] =>
    entryOr s!"two-qubit fidelity of edge {IbmTable.qubitList qubits}"
      ((pairRecord? t.pairs a b).bind (·.head?))
  | _ => .error (.missingEntry s!"{gate} on {IbmTable.qubitList qubits}")

/-- The fidelity of the readout of a qubit. -/
def readoutFidelity (t : OqcTable α) (qubit : Nat) : Except DeviceError α := t.qubitFidelity qubit 1

/-- The fidelities of all gates on one qubit and of all on two. -/
def fidelities (t : OqcTable α) : List α × List α :=
  (t.qubits.values.filterMap (·.head?), t.pairs.values.filterMap (·.head?))

/-- The first value that is out of range. -/
def fault? (t : OqcTable α) : Option String :=
  (t.qubits.findSome? fun (q, fs) =>
    fs.findSome? (fidelityFault? s!"one-qubit fidelity of qubit {q}")).or
    (t.pairs.findSome? fun (e, fs) =>
      fs.findSome? (fidelityFault? s!"two-qubit fidelity of edge {e}"))

end OqcTable

/-! ## Means -/

/-- The mean fidelities of a device: of gates on one qubit, on two, and of preparation
and readout. -/
structure IonqTable (α : Type) where
  one : α
  two : α
  spam : Option α

namespace IonqTable

variable {α : Type} [Scalar α]

/-- Reads the means. -/
def decoder : Json.Decoder (IonqTable α) :=
  let mean : Json.Decoder α := Json.recordOf "IonqMean" (.required "mean" Json.Decoder.number)
  let fidelity : Json.Decoder (IonqTable α) :=
    Json.recordOf "IonqFidelity"
      (IonqTable.mk <$> .required "1Q" mean <*> .required "2Q" mean <*> .optional "spam" mean)
  Json.recordOf "IonqCalibration" (.required "fidelity" fidelity)

/-- The fidelity of a gate on qubits. -/
def gateFidelity (t : IonqTable α) (gate : String) (qubits : List Nat) : Except DeviceError α :=
  match qubits with
  | [_] => .ok t.one
  | [_, _] => .ok t.two
  | _ => .error (.missingEntry s!"{gate} on {IbmTable.qubitList qubits}")

/-- The fidelity of a readout; without one of its own it is that of a gate on one qubit. -/
def readoutFidelity (t : IonqTable α) : α := t.spam.getD t.one

/-- The fidelities of gates on one qubit and of gates on two. -/
def fidelities (t : IonqTable α) : List α × List α := ([t.one], [t.two])

/-- The first value that is out of range. -/
def fault? (t : IonqTable α) : Option String :=
  ((fidelityFault? "1Q mean" t.one).or (fidelityFault? "2Q mean" t.two)).or
    (t.spam.bind (fidelityFault? "SPAM mean"))

end IonqTable

end PathSelection
