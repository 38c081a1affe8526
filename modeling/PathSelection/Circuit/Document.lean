import PathSelection.Circuit.Basic
import PathSelection.Json.Writer

/-!
# Circuit documents

A circuit is written as a record of its name, its sizes and its instructions.
Reading checks the angles of an instruction as soon as it is complete, and the
operands of all instructions after the whole document, in its order.
-/

namespace PathSelection

/-- A circuit as documents write it. -/
structure CircuitRecord where
  name : String
  numQubits : Nat
  numClbits : Nat
  instructions : List Instruction

namespace CircuitRecord

/-- The record of a circuit. -/
def ofCircuit (c : Circuit) : CircuitRecord := ⟨c.name, c.numQubits, c.numClbits, c.instructions⟩

/-- The circuit with the instructions of a record, applied in order. -/
def toCircuit (r : CircuitRecord) : Except CircuitError Circuit :=
  match (r.instructions.forM Circuit.apply).run
      (Circuit.withSize r.name r.numQubits r.numClbits) with
  | .ok _ c => .ok c
  | .error e _ => .error e

/-- The document of a record. -/
def toJson (r : CircuitRecord) : Json :=
  .record [("name", .text r.name), ("num_qubits", .nat r.numQubits),
    ("num_clbits", .nat r.numClbits), ("instructions", .list Instruction.toJson r.instructions)]

/-- The fields of a record. -/
def fields : Json.Fields CircuitRecord :=
  CircuitRecord.mk <$> .defaulted "name" "" Json.Decoder.text
    <*> .required "num_qubits" Json.Decoder.u32
    <*> .defaulted "num_clbits" 0 Json.Decoder.u32
    <*> .defaulted "instructions" [] (Json.Decoder.listOf Instruction.decoder)

end CircuitRecord

namespace Circuit

/-- Reads a circuit. -/
def decoder : Json.Decoder Circuit :=
  Json.Decoder.refine (Json.recordOf "CircuitDocument" CircuitRecord.fields)
    fun r => r.toCircuit.mapError CircuitError.message

/-- The circuit that a document text describes. -/
def ofText (s : String) : Except CircuitError Circuit :=
  (Json.parse decoder s).mapError .document

/-- The document of a circuit. -/
def toJson (c : Circuit) : Json := (CircuitRecord.ofCircuit c).toJson

/-- The document text of a circuit, indented. -/
def toText (c : Circuit) : String := c.toJson.indentedText

end Circuit

end PathSelection
