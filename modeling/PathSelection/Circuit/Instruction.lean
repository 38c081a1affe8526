import PathSelection.Circuit.Error

/-!
# Instructions

An instruction applies an operation to qubits and classical bits.  In documents
it is a flat record, and the name of its operation decides what it is: a name
that is no standard gate and none of the four reserved names is a custom gate.
-/

namespace PathSelection

/-- What an instruction does. -/
inductive Operation where
  | gate (g : Gate)
  | measure
  | reset
  | barrier
  /-- idle for a duration in the units of the device -/
  | delay (duration : Nat)

/-- An operation and the bits it acts on. -/
structure Instruction where
  operation : Operation
  qubits : List Nat
  clbits : List Nat

namespace Instruction

/-- A gate on qubits. -/
def ofGate (g : Gate) (qubits : List Nat) : Instruction := ⟨.gate g, qubits, []⟩

/-- A measurement of a qubit into a classical bit. -/
def measure (qubit clbit : Nat) : Instruction := ⟨.measure, [qubit], [clbit]⟩

/-- A barrier across qubits. -/
def barrier (qubits : List Nat) : Instruction := ⟨.barrier, qubits, []⟩

/-- The name of an instruction in tallies. -/
def name (i : Instruction) : String :=
  match i.operation with
  | .gate g => g.name
  | .measure => "measure"
  | .reset => "reset"
  | .barrier => "barrier"
  | .delay _ => "delay"

/-- The gate of an instruction, if it has one. -/
def gate? (i : Instruction) : Option Gate :=
  match i.operation with
  | .gate g => some g
  | _ => none

/-- Is this a gate? -/
def isGate (i : Instruction) : Bool := i.gate?.isSome

/-- Is this a measurement? -/
def isMeasure (i : Instruction) : Bool :=
  match i.operation with
  | .measure => true
  | _ => false

/-- Is this a barrier? -/
def isBarrier (i : Instruction) : Bool :=
  match i.operation with
  | .barrier => true
  | _ => false

/-- How many qubits are named. -/
def numQubits (i : Instruction) : Nat := i.qubits.length

end Instruction

/-! ## Records -/

/-- An instruction as documents write it. -/
structure InstructionRecord where
  op : String
  qubits : List Nat
  clbits : List Nat
  params : List Float
  duration : Option Nat

namespace InstructionRecord

/-- The operation that a record names. -/
def operation (r : InstructionRecord) : Except CircuitError Operation :=
  if r.op = "measure" then .ok .measure
  else if r.op = "reset" then .ok .reset
  else if r.op = "barrier" then .ok .barrier
  else if r.op = "delay" then .ok (.delay (r.duration.getD 0))
  else match StandardGate.ofName? r.op with
    | some g => (Gate.standard g r.params).map .gate
    | none => .ok (.gate (.custom r.op r.qubits.length r.params))

/-- The instruction that a record describes. -/
def toInstruction (r : InstructionRecord) : Except CircuitError Instruction :=
  r.operation.map fun operation => ⟨operation, r.qubits, r.clbits⟩

/-- The record of an instruction. -/
def ofInstruction (i : Instruction) : InstructionRecord where
  op := i.name
  qubits := i.qubits
  clbits := i.clbits
  params := match i.operation with
    | .gate g => g.params
    | _ => []
  duration := match i.operation with
    | .delay d => some d
    | _ => none

/-- A field that is written only if its list has items. -/
def nonEmptyField {α : Type} (name : String) (write : α → Json) (xs : List α) :
    List (String × Json) :=
  if xs.isEmpty then [] else [(name, .list write xs)]

/-- The document of a record; empty lists are left out, except that of the qubits. -/
def toJson (r : InstructionRecord) : Json :=
  .record ([("op", .text r.op), ("qubits", .list .nat r.qubits)]
    ++ nonEmptyField "clbits" .nat r.clbits
    ++ nonEmptyField "params" .scalar r.params
    ++ (match r.duration with
      | some d => [("duration", .nat d)]
      | none => []))

/-- The fields of a record. -/
def fields : Json.Fields InstructionRecord :=
  InstructionRecord.mk <$> .required "op" Json.Decoder.text
    <*> .defaulted "qubits" [] (Json.Decoder.listOf Json.Decoder.u32)
    <*> .defaulted "clbits" [] (Json.Decoder.listOf Json.Decoder.u32)
    <*> .defaulted "params" [] (Json.Decoder.listOf Json.Decoder.number)
    <*> .defaulted "duration" none (Json.Decoder.nullable Json.Decoder.u64)

end InstructionRecord

namespace Instruction

/-- The document of an instruction. -/
def toJson (i : Instruction) : Json := (InstructionRecord.ofInstruction i).toJson

/-- Reads an instruction. -/
def decoder : Json.Decoder Instruction :=
  Json.Decoder.refine (Json.recordOf "InstructionDocument" InstructionRecord.fields)
    fun r => r.toInstruction.mapError CircuitError.message

end Instruction

end PathSelection
