import PathSelection.Json.Variants

/-!
# Gates

The standard gates with their names, arities and angle counts, and gates in
general: a standard or a custom gate together with its angles.

Main results:

- Theorem `StandardGate.mem_all`: the list of standard gates is complete.
- Theorem `StandardGate.ofName?_name`: every standard gate is found by its name.
- Theorem `StandardGate.ofName?_eq_some_iff`: a name finds the gate that bears it.
-/

namespace PathSelection

/-- A gate with a known name, arity and number of angles. -/
inductive StandardGate where
  | i | u0 | u1 | u2 | u3 | u | p | x | y | z | h | s | sdg | t | tdg | rx | ry | rz | sx
  | sxdg | cx | cy | cz | ch | swap | crx | cry | crz | cu1 | cp | cu3 | csx | cu | rxx
  | rzz | ecr | ms | ccx | cswap | rccx | rc3x | c3x | c3sqrtx | c4x
  deriving DecidableEq, Repr

namespace StandardGate

/-- All standard gates: on one qubit, on two, on three and more. -/
def all : List StandardGate := [
  .i, .u0, .u1, .u2, .u3, .u, .p, .x, .y, .z, .h, .s, .sdg, .t, .tdg, .rx, .ry, .rz, .sx,
  .sxdg, .cx, .cy, .cz, .ch, .swap, .crx, .cry, .crz, .cu1, .cp, .cu3, .csx, .cu, .rxx,
  .rzz, .ecr, .ms, .ccx, .cswap, .rccx, .rc3x, .c3x, .c3sqrtx, .c4x]

/-- The list of standard gates is complete. -/
theorem mem_all (g : StandardGate) : g ∈ all := by cases g <;> decide

/-- The name of a gate in circuits. -/
def name : StandardGate → String
  | .i => "id"
  | .u0 => "u0"
  | .u1 => "u1"
  | .u2 => "u2"
  | .u3 => "u3"
  | .u => "u"
  | .p => "p"
  | .x => "x"
  | .y => "y"
  | .z => "z"
  | .h => "h"
  | .s => "s"
  | .sdg => "sdg"
  | .t => "t"
  | .tdg => "tdg"
  | .rx => "rx"
  | .ry => "ry"
  | .rz => "rz"
  | .sx => "sx"
  | .sxdg => "sxdg"
  | .cx => "cx"
  | .cy => "cy"
  | .cz => "cz"
  | .ch => "ch"
  | .swap => "swap"
  | .crx => "crx"
  | .cry => "cry"
  | .crz => "crz"
  | .cu1 => "cu1"
  | .cp => "cp"
  | .cu3 => "cu3"
  | .csx => "csx"
  | .cu => "cu"
  | .rxx => "rxx"
  | .rzz => "rzz"
  | .ecr => "ecr"
  | .ms => "ms"
  | .ccx => "ccx"
  | .cswap => "cswap"
  | .rccx => "rccx"
  | .rc3x => "rc3x"
  | .c3x => "c3x"
  | .c3sqrtx => "c3sqrtx"
  | .c4x => "c4x"

/-- The name of a gate as a variant of its own. -/
def variantName : StandardGate → String
  | .i => "I"
  | .u0 => "U0"
  | .u1 => "U1"
  | .u2 => "U2"
  | .u3 => "U3"
  | .u => "U"
  | .p => "P"
  | .x => "X"
  | .y => "Y"
  | .z => "Z"
  | .h => "H"
  | .s => "S"
  | .sdg => "Sdg"
  | .t => "T"
  | .tdg => "Tdg"
  | .rx => "Rx"
  | .ry => "Ry"
  | .rz => "Rz"
  | .sx => "SX"
  | .sxdg => "SXdg"
  | .cx => "CX"
  | .cy => "CY"
  | .cz => "CZ"
  | .ch => "CH"
  | .swap => "Swap"
  | .crx => "CRx"
  | .cry => "CRy"
  | .crz => "CRz"
  | .cu1 => "CU1"
  | .cp => "CP"
  | .cu3 => "CU3"
  | .csx => "CSX"
  | .cu => "CU"
  | .rxx => "RXX"
  | .rzz => "RZZ"
  | .ecr => "ECR"
  | .ms => "MS"
  | .ccx => "CCX"
  | .cswap => "CSwap"
  | .rccx => "RCCX"
  | .rc3x => "RC3X"
  | .c3x => "C3X"
  | .c3sqrtx => "C3SqrtX"
  | .c4x => "C4X"

/-- How many qubits a gate acts on. -/
def numQubits : StandardGate → Nat
  | .cx | .cy | .cz | .ch | .swap | .crx | .cry | .crz | .cu1 | .cp | .cu3 | .csx | .cu
  | .rxx | .rzz | .ecr | .ms => 2
  | .ccx | .cswap | .rccx => 3
  | .rc3x | .c3x | .c3sqrtx => 4
  | .c4x => 5
  | _ => 1

/-- How many angles a gate takes. -/
def numParams : StandardGate → Nat
  | .u0 | .u1 | .p | .rx | .ry | .rz | .crx | .cry | .crz | .cu1 | .cp | .rxx | .rzz | .ms => 1
  | .u2 => 2
  | .u3 | .u | .cu3 => 3
  | .cu => 4
  | _ => 0

/-- The standard gate of a name. -/
def ofName? (name : String) : Option StandardGate := all.find? (fun g => g.name == name)

/-- Every standard gate is found by its name. -/
theorem ofName?_name (g : StandardGate) : ofName? g.name = some g := by cases g <;> decide

/-- A name finds the gate that bears it. -/
theorem ofName?_eq_some_iff {s : String} {g : StandardGate} : ofName? s = some g ↔ g.name = s := by
  constructor
  · intro h
    simpa using List.find?_some h
  · rintro rfl
    exact ofName?_name g

end StandardGate

/-- What a gate is called and how many qubits it acts on. -/
inductive GateKind where
  | standard (gate : StandardGate)
  /-- a gate outside the standard ones, known by name and arity alone -/
  | custom (name : String) (numQubits : Nat)
  deriving DecidableEq, Repr

/-- A gate with its angles in radians. -/
structure Gate where
  kind : GateKind
  params : List Float

namespace Gate

/-- A gate outside the standard ones. -/
def custom (name : String) (numQubits : Nat) (params : List Float) : Gate :=
  ⟨.custom name numQubits, params⟩

/-- A standard gate all of whose angles are zero. -/
def zeroed (g : StandardGate) : Gate := ⟨.standard g, List.replicate g.numParams 0⟩

/-- The name of a gate. -/
def name (g : Gate) : String :=
  match g.kind with
  | .standard gate => gate.name
  | .custom name _ => name

/-- How many qubits a gate acts on. -/
def numQubits (g : Gate) : Nat :=
  match g.kind with
  | .standard gate => gate.numQubits
  | .custom _ n => n

/-- The standard gate that this is, if it is one. -/
def standard? (g : Gate) : Option StandardGate :=
  match g.kind with
  | .standard gate => some gate
  | .custom _ _ => none

end Gate

/-! ## Documents -/

namespace GateKind

/-- The document of a kind of gate. -/
def toJson : GateKind → Json
  | .standard g => .record [("Standard", .text g.variantName)]
  | .custom name n =>
    .record [("Custom", .record [("name", .text name), ("num_qubits", .nat n)])]

/-- Reads a standard gate by the name of its variant. -/
def standardDecoder : Json.Decoder StandardGate :=
  Json.nameOf (StandardGate.all.map fun g => (g.variantName, g))

/-- Reads a kind of gate. -/
def decoder : Json.Decoder GateKind :=
  Json.choice [
    ("Standard", .content fun v => (standardDecoder v).map .standard),
    ("Custom", .content (Json.recordOf "CustomGate"
      (GateKind.custom <$> .required "name" Json.Decoder.text
        <*> .required "num_qubits" Json.Decoder.u32)))]

end GateKind

namespace Gate

/-- The document of a gate. -/
def toJson (g : Gate) : Json :=
  .record [("kind", g.kind.toJson), ("params", .list .scalar g.params)]

/-- Reads a gate; its number of angles is not looked at. -/
def decoder : Json.Decoder Gate :=
  Json.recordOf "Gate"
    (Gate.mk <$> .required "kind" GateKind.decoder
      <*> .required "params" (Json.Decoder.listOf Json.Decoder.number))

end Gate

end PathSelection
