import PathSelection.Circuit.Instruction
import PathSelection.Circuit.Tally

/-!
# Dependency graphs of circuits

Every wire of a circuit runs from an input node to an output node.  An
operation becomes a node that is put just before the output on each of its
wires, so the nodes of operations stand in the order in which the operations
were applied.

Editing a graph is a state machine: `Dag.apply` answers with the new node or a
problem and leaves a graph behind in either case.
-/

namespace PathSelection

/-- A wire of a circuit. -/
inductive Wire where
  | qubit (id : Nat)
  | clbit (id : Nat)
  deriving DecidableEq, Repr

/-- The wires of an instruction, qubits first. -/
def Instruction.wires (i : Instruction) : List Wire :=
  i.qubits.map .qubit ++ i.clbits.map .clbit

namespace Dag

/-- A node of a dependency graph. -/
inductive Node where
  | input (wire : Wire)
  | output (wire : Wire)
  | op (instruction : Instruction)

/-- The instruction of a node, if it is an operation. -/
def Node.instruction? : Node → Option Instruction
  | .op i => some i
  | _ => none

/-- A piece of a wire between two nodes. -/
structure Edge where
  source : Nat
  target : Nat
  wire : Wire
  deriving DecidableEq, Repr

/-- A wire, the index of its output node and that of the node just before it. -/
structure Strand where
  wire : Wire
  output : Nat
  front : Nat
  deriving DecidableEq, Repr

end Dag

/-- A dependency graph. -/
structure Dag where
  nodes : Array Dag.Node
  edges : List Dag.Edge
  strands : List Dag.Strand
  numOps : Nat

namespace Dag

/-- The graph without wires. -/
def empty : Dag := ⟨#[], [], [], 0⟩

/-- The strand of a wire. -/
def strand? (d : Dag) (w : Wire) : Option Strand := d.strands.find? (fun s => s.wire == w)

/-- Does the graph have this wire? -/
def hasWire (d : Dag) (w : Wire) : Bool := (d.strand? w).isSome

/-- The node just before the output of a wire. -/
def front? (d : Dag) (w : Wire) : Option Nat := (d.strand? w).map (·.front)

/-- The output node of a wire. -/
def output? (d : Dag) (w : Wire) : Option Nat := (d.strand? w).map (·.output)

/-! ## Wires -/

/-- The graph with one more wire; a wire that is there stays as it is. -/
def addWire (d : Dag) (w : Wire) : Dag :=
  if d.hasWire w then d
  else
    let source := d.nodes.size
    { d with
      nodes := (d.nodes.push (.input w)).push (.output w)
      edges := ⟨source, source + 1, w⟩ :: d.edges
      strands := ⟨w, source + 1, source⟩ :: d.strands }

/-- The graph with one more qubit. -/
def addQubit (d : Dag) (id : Nat) : Dag := d.addWire (.qubit id)

/-- The graph with one more classical bit. -/
def addClbit (d : Dag) (id : Nat) : Dag := d.addWire (.clbit id)

/-- The graph of some qubits and classical bits without operations. -/
def withSize (numQubits numClbits : Nat) : Dag :=
  (List.range numClbits).foldl addClbit ((List.range numQubits).foldl addQubit empty)

/-- How many qubits the graph has. -/
def numQubits (d : Dag) : Nat :=
  d.strands.countP fun s =>
    match s.wire with
    | .qubit _ => true
    | .clbit _ => false

/-! ## Operations -/

/-- A change of a graph that may meet a problem; the graph stays as the problem left it. -/
abbrev Edit := EStateM CircuitError Dag

/-- The number of qubits must be that of the gate. -/
def checkArity (i : Instruction) : Except CircuitError Unit :=
  match i.gate? with
  | some g =>
    if g.numQubits = i.qubits.length then .ok ()
    else .error (.qubitCountMismatch g.name g.numQubits i.qubits.length)
  | none => .ok ()

/-- Each qubit must be in the graph, and none before it may be the same. -/
def checkQubits (d : Dag) (gate : Option String) : (seen qubits : List Nat) →
    Except CircuitError Unit
  | _, [] => .ok ()
  | seen, q :: qubits =>
    if !d.hasWire (.qubit q) then .error (.qubitNotFound q gate)
    else if seen.contains q then .error (.duplicateQubit q gate)
    else checkQubits d gate (q :: seen) qubits

/-- Each classical bit must be in the graph. -/
def checkClbits (d : Dag) (gate : Option String) : List Nat → Except CircuitError Unit
  | [] => .ok ()
  | c :: clbits =>
    if !d.hasWire (.clbit c) then .error (.clbitNotFound c gate)
    else checkClbits d gate clbits

/-- The rules that the operands of an instruction must keep, in the order of the checks. -/
def check (d : Dag) (i : Instruction) : Except CircuitError Unit := do
  let gate := i.gate?.map Gate.name
  checkArity i
  d.checkQubits gate [] i.qubits
  d.checkClbits gate i.clbits

/-- The graph with a node put just before the output of a wire, which ran from the front to it. -/
def reroute (d : Dag) (s : Strand) (node : Nat) : Dag :=
  { d with
    edges := ⟨node, s.output, s.wire⟩ :: ⟨s.front, node, s.wire⟩
      :: d.edges.erase ⟨s.front, s.output, s.wire⟩
    strands := d.strands.map fun t => if t.wire = s.wire then { t with front := node } else t }

/-- Puts a node just before the output of a wire. -/
def splice (node : Nat) (w : Wire) : Edit Unit := do
  let d ← get
  match d.strand? w with
  | some s =>
    if ⟨s.front, s.output, s.wire⟩ ∈ d.edges then set (d.reroute s node)
    else throw (.invalidGraph "Missing edge from predecessor to output for a wire")
  | none => throw (.invalidGraph "Missing wire")

/-- Applies an instruction behind everything on its wires and answers with its node. -/
def apply (i : Instruction) : Edit Nat := do
  let d ← get
  match d.check i with
  | .error e => throw e
  | .ok () =>
    let node := d.nodes.size
    set { d with nodes := d.nodes.push (.op i) }
    i.wires.forM (splice node)
    modify fun d => { d with numOps := d.numOps + 1 }
    return node

/-! ## Looking at operations -/

/-- The operations with their nodes, in the order in which they were applied. -/
def ops (d : Dag) : List (Nat × Instruction) :=
  d.nodes.toList.zipIdx.filterMap fun (node, index) => node.instruction?.map (index, ·)

/-- The instruction of a node. -/
def instruction? (d : Dag) (node : Nat) : Option Instruction :=
  d.nodes[node]?.bind Node.instruction?

/-- Is this the node of an operation? -/
def isOp (d : Dag) (node : Nat) : Bool := (d.instruction? node).isSome

/-- The operations from which an edge leads to a node. -/
def opPredecessors (d : Dag) (node : Nat) : List Nat :=
  (d.edges.filter (fun e => e.target == node && d.isOp e.source)).map (·.source)

/-- How often each name occurs among the operations. -/
def countOps (d : Dag) : Tally := Tally.ofNames (d.ops.map (·.2.name))

end Dag

end PathSelection
