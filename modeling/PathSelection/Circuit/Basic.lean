import PathSelection.Circuit.Chain

/-!
# Circuits

A circuit is a dependency graph with a name and a fixed number of qubits and
classical bits.  Building one is a state machine like that of its graph.
-/

namespace PathSelection

/-- A circuit; its wires are the qubits and classical bits below its two sizes. -/
structure Circuit where
  name : String
  numQubits : Nat
  numClbits : Nat
  dag : Dag

namespace Circuit

/-- A circuit without operations. -/
def withSize (name : String) (numQubits numClbits : Nat) : Circuit :=
  ⟨name, numQubits, numClbits, Dag.withSize numQubits numClbits⟩

/-! ## Building -/

/-- A change of a circuit that may meet a problem; the circuit stays as the problem left it. -/
abbrev Edit := EStateM CircuitError Circuit

/-- A change of the graph of a circuit. -/
def editDag {α : Type} (edit : Dag.Edit α) : Edit α := fun c =>
  match edit c.dag with
  | .ok a dag => .ok a { c with dag }
  | .error e dag => .error e { c with dag }

/-- Applies an instruction. -/
def apply (i : Instruction) : Edit Unit := do
  let _ ← editDag (Dag.apply i)

/-- Applies a standard gate with angles. -/
def gate (g : StandardGate) (params : List Float) (qubits : List Nat) : Edit Unit :=
  match Gate.standard g params with
  | .ok g => apply (.ofGate g qubits)
  | .error e => throw e

/-- Applies a standard gate without angles. -/
def plainGate (g : StandardGate) (qubits : List Nat) : Edit Unit :=
  apply (.ofGate (.zeroed g) qubits)

/-- Applies a Hadamard gate. -/
def h (q : Nat) : Edit Unit := plainGate .h [q]

/-- Applies a Pauli-X gate. -/
def x (q : Nat) : Edit Unit := plainGate .x [q]

/-- Applies a square root of X. -/
def sx (q : Nat) : Edit Unit := plainGate .sx [q]

/-- Applies a rotation around X. -/
def rx (theta : Float) (q : Nat) : Edit Unit := gate .rx [theta] [q]

/-- Applies a rotation around Y. -/
def ry (theta : Float) (q : Nat) : Edit Unit := gate .ry [theta] [q]

/-- Applies a rotation around Z. -/
def rz (theta : Float) (q : Nat) : Edit Unit := gate .rz [theta] [q]

/-- Applies a controlled X. -/
def cx (control target : Nat) : Edit Unit := plainGate .cx [control, target]

/-- Applies a controlled Z. -/
def cz (control target : Nat) : Edit Unit := plainGate .cz [control, target]

/-- Applies an echoed cross resonance. -/
def ecr (a b : Nat) : Edit Unit := plainGate .ecr [a, b]

/-- Applies a rotation around XX. -/
def rxx (theta : Float) (a b : Nat) : Edit Unit := gate .rxx [theta] [a, b]

/-- Swaps two qubits. -/
def swap (a b : Nat) : Edit Unit := plainGate .swap [a, b]

/-- Applies a Toffoli gate. -/
def ccx (a b target : Nat) : Edit Unit := plainGate .ccx [a, b, target]

/-- Measures a qubit into a classical bit. -/
def measure (q c : Nat) : Edit Unit := apply (.measure q c)

/-- Measures every qubit into the classical bit of the same index. -/
def measureAll : Edit Unit := do
  let c ← get
  if c.numClbits < c.numQubits then
    throw (.invalidGraph
      s!"measure_all needs {c.numQubits} classical bits, circuit has {c.numClbits}")
  (List.range c.numQubits).forM fun q => measure q q

/-- Puts a barrier across qubits. -/
def barrier (qubits : List Nat) : Edit Unit := apply (.barrier qubits)

/-! ## Queries -/

/-- The instructions in the order in which they were applied. -/
def instructions (c : Circuit) : List Instruction := c.dag.ops.map (·.2)

/-- The number of operations. -/
def numOps (c : Circuit) : Nat := c.dag.numOps

/-- The number of layers of operations other than barriers. -/
def depth (c : Circuit) : Nat := c.dag.depth

/-- How often each name occurs among the operations. -/
def countOps (c : Circuit) : Tally := c.dag.countOps

/-- How often each name occurs along one longest chain, if there is one. -/
def countOpsLongestPath (c : Circuit) : Option Tally := c.dag.countOpsLongestPath

end Circuit

end PathSelection
