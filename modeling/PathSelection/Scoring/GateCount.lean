import PathSelection.Circuit.Basic
import PathSelection.Device.Descriptor

/-!
# Native gates of compiled circuits

How many gates of a compiled circuit are native to its device, by the number of
qubits they act on.  A gate that is not native is not counted, so a circuit must
be in the gate set of the device.
-/

namespace PathSelection

/-- Numbers of native gates on one qubit and on two. -/
structure GateCount where
  singleQubit : Nat
  twoQubit : Nat
  deriving DecidableEq, Repr

namespace GateCount

/-- The number of all native gates. -/
def total (c : GateCount) : Nat := c.singleQubit + c.twoQubit

/-- The count with a number of further gates of a name. -/
def add (p : Provider) (c : GateCount) (entry : String × Nat) : GateCount :=
  match p.classify entry.1 with
  | some .singleQubit => { c with singleQubit := c.singleQubit + entry.2 }
  | some .twoQubit => { c with twoQubit := c.twoQubit + entry.2 }
  | none => c

/-- The native gates of a provider in a tally. -/
def ofTally (p : Provider) (t : Tally) : GateCount := t.foldl (add p) ⟨0, 0⟩

end GateCount

/-- Which operations of a circuit are counted. -/
inductive CountMode where
  | wholeCircuit
  /-- those along one longest chain -/
  | longestPath
  deriving DecidableEq, Repr

namespace CountMode

/-- The ways of counting by name. -/
def names : List (String × CountMode) :=
  [("whole_circuit", wholeCircuit), ("longest_path", longestPath)]

/-- The name of a way of counting. -/
def name : CountMode → String
  | wholeCircuit => "whole_circuit"
  | longestPath => "longest_path"

end CountMode

/-- How often each name occurs among the operations that are counted.  The counting along a longest
chain never ends if there is none. -/
def Circuit.tally? (c : Circuit) : CountMode → Option Tally
  | .wholeCircuit => some c.countOps
  | .longestPath => c.countOpsLongestPath

/-- The native gates of a device in a compiled circuit, if their counting ends. -/
def countNativeGates {α : Type} (c : Circuit) (d : Descriptor α) (mode : CountMode) :
    Option GateCount :=
  (c.tally? mode).map (GateCount.ofTally d.provider)

/-- The counting in a whole circuit ends. -/
@[simp]
theorem countNativeGates_wholeCircuit {α : Type} (c : Circuit) (d : Descriptor α) :
    countNativeGates c d .wholeCircuit = some (.ofTally d.provider c.countOps) := rfl

end PathSelection
