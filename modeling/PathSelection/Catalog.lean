import PathSelection.Device.Registry
import PathSelection.Error

/-!
# The catalog of compilation paths

A path is a toolchain, a device, an optimization level and a layout strategy.
Its place in the catalog is the label of the path in every stored model.

Main results:

- Theorem `CompilationPath.index_catalog`: every path knows its place.
- Theorem `CompilationPath.catalog_names_nodup`: the names of paths are distinct.
- Theorem `CompilationPath.device_catalog`: the device of every path is built in.
-/

namespace PathSelection

/-- A family of compilers. -/
inductive Toolchain where
  | qiskit
  | tket
  deriving DecidableEq, Repr

/-- The name of a toolchain. -/
def Toolchain.name : Toolchain → String
  | qiskit => "qiskit"
  | tket => "tket"

/-- How qubits are placed at first. -/
inductive LayoutStrategy where
  /-- as the toolchain likes -/
  | default
  /-- along a line of couplers -/
  | line
  /-- by matching the interactions with the couplers -/
  | graph
  deriving DecidableEq, Repr

/-- The name of a layout strategy. -/
def LayoutStrategy.name : LayoutStrategy → String
  | default => "default"
  | line => "line"
  | graph => "graph"

/-- A way to compile a circuit. -/
structure CompilationPath where
  index : Nat
  name : String
  toolchain : Toolchain
  /-- the name of the device -/
  device : String
  /-- for toolchains that have levels -/
  level : Option Nat
  layout : LayoutStrategy
  deriving DecidableEq, Repr

namespace CompilationPath

/-- A path of the toolchain with levels. -/
def qiskit (index : Nat) (name device : String) (level : Nat) : CompilationPath :=
  ⟨index, name, .qiskit, device, some level, .default⟩

/-- A path of the toolchain with layout strategies. -/
def tket (index : Nat) (name device : String) (layout : LayoutStrategy) : CompilationPath :=
  ⟨index, name, .tket, device, none, layout⟩

/-- All paths. -/
def catalog : List CompilationPath := [
  qiskit 0 "qiskit_ionq_opt2" "ionq" 2,
  qiskit 1 "qiskit_ibm_washington_opt2" "ibm_washington" 2,
  qiskit 2 "qiskit_ibm_montreal_opt2" "ibm_montreal" 2,
  qiskit 3 "qiskit_rigetti_opt2" "rigetti_m1" 2,
  qiskit 4 "qiskit_oqc_opt2" "oqc_lucy" 2,
  qiskit 5 "qiskit_ionq_opt3" "ionq" 3,
  qiskit 6 "qiskit_ibm_washington_opt3" "ibm_washington" 3,
  qiskit 7 "qiskit_ibm_montreal_opt3" "ibm_montreal" 3,
  qiskit 8 "qiskit_rigetti_opt3" "rigetti_m1" 3,
  qiskit 9 "qiskit_oqc_opt3" "oqc_lucy" 3,
  tket 10 "tket_ionq" "ionq" .default,
  tket 11 "tket_ibm_washington_line" "ibm_washington" .line,
  tket 12 "tket_ibm_montreal_line" "ibm_montreal" .line,
  tket 13 "tket_rigetti_line" "rigetti_m1" .line,
  tket 14 "tket_oqc_line" "oqc_lucy" .line,
  tket 15 "tket_ibm_washington_graph" "ibm_washington" .graph,
  tket 16 "tket_ibm_montreal_graph" "ibm_montreal" .graph,
  tket 17 "tket_rigetti_graph" "rigetti_m1" .graph,
  tket 18 "tket_oqc_graph" "oqc_lucy" .graph]

/-- The number of paths. -/
def count : Nat := catalog.length

/-- The path with a label. -/
def ofIndex (index : Nat) : Except SelectionError CompilationPath :=
  match catalog[index]? with
  | some p => .ok p
  | none => .error (.unknownPath s!"index {index} (catalog has {count})")

/-- The path of a name. -/
def ofName (name : String) : Except SelectionError CompilationPath :=
  match catalog.find? (fun p => p.name == name) with
  | some p => .ok p
  | none => .error (.unknownPath name)

/-- The device of a path. -/
def descriptor {α : Type} [Scalar α] (p : CompilationPath) :
    Except SelectionError (Descriptor α) :=
  (Registry.builtinDevice p.device).mapError .ofDevice

/-- A path in a message. -/
def text (p : CompilationPath) : String := s!"{p.name} (#{p.index})"

/-- The document of a path. -/
def toJson (p : CompilationPath) : Json :=
  .record [("index", .nat p.index), ("name", .text p.name), ("toolchain", .text p.toolchain.name),
    ("backend", .text p.device), ("optimization_level", .option .nat p.level),
    ("layout", .text p.layout.name)]

/-- Every path knows its place. -/
theorem index_catalog : ∀ i, (h : i < catalog.length) → (catalog[i]).index = i := by decide

/-- The names of paths are distinct. -/
theorem catalog_names_nodup : (catalog.map (·.name)).Nodup := by decide

/-- The device of every path is built in. -/
theorem device_catalog :
    ∀ p ∈ catalog,
      p.device ∈ ["ibm_washington", "ibm_montreal", "ionq", "rigetti_m1", "oqc_lucy"] := by
  decide

end CompilationPath

end PathSelection
