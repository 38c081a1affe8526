import PathSelection.Device.CouplingMap
import PathSelection.Device.HeavyHex
import PathSelection.Json.Variants

/-!
# Topologies

The layouts of devices: regular ones of any size, and those of single devices.
-/

namespace PathSelection

/-- A layout of qubits and couplers. -/
inductive Topology where
  | full (numQubits : Nat)
  | linear (numQubits : Nat)
  | ringOfRings (rings : Nat)
  | aspenM1
  | heavyHex27
  | heavyHex127
  | lucy
  deriving DecidableEq, Repr

/-! ## Pairs of coupled qubits -/

/-- Every pair of distinct qubits, the smaller one first. -/
def fullPairs (n : Nat) : List (Nat × Nat) :=
  (List.range n).flatMap fun i => (List.range' (i + 1) (n - (i + 1))).map fun j => (i, j)

/-- Every qubit with the next one. -/
def linearPairs (n : Nat) : List (Nat × Nat) := (List.range (n - 1)).map fun i => (i, i + 1)

/-- A cycle of eight qubits. -/
def octagonPairs (base : Nat) : List (Nat × Nat) :=
  ((List.range 7).map fun i => (base + i, base + i + 1)) ++ [(base, base + 7)]

/-- A row of octagons, each linked twice to the one before it. -/
def ringRowPairs (start count : Nat) : List (Nat × Nat) :=
  (List.range count).flatMap fun j =>
    let base := start + j * 8
    octagonPairs base ++ if j = 0 then [] else [(base - 6, base + 5), (base - 7, base + 6)]

/--
Rings of eight qubits.  Ten rings form two rows of five with two links between
rings above each other; any other number of rings forms one row.
-/
def ringOfRingsPairs (rings : Nat) : List (Nat × Nat) :=
  if rings = 10 then
    ringRowPairs 0 5 ++ ringRowPairs 40 5
      ++ (List.range 5).flatMap fun n => [(n * 8 + 3, n * 8 + 40), (n * 8 + 4, n * 8 + 47)]
  else ringRowPairs 0 rings

/-- Two rows of five octagons whose labels start ten apart, the second row from one hundred on. -/
def aspenM1Pairs : List (Nat × Nat) :=
  ([0, 100].flatMap fun base =>
    ((List.range 5).flatMap fun j => octagonPairs (base + j * 10))
      ++ (List.range 4).flatMap fun j =>
        [(base + j * 10 + 2, base + j * 10 + 15), (base + j * 10 + 1, base + j * 10 + 16)])
    ++ (List.range 5).flatMap fun j => [(j * 10 + 104, j * 10 + 7), (j * 10 + 103, j * 10)]

/-- A ring of eight qubits whose couplers work in one direction. -/
def lucyPairs : List (Nat × Nat) :=
  [(0, 1), (0, 7), (1, 2), (2, 3), (7, 6), (6, 5), (4, 3), (4, 5)]

namespace Topology

/-- The coupling map of a layout. -/
def couplingMap : Topology → CouplingMap
  | full n => .ofUndirected (fullPairs n)
  | linear n => .ofUndirected (linearPairs n)
  | ringOfRings r => .ofUndirected (ringOfRingsPairs r)
  | aspenM1 => .ofUndirected aspenM1Pairs
  | heavyHex27 => .ofUndirected heavyHex27Pairs
  | heavyHex127 => .ofUndirected heavyHex127Pairs
  | lucy => .ofDirected lucyPairs

/-! ## Documents -/

/-- The name of a layout in documents. -/
def tag : Topology → String
  | full _ => "full"
  | linear _ => "linear"
  | ringOfRings _ => "ring_of_rings"
  | aspenM1 => "aspen_m1"
  | heavyHex27 => "heavy_hex27"
  | heavyHex127 => "heavy_hex127"
  | lucy => "lucy"

/-- The document of a layout. -/
def toJson (t : Topology) : Json :=
  .record (("kind", .text t.tag) :: match t with
    | full n | linear n => [("num_qubits", .nat n)]
    | ringOfRings r => [("rings", .nat r)]
    | _ => [])

/-- The layouts as a choice tagged by their kind. -/
def choice : Json.Tagged Topology where
  kind := "Topology"
  tag := "kind"
  variants := [
    ("full", "Topology::Full", .fields (full <$> .required "num_qubits" Json.Decoder.u32)),
    ("linear", "Topology::Linear", .fields (linear <$> .required "num_qubits" Json.Decoder.u32)),
    ("ring_of_rings", "Topology::RingOfRings",
      .fields (ringOfRings <$> .required "rings" Json.Decoder.u32)),
    ("aspen_m1", "Topology::AspenM1", .unit aspenM1),
    ("heavy_hex27", "Topology::HeavyHex27", .unit heavyHex27),
    ("heavy_hex127", "Topology::HeavyHex127", .unit heavyHex127),
    ("lucy", "Topology::Lucy", .unit lucy)]

/-- Reads a layout inside a number of open lists and objects. -/
def decoder (depth : Nat) : Json.Decoder Topology := Json.taggedOf choice depth

end Topology

end PathSelection
