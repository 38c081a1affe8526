/-!
# Coupling maps

Which qubits of a device can interact.  Couplers are directed; a symmetric map
holds each of them in both directions.  Beside the couplers in their order a map
holds them by their target and by their source, so that no question has to look
through all of them.

Main results:

- Theorem `CouplingMap.neighbors_addDirected_self`: a new coupler adds its
  target behind the other neighbours of its source.
- Theorem `CouplingMap.neighbors_addDirected_of_ne`: the neighbours of all other
  qubits stay.
-/

namespace PathSelection

/-! ## Partners of qubits -/

/-- Qubits with their partners. -/
abbrev Partners := List (Nat × List Nat)

namespace Partners

/-- The partners of a qubit, in the order in which they were added. -/
def of (l : Partners) (q : Nat) : List Nat := (l.lookup q).getD []

/-- One more partner of a qubit. -/
def add (q other : Nat) : Partners → Partners
  | [] => [(q, [other])]
  | (p, others) :: rest =>
    if q = p then (p, others ++ [other]) :: rest else (p, others) :: add q other rest

/-- A new partner comes behind the others. -/
@[simp]
theorem of_add_self (l : Partners) (q other : Nat) : (l.add q other).of q = l.of q ++ [other] := by
  induction l with
  | nil => simp [add, of]
  | cons entry rest ih =>
    obtain ⟨p, others⟩ := entry
    simp only [of] at ih
    by_cases h : q = p
    · simp [add, of, h]
    · simp [add, of, List.lookup_cons, h, beq_eq_false_iff_ne.mpr h, ih]

/-- The partners of all other qubits stay. -/
theorem of_add_of_ne {p q : Nat} (h : p ≠ q) (l : Partners) (other : Nat) :
    (l.add q other).of p = l.of p := by
  induction l with
  | nil => simp [add, of, List.lookup_cons, beq_eq_false_iff_ne.mpr h]
  | cons entry rest ih =>
    obtain ⟨r, others⟩ := entry
    simp only [of] at ih
    by_cases hq : q = r
    · subst hq
      simp [add, of, List.lookup_cons, beq_eq_false_iff_ne.mpr h]
    · by_cases hp : p = r
      · simp [add, of, hq, hp]
      · simp [add, of, List.lookup_cons, hq, beq_eq_false_iff_ne.mpr hp, ih]

end Partners

/-! ## Maps -/

/-- The directed couplers of a device. -/
structure CouplingMap where
  /-- the couplers in the order in which they were added -/
  edges : Array (Nat × Nat)
  /-- the sources of the couplers to each qubit -/
  sources : Partners
  /-- the targets of the couplers from each qubit -/
  targets : Partners

namespace CouplingMap

/-- The map without couplers. -/
def empty : CouplingMap := ⟨#[], [], []⟩

/-- The targets of the couplers of a qubit, in the order in which they were added. -/
def neighbors (m : CouplingMap) (q : Nat) : List Nat := m.targets.of q

/-- Is there a coupler from one qubit to another? -/
def contains (m : CouplingMap) (a b : Nat) : Bool := (m.sources.of b).contains a

/-- The map with one more coupler; one that is there stays as it is. -/
def addDirected (m : CouplingMap) (a b : Nat) : CouplingMap :=
  if m.contains a b then m
  else ⟨m.edges.push (a, b), m.sources.add b a, m.targets.add a b⟩

/-- The map with a coupler in both directions. -/
def addEdge (m : CouplingMap) (a b : Nat) : CouplingMap := (m.addDirected a b).addDirected b a

/-- The symmetric map of some pairs. -/
def ofUndirected (pairs : List (Nat × Nat)) : CouplingMap :=
  pairs.foldl (fun m (a, b) => m.addEdge a b) empty

/-- The map of some couplers. -/
def ofDirected (pairs : List (Nat × Nat)) : CouplingMap :=
  pairs.foldl (fun m (a, b) => m.addDirected a b) empty

/-! ## Queries -/

/-- The number of couplers. -/
def size (m : CouplingMap) : Nat := m.edges.size

/-- Are there no couplers? -/
def isEmpty (m : CouplingMap) : Bool := m.edges.isEmpty

/-- Are two qubits coupled in one direction at least? -/
def isConnected (m : CouplingMap) (a b : Nat) : Bool := m.contains a b || m.contains b a

/-- Is every coupler there in the other direction too? -/
def isSymmetric (m : CouplingMap) : Bool := m.edges.all fun (a, b) => m.contains b a

/-- An item in front of a list, unless the list starts with it. -/
def consUnlessSame (a : Nat) (rest : List Nat) : List Nat :=
  if rest.head? = some a then rest else a :: rest

/-- A list without the items that repeat the one after them. -/
def dropRepeats (xs : List Nat) : List Nat := xs.foldr consUnlessSame []

/-- The qubits at the ends of couplers, in ascending order. -/
def physicalQubits (m : CouplingMap) : List Nat :=
  dropRepeats ((m.edges.toList.flatMap fun (a, b) => [a, b]).mergeSort (fun a b => decide (a ≤ b)))

/-! ## Neighbours after a change -/

/-- A new coupler adds its target behind the other neighbours of its source. -/
theorem neighbors_addDirected_self {m : CouplingMap} {a b : Nat} (h : m.contains a b = false) :
    (m.addDirected a b).neighbors a = m.neighbors a ++ [b] := by
  simp [addDirected, h, neighbors]

/-- The neighbours of all other qubits stay. -/
theorem neighbors_addDirected_of_ne {m : CouplingMap} {a b c : Nat} (h : c ≠ a) :
    (m.addDirected a b).neighbors c = m.neighbors c := by
  unfold addDirected
  split
  · rfl
  · exact Partners.of_add_of_ne h m.targets b

end CouplingMap

end PathSelection
