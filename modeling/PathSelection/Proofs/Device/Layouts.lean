import Mathlib.Algebra.BigOperators.Intervals
import PathSelection.Proofs.Device.Couplers

/-!
# Layouts of pairs

A layout lists the pairs of coupled qubits, each pair once and the smaller qubit first.  Its map
contains both directions of these pairs and nothing else.

Main results:

- Theorem `Layout.size`: a map has twice as many couplers as its layout has pairs.
- Theorem `physicalQubits_eq_range`: the qubits of a map whose qubits are those below a bound.
- Theorems `contains_full_iff` and `size_full`: every pair of different qubits is coupled.
- Theorem `contains_linear_iff`: every qubit is coupled with the ones next to it.
-/

namespace PathSelection

namespace CouplingMap

variable {pairs pairs' : List (Nat × Nat)} {m : CouplingMap} {a b n : Nat}

/-! ## Pairs that are listed once -/

/-- Pairs of different qubits, the smaller one first and none of them twice. -/
structure Layout (pairs : List (Nat × Nat)) : Prop where
  lt : ∀ p ∈ pairs, p.1 < p.2
  nodup : pairs.Nodup

/-- Two layouts without a common pair are one. -/
theorem Layout.append (h : Layout pairs) (h' : Layout pairs') (hdisjoint : pairs.Disjoint pairs') :
    Layout (pairs ++ pairs') where
  lt := fun p hp => (List.mem_append.1 hp).elim (h.lt p) (h'.lt p)
  nodup := h.nodup.append h'.nodup hdisjoint

/-- No qubit is coupled with itself. -/
theorem Layout.contains_self (h : Layout pairs) (q : Nat) :
    (ofUndirected pairs).contains q q = false := by
  rw [← Bool.not_eq_true, contains_ofUndirected_iff, or_self]
  intro hmem
  exact lt_irrefl q (h.lt (q, q) hmem)

/-- A map has twice as many couplers as its layout has pairs. -/
theorem Layout.size (h : Layout pairs) : (ofUndirected pairs).size = 2 * pairs.length := by
  rw [CouplingMap.size, ← Array.length_toList, (records_ofUndirected pairs).edges,
    length_eraseDups, List.toFinset_card_of_nodup, List.length_flatMap]
  · simp only [List.length_cons, List.length_nil]
    rw [List.map_const', List.sum_replicate, Nat.nsmul_eq_mul, mul_comm]
  · refine List.nodup_flatMap.2 ⟨fun p hp => ?_, ?_⟩
    · have hlt := h.lt p hp
      simp [Prod.ext_iff, hlt.ne]
    · refine h.nodup.imp_of_mem fun {p q} hp hq hne => ?_
      have hlt := h.lt p hp
      have hlt' := h.lt q hq
      intro c hcp hcq
      simp only [List.mem_cons, List.not_mem_nil, or_false, Prod.ext_iff] at hcp hcq
      refine hne (Prod.ext ?_ ?_) <;> omega

/-- The qubits of a map are all below a bound if each of them has a coupler and no other has. -/
theorem physicalQubits_eq_range (hedges : ∀ e ∈ m.edges, e.1 < n ∧ e.2 < n)
    (hcoupled : ∀ q < n, ∃ e ∈ m.edges, q = e.1 ∨ q = e.2) : m.physicalQubits = List.range n := by
  refine (pairwise_physicalQubits m).eq_of_mem_iff List.pairwise_lt_range fun q => ?_
  rw [mem_physicalQubits_iff, List.mem_range]
  constructor
  · rintro ⟨e, he, rfl | rfl⟩
    · exact (hedges e he).1
    · exact (hedges e he).2
  · exact hcoupled q

/-! ## Full layouts -/

private theorem mem_fullPairs_iff : (a, b) ∈ fullPairs n ↔ a < b ∧ b < n := by
  simp only [fullPairs, List.mem_flatMap, List.mem_range, List.mem_map, List.mem_range'_1,
    Prod.mk.injEq]
  constructor
  · rintro ⟨i, hi, j, hj, rfl, rfl⟩
    omega
  · rintro ⟨hab, hb⟩
    exact ⟨a, by omega, b, by omega, rfl, rfl⟩

private theorem layout_fullPairs (n : Nat) : Layout (fullPairs n) where
  lt := fun _ hp => (mem_fullPairs_iff.1 hp).1
  nodup := by
    refine List.nodup_flatMap.2 ⟨fun i _ => ?_, ?_⟩
    · exact List.Nodup.map (fun _ _ h => (Prod.mk.inj h).2) List.nodup_range'
    · refine List.nodup_range.imp fun {i j} hne p hi hj => ?_
      obtain ⟨_, -, rfl⟩ := List.mem_map.1 hi
      obtain ⟨_, -, hp⟩ := List.mem_map.1 hj
      exact hne (Prod.mk.inj hp).1.symm

private theorem length_fullPairs (n : Nat) : 2 * (fullPairs n).length = n * (n - 1) := by
  have hrows : (fullPairs n).length = ∑ i ∈ Finset.range n, (n - 1 - i) := by
    rw [fullPairs, List.length_flatMap]
    simp only [List.length_map, List.length_range', Nat.add_comm _ 1, Nat.sub_add_eq]
    rfl
  rw [hrows, Finset.sum_range_reflect fun i => i, mul_comm, Finset.sum_range_id_mul_two]

/-- Every pair of different qubits is coupled. -/
theorem contains_full_iff :
    (Topology.full n).couplingMap.contains a b = true ↔ a ≠ b ∧ a < n ∧ b < n := by
  rw [Topology.couplingMap, contains_ofUndirected_iff, mem_fullPairs_iff, mem_fullPairs_iff]
  omega

/-- A full map couples each qubit with all the others. -/
theorem size_full (n : Nat) : (Topology.full n).couplingMap.size = n * (n - 1) := by
  rw [Topology.couplingMap, (layout_fullPairs n).size, length_fullPairs]

/-! ## Linear layouts -/

private theorem mem_linearPairs_iff : (a, b) ∈ linearPairs n ↔ b = a + 1 ∧ b < n := by
  simp only [linearPairs, List.mem_map, List.mem_range, Prod.mk.injEq]
  constructor
  · rintro ⟨i, hi, rfl, rfl⟩
    omega
  · rintro ⟨rfl, hb⟩
    exact ⟨a, by omega, rfl, rfl⟩

/-- Every qubit is coupled with the ones next to it. -/
theorem contains_linear_iff :
    (Topology.linear n).couplingMap.contains a b = true ↔
      a < n ∧ b < n ∧ (b = a + 1 ∨ a = b + 1) := by
  rw [Topology.couplingMap, contains_ofUndirected_iff, mem_linearPairs_iff, mem_linearPairs_iff]
  omega

end CouplingMap

end PathSelection
