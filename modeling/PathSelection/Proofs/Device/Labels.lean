import PathSelection.Number.Digits
import PathSelection.Proofs.Device.Rings
import PathSelection.Proofs.Traversal

/-!
# Labels of qubits in words

The labels of the qubits in rings are computed from the numbers of the rings, by additions,
multiplications and subtractions.  They are words of 32 bits, so a sum or a product may be too large
and a difference may be negative.

- Definition `ringOfRingsLabels`: the pairs of a layout of rings, by operations that may fail.

Main results:

- Theorem `ringOfRingsLabels_eq_ok_iff`: none of these operations fails for up to `2 ^ 29` rings, and
  one does for more.
- Theorem `Topology.shape_of_regular`: the shapes of the layouts that have any size.
-/

namespace PathSelection

/-- Why a label is no word. -/
inductive LabelFault where
  | above
  | below

namespace Label

variable {a b : Nat}

/-- The sum of two labels. -/
def add (a b : Nat) : Except LabelFault Nat :=
  if a + b < wordValues 32 then .ok (a + b) else .error .above

/-- The product of two labels. -/
def mul (a b : Nat) : Except LabelFault Nat :=
  if a * b < wordValues 32 then .ok (a * b) else .error .above

/-- The difference of two labels. -/
def sub (a b : Nat) : Except LabelFault Nat := if b ≤ a then .ok (a - b) else .error .below

private theorem add_eq_ok (h : a + b < wordValues 32) : add a b = .ok (a + b) := if_pos h

private theorem mul_eq_ok (h : a * b < wordValues 32) : mul a b = .ok (a * b) := if_pos h

private theorem sub_eq_ok (h : b ≤ a) : sub a b = .ok (a - b) := if_pos h

end Label

/-! ## Computing the pairs -/

/-- The pairs of a cycle of eight qubits. -/
def octagonLabels (base : Nat) : Except LabelFault (List (Nat × Nat)) := do
  let links ← (List.range 7).mapM fun i => do
    let a ← Label.add base i
    let b ← Label.add a 1
    return (a, b)
  let last ← Label.add base 7
  return links ++ [(base, last)]

/-- The pairs of one ring in a row. -/
def rowRingLabels (start j : Nat) : Except LabelFault (List (Nat × Nat)) := do
  let shift ← Label.mul j 8
  let base ← Label.add start shift
  let cycle ← octagonLabels base
  if j = 0 then return cycle
  let outer ← Label.sub base 6
  let outer' ← Label.add base 5
  let inner ← Label.sub base 7
  let inner' ← Label.add base 6
  return cycle ++ [(outer, outer'), (inner, inner')]

/-- The pairs of a row of rings. -/
def ringRowLabels (start count : Nat) : Except LabelFault (List (Nat × Nat)) := do
  let rings ← (List.range count).mapM (rowRingLabels start)
  return rings.flatten

/-- The links from a ring of the first row to the one below it. -/
def rowLinkLabels (n : Nat) : Except LabelFault (List (Nat × Nat)) := do
  let base ← Label.mul n 8
  let left ← Label.add base 3
  let left' ← Label.add base 40
  let right ← Label.add base 4
  let right' ← Label.add base 47
  return [(left, left'), (right, right')]

/-- The pairs of a layout of rings. -/
def ringOfRingsLabels (rings : Nat) : Except LabelFault (List (Nat × Nat)) :=
  if rings = 10 then do
    let first ← ringRowLabels 0 5
    let second ← ringRowLabels 40 5
    let links ← (List.range 5).mapM rowLinkLabels
    return first ++ second ++ links.flatten
  else ringRowLabels 0 rings

/-! ## Labels that are words -/

section

variable {start count rings base j : Nat}

private theorem octagonLabels_eq_ok (h : base + 7 < wordValues 32) :
    octagonLabels base = .ok (octagonPairs base) := by
  have hlinks : ((List.range 7).mapM fun i => do
      let a ← Label.add base i
      let b ← Label.add a 1
      return (a, b)) = .ok ((List.range 7).map fun i => (base + i, base + i + 1)) := by
    rw [mapM_eq_ok_iff, List.forall₂_map_right_iff, List.forall₂_same]
    intro i hi
    have hi' := List.mem_range.1 hi
    rw [Label.add_eq_ok (by omega)]
    change (Label.add (base + i) 1 >>= fun b => pure (base + i, b)) = _
    rw [Label.add_eq_ok (by omega)]
    rfl
  rw [octagonLabels, hlinks]
  change (Label.add base 7 >>= fun last => pure (_ ++ [(base, last)])) = _
  rw [Label.add_eq_ok h]
  rfl

private theorem rowRingLabels_eq_ok (h : start + j * 8 + 7 < wordValues 32) :
    rowRingLabels start j = .ok (CouplingMap.rowRing start j) := by
  have hmul := Label.mul_eq_ok (a := j) (b := 8) (by omega)
  have hbase := Label.add_eq_ok (a := start) (b := j * 8) (by omega)
  have hcycle := octagonLabels_eq_ok h
  unfold rowRingLabels CouplingMap.rowRing
  by_cases hj : j = 0
  · simp only [hmul, hbase, hcycle, bind, Except.bind, if_pos hj, pure, Except.pure,
      List.append_nil]
  · have houter := Label.sub_eq_ok (a := start + j * 8) (b := 6) (by omega)
    have houter' := Label.add_eq_ok (a := start + j * 8) (b := 5) (by omega)
    have hinner := Label.sub_eq_ok (a := start + j * 8) (b := 7) (by omega)
    have hinner' := Label.add_eq_ok (a := start + j * 8) (b := 6) (by omega)
    simp only [hmul, hbase, hcycle, houter, houter', hinner, hinner', bind, Except.bind, if_neg hj,
      pure, Except.pure]

private theorem ringRowLabels_eq_ok (h : start + count * 8 ≤ wordValues 32) :
    ringRowLabels start count = .ok (ringRowPairs start count) := by
  have hrings : (List.range count).mapM (rowRingLabels start) =
      .ok ((List.range count).map (CouplingMap.rowRing start)) := by
    rw [mapM_eq_ok_iff, List.forall₂_map_right_iff, List.forall₂_same]
    intro j hj
    have hj' := List.mem_range.1 hj
    exact rowRingLabels_eq_ok (by omega)
  rw [ringRowLabels, hrings]
  rfl

/-- A row from the first label on has words as labels up to `2 ^ 29` rings. -/
theorem ringRowLabels_eq_ok_iff :
    ringRowLabels 0 count = .ok (ringRowPairs 0 count) ↔ count ≤ 2 ^ 29 := by
  have hwords : wordValues 32 = 2 ^ 29 * 8 := by decide
  constructor
  · intro h
    by_contra hcount
    unfold ringRowLabels at h
    cases hrings : (List.range count).mapM (rowRingLabels 0) with
    | error fault =>
      rw [hrings] at h
      cases h
    | ok rings =>
      obtain ⟨ring, -, hring⟩ := exists_of_mapM_eq_ok hrings (List.mem_range.2 (not_le.1 hcount))
      have hmul : Label.mul (2 ^ 29) 8 = .error .above := if_neg (by rw [hwords]; exact lt_irrefl _)
      rw [rowRingLabels, hmul] at hring
      cases hring
  · intro hcount
    exact ringRowLabels_eq_ok (by omega)

/-- No computation of a label fails for up to `2 ^ 29` rings, and one does for more. -/
theorem ringOfRingsLabels_eq_ok_iff :
    ringOfRingsLabels rings = .ok (ringOfRingsPairs rings) ↔ rings ≤ 2 ^ 29 := by
  by_cases hten : rings = 10
  · subst hten
    refine iff_of_true ?_ (by decide)
    have hfirst : ringRowLabels 0 5 = .ok (ringRowPairs 0 5) := ringRowLabels_eq_ok (by decide)
    have hsecond : ringRowLabels 40 5 = .ok (ringRowPairs 40 5) := ringRowLabels_eq_ok (by decide)
    have hlinks : (List.range 5).mapM rowLinkLabels = .ok ((List.range 5).map fun n =>
      [(n * 8 + 3, n * 8 + 40), (n * 8 + 4, n * 8 + 47)]) := rfl
    rw [ringOfRingsLabels, if_pos rfl, hfirst, hsecond, hlinks]
    rfl
  · rw [ringOfRingsLabels, if_neg hten, CouplingMap.ringOfRingsPairs_of_ne hten,
      ringRowLabels_eq_ok_iff]

end

/-! ## Layouts of any size -/

/-- The shapes of the layouts that have any size.  In a full one every pair of different qubits is
coupled and in a linear one every qubit with those next to it.  A layout of rings consists of cycles
of eight qubits and of the links between them; it is symmetric and connected, every qubit has two or
three neighbours and none is its own.  Up to `2 ^ 29` rings all labels can be computed as words. -/
theorem Topology.shape_of_regular :
    (∀ n a b, (full n).couplingMap.contains a b = true ↔ a ≠ b ∧ a < n ∧ b < n) ∧
    (∀ n, (full n).couplingMap.size = n * (n - 1)) ∧
    (∀ n a b, (linear n).couplingMap.contains a b = true ↔
      a < n ∧ b < n ∧ (b = a + 1 ∨ a = b + 1)) ∧
    (∀ rings, (ringOfRings rings).couplingMap.RingShape rings) ∧
    ∀ rings, ringOfRingsLabels rings = .ok (ringOfRingsPairs rings) ↔ rings ≤ 2 ^ 29 :=
  ⟨fun _ _ _ => CouplingMap.contains_full_iff, CouplingMap.size_full,
    fun _ _ _ => CouplingMap.contains_linear_iff, CouplingMap.ringShape_ringOfRings,
    fun _ => ringOfRingsLabels_eq_ok_iff⟩

end PathSelection
