import Mathlib.Logic.Relation
import PathSelection.Features
import PathSelection.Proofs.Circuit.LongestChain
import PathSelection.Scoring.GateCount

/-!
# Reordered instructions

Two neighbouring instructions that share no bit can change places.  The nodes of a graph
and its edges are others then, and another one of several longest chains may be chosen.
What depends on the levels of wires alone stays the same, and so does what depends on
the instructions without their order.

Main results:

- Theorem `Reordered.scheduled_eq`: reordered instructions put the wires on the same levels.
- Theorem `Tally.ofNames_perm`: a tally does not depend on the order of the names.
- Theorem `Circuit.reordered_queries`: what reordered instructions leave alone.
-/

namespace PathSelection

/-! ## Tallies in any order -/

namespace Tally

variable {rest : Tally} {a b key : String} {n : Nat}

/-- The first name is counted once more. -/
theorem add_self : add key ((key, n) :: rest) = (key, n + 1) :: rest := by simp [add]

/-- A name ahead of the first one comes in front. -/
theorem add_of_lt (h : a < key) : add a ((key, n) :: rest) = (a, 1) :: (key, n) :: rest := by
  simp [add, h, h.ne']

/-- A name behind the first one is counted in the rest. -/
theorem add_of_gt (h : key < a) : add a ((key, n) :: rest) = (key, n) :: rest.add a := by
  simp [add, h.ne, h.not_gt]

/-- A name can be counted before or after a greater one. -/
theorem add_comm_of_lt (h : a < b) (t : Tally) : (t.add a).add b = (t.add b).add a := by
  induction t with
  | nil => rw [add, add, add_of_gt h, add_of_lt h, add]
  | cons entry rest ih =>
    obtain ⟨key, n⟩ := entry
    rcases lt_trichotomy key a with hkey | rfl | hkey
    · rw [add_of_gt hkey, add_of_gt (hkey.trans h), add_of_gt (hkey.trans h), add_of_gt hkey, ih]
    · rw [add_self, add_of_gt h, add_of_gt h, add_self]
    · rw [add_of_lt hkey, add_of_gt h]
      -- Whatever the greater name does, it stays behind the smaller one.
      rcases lt_trichotomy key b with hb | rfl | hb
      · rw [add_of_gt hb, add_of_lt hkey]
      · rw [add_self, add_of_lt hkey]
      · rw [add_of_lt hb, add_of_lt h]

private theorem add_right_comm (t : Tally) (a b : String) : (t.add a).add b = (t.add b).add a := by
  rcases lt_trichotomy a b with h | rfl | h
  · exact add_comm_of_lt h t
  · rfl
  · exact (add_comm_of_lt h t).symm

/-- A tally does not depend on the order of the names. -/
theorem ofNames_perm {names others : List String} (h : names.Perm others) :
    ofNames names = ofNames others :=
  h.foldl_eq' (fun a _ b _ t => add_right_comm t a b) []

end Tally

/-! ## Reordered instructions -/

namespace Instruction

/-- Instructions that share no bit. -/
structure Independent (i j : Instruction) : Prop where
  qubits : i.qubits.Disjoint j.qubits
  clbits : i.clbits.Disjoint j.clbits

private theorem Independent.wires {i j : Instruction} (h : i.Independent j) :
    i.wires.Disjoint j.wires := by
  intro w hi hj
  simp only [Instruction.wires, List.mem_append, List.mem_map] at hi hj
  cases w with
  | qubit q => exact h.qubits (by simpa using hi) (by simpa using hj)
  | clbit b => exact h.clbits (by simpa using hi) (by simpa using hj)

end Instruction

/-- Two neighbouring instructions that share no bit have changed places. -/
inductive Swapped : List Instruction → List Instruction → Prop
  | intro (before behind : List Instruction) {i j : Instruction} (h : i.Independent j) :
    Swapped (before ++ i :: j :: behind) (before ++ j :: i :: behind)

/-- Any number of neighbours have changed places one after the other. -/
abbrev Reordered : List Instruction → List Instruction → Prop := Relation.ReflTransGen Swapped

variable {is js : List Instruction}

private theorem Swapped.perm (h : Swapped is js) : is.Perm js := by
  cases h with
  | intro before behind h => exact (List.Perm.swap _ _ behind).append_left before

private theorem Reordered.perm (h : Reordered is js) : is.Perm js := by
  induction h with
  | refl => exact .refl is
  | tail _ hswapped ih => exact ih.trans hswapped.perm

/-- Swapped instructions put the wires on the same levels. -/
theorem Swapped.scheduled_eq (h : Swapped is js) (weight : Instruction → Nat) :
    Instruction.scheduled weight is = Instruction.scheduled weight js := by
  cases h with
  | intro before behind h =>
    simp only [Instruction.scheduled, List.foldl_append, List.foldl_cons,
      Instruction.schedule_comm h.wires]

private theorem Reordered.scheduled_eq (h : Reordered is js) (weight : Instruction → Nat) :
    Instruction.scheduled weight is = Instruction.scheduled weight js := by
  induction h with
  | refl => rfl
  | tail _ hswapped ih => rw [ih, hswapped.scheduled_eq]

/-! ## Circuits -/

namespace Circuit

variable {c c' : Circuit}

/-- The tally of a circuit is that of the names of its instructions. -/
theorem countOps_eq (c : Circuit) : c.countOps = Tally.ofNames (c.instructions.map (·.name)) := by
  rw [countOps, Dag.countOps, instructions, List.map_map]
  rfl

/-- Circuits of the same depth whose instructions are the same up to their order have the same
features. -/
theorem counts_eq_of_perm (hperm : c.instructions.Perm c'.instructions)
    (hqubits : c.numQubits = c'.numQubits) (hdepth : c.depth = c'.depth) :
    FeatureVector.counts c = FeatureVector.counts c' := by
  have hcounts : c.countOps = c'.countOps := by
    rw [countOps_eq, countOps_eq, Tally.ofNames_perm (hperm.map _)]
  have hinteractions : FeatureVector.interactions c = FeatureVector.interactions c' := by
    funext k
    exact hperm.countP_eq _
  simp only [FeatureVector.counts, hcounts, hqubits, hdepth, hinteractions]

/-- Circuits whose instructions are reordered have the same depth. -/
theorem Sound.depth_eq_of_reordered (h : c.Sound) (h' : c'.Sound)
    (hreordered : Reordered c.instructions c'.instructions) : c'.depth = c.depth := by
  rw [h.depth_eq, h'.depth_eq, hreordered.scheduled_eq]

/-- Circuits whose instructions are reordered have longest chains of the same length. -/
theorem Sound.exists_longestPath_of_reordered (h : c.Sound) (h' : c'.Sound)
    (hreordered : Reordered c.instructions c'.instructions)
    (hclbits : ∀ i ∈ c.instructions, i.clbits.Nodup) :
    ∃ path path', c.dag.longestPath = some path ∧ c'.dag.longestPath = some path' ∧
      path'.length = path.length := by
  have hclbits' : ∀ i ∈ c'.instructions, i.clbits.Nodup := fun i hi =>
    hclbits i (hreordered.perm.mem_iff.2 hi)
  obtain ⟨path, hpath, hlength⟩ := h.exists_longestPath hclbits
  obtain ⟨path', hpath', hlength'⟩ := h'.exists_longestPath hclbits'
  exact ⟨path, path', hpath, hpath', by rw [hlength, hlength', hreordered.scheduled_eq]⟩

/-- What reordered instructions leave alone.  If a list of instructions none of which names a
classical bit twice is accepted by an empty circuit, so is every list that is reached from it by
swaps of neighbours that share no bit.  Both circuits have the same depth, longest chains of the
same length, the same tally, as many native gates of each device and the same features. -/
theorem reordered_queries (name : String) (numQubits numClbits : Nat) (hreordered : Reordered is js)
    (hclbits : ∀ i ∈ is, i.clbits.Nodup)
    (hrun : (is.forM Circuit.apply) (withSize name numQubits numClbits) = .ok () c) :
    ∃ c', (js.forM Circuit.apply) (withSize name numQubits numClbits) = .ok () c' ∧
      c'.depth = c.depth ∧
      (∃ path path', c.dag.longestPath = some path ∧ c'.dag.longestPath = some path' ∧
        path'.length = path.length) ∧
      c'.countOps = c.countOps ∧
      (∀ (α : Type) (d : Descriptor α), ∃ count,
        countNativeGates c d .wholeCircuit = some count ∧
          countNativeGates c' d .wholeCircuit = some count) ∧
      ∀ (α : Type) [Scalar α],
        (FeatureVector.ofCircuit c' : FeatureVector α) = FeatureVector.ofCircuit c := by
  have hperm := hreordered.perm
  have hc : (CircuitRecord.mk name numQubits numClbits is).toCircuit = .ok c :=
    toCircuit_eq_ok_iff.2 hrun
  have hfits := CircuitRecord.exists_toCircuit_iff.1 ⟨c, hc⟩
  obtain ⟨c', hc'⟩ : ∃ c', (CircuitRecord.mk name numQubits numClbits js).toCircuit = .ok c' :=
    CircuitRecord.exists_toCircuit_iff.2 fun j hj => hfits j (hperm.mem_iff.2 hj)
  obtain ⟨hsound, hrecord⟩ := CircuitRecord.sound_of_toCircuit hc
  obtain ⟨hsound', hrecord'⟩ := CircuitRecord.sound_of_toCircuit hc'
  obtain ⟨-, hqubits, -, rfl⟩ := CircuitRecord.mk.inj hrecord
  obtain ⟨-, hqubits', -, rfl⟩ := CircuitRecord.mk.inj hrecord'
  have hdepth := hsound.depth_eq_of_reordered hsound' hreordered
  have hcounts : c'.countOps = c.countOps := by
    rw [countOps_eq, countOps_eq, Tally.ofNames_perm (hperm.map _)]
  refine ⟨c', toCircuit_eq_ok_iff.1 hc', hdepth,
    hsound.exists_longestPath_of_reordered hsound' hreordered hclbits, hcounts, ?_, ?_⟩
  · intro α d
    exact ⟨_, countNativeGates_wholeCircuit c d, by rw [countNativeGates_wholeCircuit, hcounts]⟩
  · intro α _
    have hfeatures := counts_eq_of_perm hperm.symm (hqubits'.trans hqubits.symm) hdepth
    rw [FeatureVector.ofCircuit, FeatureVector.ofCircuit, hfeatures]

/-- Two gates on different qubits change places in front of a gate on both. -/
theorem reordered_queries_pair :
    let h := Instruction.ofGate (.zeroed .h) [0]
    let x := Instruction.ofGate (.zeroed .x) [1]
    let cx := Instruction.ofGate (.zeroed .cx) [0, 1]
    ∃ c c', ([h, x, cx].forM Circuit.apply) (withSize "pair" 2 0) = .ok () c ∧
      ([x, h, cx].forM Circuit.apply) (withSize "pair" 2 0) = .ok () c' ∧
      c'.depth = c.depth ∧
      (∃ path path', c.dag.longestPath = some path ∧ c'.dag.longestPath = some path' ∧
        path'.length = path.length) ∧
      c'.countOps = c.countOps := by
  intro h x cx
  obtain ⟨hempty, -⟩ := sound_withSize "pair" 2 0
  have hfits : ∀ i ∈ [h, x, cx], i.Fits 2 0 := by
    simp only [List.forall_mem_cons, List.not_mem_nil, false_implies, implies_true, and_true]
    refine ⟨⟨?_, by decide, by decide, by decide⟩, ⟨?_, by decide, by decide, by decide⟩,
      ⟨?_, by decide, by decide, by decide⟩⟩ <;>
    · intro g hg
      rw [← Option.some.inj hg]
      rfl
  obtain ⟨dag, hrun, -⟩ := hempty.forM_apply hfits
  have hindependent : h.Independent x := by
    constructor <;> simp [h, x, Instruction.ofGate]
  have hreordered : Reordered [h, x, cx] [x, h, cx] := .single (.intro [] [cx] hindependent)
  obtain ⟨c', hrun', hdepth, hlength, hcounts, -⟩ :=
    reordered_queries "pair" 2 0 hreordered (by decide) hrun
  exact ⟨_, c', hrun, hrun', hdepth, hlength, hcounts⟩

end Circuit

end PathSelection
