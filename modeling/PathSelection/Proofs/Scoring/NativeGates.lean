import PathSelection.Proofs.Circuit.Refusal
import PathSelection.Proofs.Circuit.Tallies
import PathSelection.Proofs.Scoring.Growth

/-!
# Counts of native gates

The native gates of a tally are those operations whose names a provider classifies, so along the
longest chain there are no more of them than in the whole circuit.  A barrier is not native, so
there are no more of them than layers either: the longest chain without its barriers is a chain
that the depth is not below.  In the circuit of a document the name of a native gate is that of a
standard gate, and the gate is on as many qubits as its class says.

Main results:

- Theorem `countNativeGates_eq`: the counts are the numbers of operations of each class.
- Theorem `Circuit.Sound.countP_classify_le_depth`: native gates along a chain and layers.
- Theorem `length_qubits_of_classify`: on how many qubits native gates are.
- Theorem `counts_of_reachable`: tallies and counts of every circuit.
-/

namespace PathSelection

/-! ## Classes -/

namespace Provider

variable {p : Provider} {name : String} {kind : GateClass}

private theorem mem_of_classify_eq_some (h : p.classify name = some kind) :
    name ∈ match kind with
      | .singleQubit => p.singleQubitGates
      | .twoQubit => p.twoQubitGates := by
  unfold classify at h
  split at h
  · rename_i hmem
    obtain rfl := Option.some.inj h
    simpa using hmem
  · split at h
    · rename_i hmem
      obtain rfl := Option.some.inj h
      simpa using hmem
    · cases h

end Provider

/-- The number of qubits that gates of a class are on. -/
def GateClass.numQubits : GateClass → Nat
  | .singleQubit => 1
  | .twoQubit => 2

namespace Provider

variable {p : Provider} {name : String} {kind : GateClass}

/-- A native gate is a standard gate on as many qubits as its class says. -/
theorem exists_standardGate_of_classify (h : p.classify name = some kind) :
    ∃ g, StandardGate.ofName? name = some g ∧ g.numQubits = kind.numQubits := by
  have hsingle : ∀ name ∈ p.singleQubitGates,
      (StandardGate.ofName? name).map StandardGate.numQubits = some 1 := by
    cases p <;> decide
  have htwo : ∀ name ∈ p.twoQubitGates,
      (StandardGate.ofName? name).map StandardGate.numQubits = some 2 := by
    cases p <;> decide
  have hmem := mem_of_classify_eq_some h
  cases kind with
  | singleQubit => exact Option.map_eq_some_iff.1 (hsingle name hmem)
  | twoQubit => exact Option.map_eq_some_iff.1 (htwo name hmem)

/-- A barrier is not native. -/
theorem classify_eq_none_of_isBarrier {i : Instruction} (h : i.isBarrier = true) :
    p.classify i.name = none := by
  rw [Instruction.name_of_isBarrier h]
  cases p <;> decide

end Provider

/-! ## Counts of lists -/

/-- The number of instructions whose names are of a class. -/
def Provider.countOf (p : Provider) (kind : GateClass) (is : List Instruction) : Nat :=
  is.countP fun i => p.classify i.name == some kind

namespace GateCount

variable {p : Provider}

/-- The native gates of the tally of a list are those of the list. -/
theorem ofTally_ofNames (p : Provider) (is : List Instruction) :
    ofTally p (Tally.ofNames (is.map (·.name))) =
      ⟨p.countOf .singleQubit is, p.countOf .twoQubit is⟩ := by
  induction is using List.reverseRecOn with
  | nil => rfl
  | append_singleton is i ih =>
    rw [List.map_append, List.map_singleton, Tally.ofNames_concat, ofTally_add, ih, add]
    simp only [Provider.countOf, List.countP_append, List.countP_singleton]
    cases p.classify i.name with
    | none => simp
    | some kind => cases kind <;> simp

/-- Each instruction is counted in one class at most. -/
theorem countOf_add_countOf (p : Provider) (is : List Instruction) :
    p.countOf .singleQubit is + p.countOf .twoQubit is =
      is.countP fun i => (p.classify i.name).isSome := by
  induction is with
  | nil => rfl
  | cons i is ih =>
    simp only [Provider.countOf, List.countP_cons] at ih ⊢
    rw [← ih]
    cases p.classify i.name with
    | none => simp
    | some kind => cases kind <;> simp <;> omega

end GateCount

/-! ## Counts of circuits -/

/-- The operations that are counted, if there is a longest chain where it is wanted. -/
def CountMode.operations? (c : Circuit) : CountMode → Option (List Instruction)
  | wholeCircuit => some c.instructions
  | longestPath => c.longestOperations

variable {α : Type} {c : Circuit}

/-- The native gates of a circuit are the operations of each class. -/
theorem countNativeGates_eq (c : Circuit) (d : Descriptor α) (mode : CountMode) :
    countNativeGates c d mode = (mode.operations? c).map fun is =>
      ⟨d.provider.countOf .singleQubit is, d.provider.countOf .twoQubit is⟩ := by
  cases mode with
  | wholeCircuit =>
    rw [countNativeGates_wholeCircuit, c.countOps_eq, GateCount.ofTally_ofNames]
    rfl
  | longestPath =>
    simp only [countNativeGates, Circuit.tally?, c.countOpsLongestPath_eq, Option.map_map,
      Function.comp_def, GateCount.ofTally_ofNames]
    rfl

/-- No more native gates are along a chain than the circuit has layers. -/
theorem Circuit.Sound.countP_classify_le_depth (h : c.Sound) {chain : List (Nat × Instruction)}
    (hchain : Dag.DependencyChain c.dag.ops chain) (p : Provider) :
    ((chain.map (·.2)).countP fun i => (p.classify i.name).isSome) ≤ c.depth := by
  have hnative : ∀ i ∈ chain.map (·.2),
      (p.classify i.name).isSome = true → (!i.isBarrier) = true := by
    intro i _ hsome
    cases hbarrier : i.isBarrier with
    | false => rfl
    | true => simp [Provider.classify_eq_none_of_isBarrier hbarrier] at hsome
  calc
    ((chain.map (·.2)).countP fun i => (p.classify i.name).isSome)
      ≤ (chain.map (·.2)).countP fun i => !i.isBarrier := List.countP_mono_left hnative
    _ = chain.countP fun o => !o.2.isBarrier := List.countP_map
    _ ≤ c.depth := (Dag.Record.Sound.isGreatest_depth h).2 ⟨chain, hchain, rfl⟩

/-- What is counted is in the circuit, and there is something to be counted. -/
theorem Circuit.Sound.exists_operations (h : c.Sound)
    (hclbits : ∀ i ∈ c.instructions, i.clbits.Nodup) (mode : CountMode) :
    ∃ operations, mode.operations? c = some operations ∧ operations ⊆ c.instructions := by
  cases mode with
  | wholeCircuit => exact ⟨_, rfl, List.Subset.refl _⟩
  | longestPath =>
    obtain ⟨chain, hchain, hoperations⟩ := h.exists_longestOperations hclbits
    exact ⟨_, hoperations, (hchain.sublist.map _).subset⟩

/-- In the circuit of a document native gates are on as many qubits as their class says. -/
theorem length_qubits_of_classify {text : String} (hc : Circuit.ofText text = .ok c)
    {p : Provider} {kind : GateClass} {i : Instruction} (hi : i ∈ c.instructions)
    (hkind : p.classify i.name = some kind) : i.qubits.length = kind.numQubits := by
  obtain ⟨g, hname, hqubits⟩ := Provider.exists_standardGate_of_classify hkind
  rw [Circuit.length_qubits_of_ofText hc hi hname, hqubits]

/-- Tallies and native gates of every circuit none of whose operations names a classical bit twice.
The tally has each name as often as the operations, and its counts sum to their number; there is one
of the longest chain, and it has no name more often.  The native gates of a device are the
operations of each class, in the whole circuit or along the longest chain, where there are no more
of either class; there are no more of them than operations, and along the longest chain no more than
layers. In the circuit of a document each is on as many qubits as its class says. -/
theorem counts_of_reachable (h : c.Reachable)
    (hclbits : ∀ i ∈ c.instructions, i.clbits.Nodup) :
    (∀ name, c.countOps.count name = c.instructions.countP (·.name == name)) ∧
    c.countOps.total = c.numOps ∧
    (∃ tally, c.countOpsLongestPath = some tally ∧
      ∀ name, tally.count name ≤ c.countOps.count name) ∧
    ∀ {α : Type} (d : Descriptor α), ∃ whole path,
      countNativeGates c d .wholeCircuit = some whole ∧
      countNativeGates c d .longestPath = some path ∧
      path.singleQubit ≤ whole.singleQubit ∧ path.twoQubit ≤ whole.twoQubit ∧
      whole.total ≤ c.numOps ∧ path.total ≤ c.depth ∧
      ∀ mode : CountMode, ∃ operations, mode.operations? c = some operations ∧
        countNativeGates c d mode =
          some ⟨d.provider.countOf .singleQubit operations,
            d.provider.countOf .twoQubit operations⟩ ∧
        ∀ text, Circuit.ofText text = .ok c → ∀ i ∈ operations,
          (d.provider.classify i.name = some .singleQubit → i.qubits.length = 1) ∧
          (d.provider.classify i.name = some .twoQubit → i.qubits.length = 2) := by
  obtain ⟨chain, hchain, hoperations⟩ := h.sound.exists_longestOperations hclbits
  have hsublist : (chain.map (·.2)).Sublist c.instructions := hchain.sublist.map _
  refine ⟨c.count_countOps, ?_, ⟨.ofNames ((chain.map (·.2)).map (·.name)), ?_, fun name => ?_⟩,
    fun {α} d => ?_⟩
  · rw [c.total_countOps, h.sound.numOps_eq]
  · rw [c.countOpsLongestPath_eq, hoperations]
    rfl
  · rw [c.countOps_eq, Tally.count_ofNames, Tally.count_ofNames]
    exact (hsublist.map _).count_le name
  · have hpath : countNativeGates c d .longestPath =
        some ⟨d.provider.countOf .singleQubit (chain.map (·.2)),
          d.provider.countOf .twoQubit (chain.map (·.2))⟩ := by
      rw [countNativeGates_eq, CountMode.operations?, hoperations]
      rfl
    refine ⟨_, _, countNativeGates_eq c d .wholeCircuit, hpath, hsublist.countP_le,
      hsublist.countP_le, ?_, ?_, fun mode => ?_⟩
    · rw [GateCount.total, GateCount.countOf_add_countOf, h.sound.numOps_eq]
      exact List.countP_le_length
    · rw [GateCount.total, GateCount.countOf_add_countOf]
      exact h.sound.countP_classify_le_depth hchain d.provider
    · obtain ⟨operations, hmode, hsubset⟩ := h.sound.exists_operations hclbits mode
      refine ⟨operations, hmode, by rw [countNativeGates_eq, hmode]; rfl, fun text hc i hi => ?_⟩
      exact ⟨length_qubits_of_classify hc (hsubset hi), length_qubits_of_classify hc (hsubset hi)⟩

/-- A document of a gate on one qubit and a gate on two, both native to a device. -/
theorem counts_of_reachable_pair :
    let sx : InstructionRecord := ⟨"sx", [0], [], [], none⟩
    let cx : InstructionRecord := ⟨"cx", [0, 1], [], [], none⟩
    let d : Descriptor Float := .ofProvider .ibm "device" 2
    ∃ c, Circuit.ofText (Circuit.pairText [sx, cx]) = .ok c ∧ c.Reachable ∧
      (∀ i ∈ c.instructions, i.clbits.Nodup) ∧ c.countOps.total = 2 ∧
      (∃ whole, countNativeGates c d .wholeCircuit = some whole ∧ whole.total ≤ 2) ∧
      ∀ i ∈ c.instructions, d.provider.classify i.name = some .twoQubit → i.qubits.length = 2 := by
  intro sx cx d
  have hparse : Json.parse CircuitForm.decoder (Circuit.pairText [sx, cx]) =
      .ok ⟨"", 2, 0, [sx, cx]⟩ := by
    rw [Circuit.pairText, Json.parse_compactText]
    rfl
  have hfits : ∀ r ∈ [sx, cx], r.Fits 2 0 := of_decide_eq_true rfl
  obtain ⟨c, hc⟩ := (Circuit.exists_ofText_iff hparse).2 hfits
  obtain ⟨-, -, -, hops, hall⟩ := Circuit.of_ofText hparse hc
  have hclbits : ∀ i ∈ c.instructions, i.clbits.Nodup := by
    intro i hi
    obtain ⟨r, hr, hread⟩ := exists_source_of_mapM_eq_ok (mapM_eq_ok_iff.2 hall) hi
    obtain ⟨-, -, hclbits⟩ := InstructionRecord.toInstruction_eq_ok_iff.1 hread
    simp only [List.mem_cons, List.not_mem_nil, or_false] at hr
    rcases hr with rfl | rfl <;> simp [hclbits, sx, cx]
  have hreachable : c.Reachable := .ofText hc
  obtain ⟨-, htotal, -, hnative⟩ := counts_of_reachable hreachable hclbits
  obtain ⟨whole, -, hwhole, -, -, -, hle, -, hmodes⟩ := hnative d
  obtain ⟨operations, hoperations, -, hqubits⟩ := hmodes .wholeCircuit
  obtain rfl : c.instructions = operations := Option.some.inj hoperations
  exact ⟨c, hc, hreachable, hclbits, htotal.trans hops, ⟨whole, hwhole, hle.trans_eq hops⟩,
    fun i hi => (hqubits _ hc i hi).2⟩

end PathSelection
