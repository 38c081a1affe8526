import Mathlib.Logic.Equiv.Fin.Basic
import PathSelection.Features
import PathSelection.Proofs.Circuit.Refusal
import PathSelection.Proofs.Circuit.Tallies
import PathSelection.Scoring.GateCount

/-!
# Renamed bits

The labels of qubits and of classical bits can be permuted in all operands of a circuit.  The
wires have other strands then, and the edges are found in another order.  But two operations share
a bit exactly if they shared one before, and a wire stops where the wire of the old label did.  So
the chains are the same up to the labels, and as the rules for the longest chain leave one list of
nodes only (`Dag.IsChosen.unique`), this list is the same as well.

Both circuits are built side by side: an operation gets the same node in both.

Main results:

- Theorem `Dag.dependencyChain_renamed_iff`: the chains of renamed operations.
- Theorem `Dag.IsChosen.renamed`: the nodes that are chosen among renamed operations.
- Theorem `Circuit.SameNodes.forM_apply`: renamed operations get the same nodes.
- Theorem `Circuit.renamed_queries`: what the labels of bits do not matter for.
-/

namespace PathSelection

variable {σ τ : Equiv.Perm Nat} {i j : Instruction}

/-! ## Labels -/

/-- The permutation of all numbers that permutes the labels below a bound. -/
def labels {n : Nat} (σ : Equiv.Perm (Fin n)) : Equiv.Perm Nat := σ.extendDomain Fin.equivSubtype

private theorem labels_lt {n k : Nat} (σ : Equiv.Perm (Fin n)) (h : k < n) : labels σ k < n := by
  rw [labels, Equiv.Perm.extendDomain_apply_subtype σ Fin.equivSubtype h]
  exact (σ _).isLt

/-- The wire of the bit with another label. -/
def Wire.rename (σ τ : Equiv.Perm Nat) : Equiv.Perm Wire where
  toFun
    | .qubit q => .qubit (σ q)
    | .clbit b => .clbit (τ b)
  invFun
    | .qubit q => .qubit (σ.symm q)
    | .clbit b => .clbit (τ.symm b)
  left_inv w := by cases w <;> simp
  right_inv w := by cases w <;> simp

namespace Instruction

/-- The instruction on bits with other labels. -/
def rename (σ τ : Equiv.Perm Nat) (i : Instruction) : Instruction :=
  { i with qubits := i.qubits.map σ, clbits := i.clbits.map τ }

@[simp]
theorem name_rename : (i.rename σ τ).name = i.name := rfl

@[simp]
theorem isBarrier_rename : (i.rename σ τ).isBarrier = i.isBarrier := rfl

@[simp]
theorem numQubits_rename : (i.rename σ τ).numQubits = i.numQubits := List.length_map σ

private theorem wires_rename : (i.rename σ τ).wires = i.wires.map (Wire.rename σ τ) := by
  simp only [wires, rename, List.map_append, List.map_map]
  rfl

/-- Instructions share a bit if they did before. -/
theorem meets_rename_iff : (i.rename σ τ).Meets (j.rename σ τ) ↔ i.Meets j := by
  simp only [meets_iff, wires_rename, List.mem_map]
  constructor
  · rintro ⟨_, ⟨w, hi, rfl⟩, w', hj, heq⟩
    obtain rfl := (Wire.rename σ τ).injective heq
    exact ⟨w', hi, hj⟩
  · rintro ⟨w, hi, hj⟩
    exact ⟨_, ⟨w, hi, rfl⟩, w, hj, rfl⟩

/-- Permuted labels fit if the labels did. -/
theorem Fits.rename {numQubits numClbits : Nat} (h : i.Fits numQubits numClbits)
    (σ : Equiv.Perm (Fin numQubits)) (τ : Equiv.Perm (Fin numClbits)) :
    (i.rename (labels σ) (labels τ)).Fits numQubits numClbits where
  arity g hg := (h.arity g hg).trans (List.length_map _).symm
  qubits q hq := by
    obtain ⟨p, hp, rfl⟩ := List.mem_map.1 hq
    exact labels_lt σ (h.qubits p hp)
  clbits b hb := by
    obtain ⟨a, ha, rfl⟩ := List.mem_map.1 hb
    exact labels_lt τ (h.clbits a ha)
  nodup := h.nodup.map (labels σ).injective

end Instruction

/-! ## Chains of renamed operations -/

namespace Dag

variable {operations chain : List (Nat × Instruction)} {a b node n : Nat} {path : List Nat}

/-- Operations on bits with other labels. -/
def renamed (σ τ : Equiv.Perm Nat) (operations : List (Nat × Instruction)) :
    List (Nat × Instruction) :=
  operations.map fun o => (o.1, o.2.rename σ τ)

@[simp]
theorem map_fst_renamed : (renamed σ τ operations).map (·.1) = operations.map (·.1) := by
  simp [renamed]

/-- A wire stops where the wire of the old label did. -/
theorem stopsOf_renamed (w : Wire) :
    stopsOf (Wire.rename σ τ w) (renamed σ τ operations) = stopsOf w operations := by
  simp only [stopsOf, renamed, List.flatMap_map, Instruction.wires_rename]
  simp only [List.count_map_of_injective _ _ (Wire.rename σ τ).injective]

private theorem justBefore_renamed_iff :
    JustBefore (renamed σ τ operations) a b ↔ JustBefore operations a b := by
  rw [JustBefore, (Wire.rename σ τ).surjective.exists]
  simp only [stopsOf_renamed, JustBefore]

/-- The chains of renamed operations are the renamed chains. -/
theorem dependencyChain_renamed_iff :
    DependencyChain (renamed σ τ operations) chain ↔
      ∃ source, DependencyChain operations source ∧ renamed σ τ source = chain := by
  have hmeets (source : List (Nat × Instruction)) :
      (renamed σ τ source).IsChain (fun a b => a.2.Meets b.2) ↔
        source.IsChain fun a b => a.2.Meets b.2 := by
    simp only [renamed, List.isChain_map, Instruction.meets_rename_iff]
  constructor
  · rintro ⟨hsublist, hchain⟩
    obtain ⟨source, hsource, rfl⟩ := List.sublist_map_iff.1 hsublist
    exact ⟨source, ⟨hsource, (hmeets source).1 hchain⟩, rfl⟩
  · rintro ⟨source, hsource, rfl⟩
    exact ⟨hsource.sublist.map _, (hmeets source).2 hsource.meets⟩

/-- What depends on the nodes of chains and on their operations up to labels is the same for
renamed chains. -/
theorem image_renamed (operations : List (Nat × Instruction)) (P : List Nat → Prop)
    {f : List (Nat × Instruction) → Nat} (hf : ∀ chain, f (renamed σ τ chain) = f chain) :
    f '' {chain | DependencyChain (renamed σ τ operations) chain ∧ P (chain.map (·.1))} =
      f '' {chain | DependencyChain operations chain ∧ P (chain.map (·.1))} := by
  ext n
  simp only [Set.mem_image, Set.mem_ofPred_eq, dependencyChain_renamed_iff]
  constructor
  · rintro ⟨_, ⟨⟨source, hsource, rfl⟩, hP⟩, rfl⟩
    rw [map_fst_renamed] at hP
    exact ⟨source, ⟨hsource, hP⟩, (hf source).symm⟩
  · rintro ⟨source, ⟨hsource, hP⟩, rfl⟩
    exact ⟨renamed σ τ source, ⟨⟨source, hsource, rfl⟩, by rwa [map_fst_renamed]⟩, hf source⟩

private theorem length_renamed : (renamed σ τ operations).length = operations.length :=
  List.length_map _

/-- The longest chains that end in a node are as long as before. -/
theorem reaches_renamed_iff :
    Reaches (renamed σ τ operations) node n ↔ Reaches operations node n := by
  have hlast (chain : List (Nat × Instruction)) :
      chain.getLast?.map (·.1) = (chain.map (·.1)).getLast? := List.getLast?_map.symm
  simp only [Reaches, hlast]
  rw [image_renamed operations (fun nodes => nodes.getLast? = some node) fun _ => length_renamed]

private theorem BestBefore.renamed (h : BestBefore operations a b) :
    BestBefore (renamed σ τ operations) a b where
  before := justBefore_renamed_iff.2 h.before
  best := by simpa only [reaches_renamed_iff, justBefore_renamed_iff] using h.best

/-- The same nodes are chosen among renamed operations. -/
theorem IsChosen.renamed (h : IsChosen operations path) :
    IsChosen (renamed σ τ operations) path where
  chain := by
    obtain ⟨chain, hchain, rfl⟩ := h.chain
    exact ⟨_, dependencyChain_renamed_iff.2 ⟨chain, hchain, rfl⟩, map_fst_renamed⟩
  increasing := h.increasing
  step := h.step.imp fun _ _ => BestBefore.renamed
  first := by simpa only [justBefore_renamed_iff] using h.first
  longest := by
    have hlongest := h.longest
    have himage := image_renamed (σ := σ) (τ := τ) operations (fun _ => True) fun _ =>
      length_renamed
    simp only [and_true] at himage
    rwa [himage]
  last := by simpa only [reaches_renamed_iff] using h.last

end Dag

/-! ## Circuits side by side -/

namespace Circuit

variable {c c' d d' : Circuit} {is : List Instruction}

/-- Two circuits in which the same nodes are operations, up to the labels of their bits. -/
structure SameNodes (σ τ : Equiv.Perm Nat) (c c' : Circuit) : Prop where
  size : c'.dag.nodes.size = c.dag.nodes.size
  ops : c'.dag.ops = Dag.renamed σ τ c.dag.ops

/-- A renamed operation gets the same node. -/
theorem SameNodes.apply (h : SameNodes σ τ c c') (hrun : Circuit.apply i c = .ok () d)
    (hrun' : Circuit.apply (i.rename σ τ) c' = .ok () d') : SameNodes σ τ d d' where
  size := by
    rw [nodes_of_apply hrun, nodes_of_apply hrun', Array.size_push, Array.size_push, h.size]
  ops := by
    rw [Dag.ops_of_push (nodes_of_apply hrun), Dag.ops_of_push (nodes_of_apply hrun'), h.ops,
      h.size]
    simp [Dag.renamed, Dag.Node.instruction?]

/-- Renamed operations get the same nodes. -/
theorem SameNodes.forM_apply (h : SameNodes σ τ c c') (hrun : (is.forM Circuit.apply) c = .ok () d)
    (hrun' : ((is.map (·.rename σ τ)).forM Circuit.apply) c' = .ok () d') : SameNodes σ τ d d' := by
  induction is generalizing c c' with
  | nil =>
    cases hrun
    cases hrun'
    exact h
  | cons i is ih =>
    rw [forM_apply_cons] at hrun
    rw [List.map_cons, forM_apply_cons] at hrun'
    cases hfirst : Circuit.apply i c with
    | error e left =>
      rw [hfirst] at hrun
      cases hrun
    | ok u next =>
      cases hfirst' : Circuit.apply (i.rename σ τ) c' with
      | error e left =>
        rw [hfirst'] at hrun'
        cases hrun'
      | ok u' next' =>
        rw [hfirst] at hrun
        rw [hfirst'] at hrun'
        exact ih (h.apply hfirst hfirst') hrun hrun'

namespace SameNodes

private theorem instructions_eq (h : SameNodes σ τ c c') :
    c'.instructions = c.instructions.map (·.rename σ τ) := by
  rw [instructions, h.ops, Dag.renamed, instructions, List.map_map, List.map_map]
  rfl

private theorem countOps_eq (h : SameNodes σ τ c c') : c'.countOps = c.countOps := by
  rw [Circuit.countOps_eq, Circuit.countOps_eq, h.instructions_eq, List.map_map]
  rfl

private theorem depth_eq (h : SameNodes σ τ c c') (hc : c.Sound) (hc' : c'.Sound) :
    c'.depth = c.depth := by
  have hdepth := Dag.Record.Sound.isGreatest_depth hc
  have hdepth' := Dag.Record.Sound.isGreatest_depth hc'
  have hcount (chain : List (Nat × Instruction)) :
      ((Dag.renamed σ τ chain).countP fun o => !o.2.isBarrier) =
        chain.countP fun o => !o.2.isBarrier := List.countP_map
  have himage := Dag.image_renamed c.dag.ops (fun _ => True) hcount
  simp only [and_true, Set.image, Set.mem_ofPred_eq, ← h.ops] at himage
  simp only [record, himage] at hdepth hdepth'
  exact hdepth'.unique hdepth

private theorem clbits_nodup (h : SameNodes σ τ c c')
    (hclbits : ∀ i ∈ c.instructions, i.clbits.Nodup) :
    ∀ i ∈ c'.instructions, i.clbits.Nodup := by
  rw [h.instructions_eq, List.forall_mem_map]
  exact fun i hi => (hclbits i hi).map τ.injective

/-- The rules for the longest chain leave one list of nodes, and renamed operations obey the same
rules. -/
theorem exists_longestPath (h : SameNodes σ τ c c') (hc : c.Sound) (hc' : c'.Sound)
    (hclbits : ∀ i ∈ c.instructions, i.clbits.Nodup) :
    ∃ chain, Dag.DependencyChain c.dag.ops chain ∧
      c.dag.longestPath = some (chain.map (·.1)) ∧
      c'.dag.longestPath = some (chain.map (·.1)) := by
  have hdag : ∀ o ∈ c.dag.ops, o.2.clbits.Nodup := fun o ho => hclbits o.2 (List.mem_map_of_mem ho)
  have hdag' : ∀ o ∈ c'.dag.ops, o.2.clbits.Nodup := fun o ho =>
    h.clbits_nodup hclbits o.2 (List.mem_map_of_mem ho)
  obtain ⟨path, hpath⟩ := Dag.Record.Sound.exists_longestPath hc hdag
  obtain ⟨path', hpath'⟩ := Dag.Record.Sound.exists_longestPath hc' hdag'
  have hchosen : Dag.IsChosen c.dag.ops path :=
    Dag.Record.Sound.isChosen_longestPath hc hdag hpath
  have hchosen' : Dag.IsChosen c'.dag.ops path' :=
    Dag.Record.Sound.isChosen_longestPath hc' hdag' hpath'
  obtain ⟨chain, hchain, rfl⟩ := hchosen.chain
  rw [h.ops] at hchosen'
  obtain rfl := hchosen'.unique hchosen.renamed
  exact ⟨chain, hchain, hpath, hpath'⟩

/-- Renamed operations have the same tally along the longest chain. -/
theorem exists_countOpsLongestPath (h : SameNodes σ τ c c') (hc : c.Sound) (hc' : c'.Sound)
    (hclbits : ∀ i ∈ c.instructions, i.clbits.Nodup) :
    ∃ tally, c.countOpsLongestPath = some tally ∧ c'.countOpsLongestPath = some tally := by
  obtain ⟨chain, hchain, hpath, hpath'⟩ := h.exists_longestPath hc hc' hclbits
  have hchain' : Dag.DependencyChain c'.dag.ops (Dag.renamed σ τ chain) :=
    h.ops ▸ Dag.dependencyChain_renamed_iff.2 ⟨chain, hchain, rfl⟩
  rw [← Dag.map_fst_renamed (σ := σ) (τ := τ)] at hpath'
  refine ⟨.ofNames ((chain.map (·.2)).map (·.name)), ?_, ?_⟩
  · rw [Circuit.countOpsLongestPath_eq, hc.longestOperations_eq hchain hpath]
    rfl
  · rw [Circuit.countOpsLongestPath_eq, hc'.longestOperations_eq hchain' hpath', Dag.renamed]
    simp only [Option.map_some, List.map_map]
    rfl

/-- Renamed operations have the same native gates, whichever way they are counted. -/
theorem exists_countNativeGates (h : SameNodes σ τ c c') (hc : c.Sound) (hc' : c'.Sound)
    (hclbits : ∀ i ∈ c.instructions, i.clbits.Nodup) {α : Type} (d : Descriptor α)
    (mode : CountMode) :
    ∃ count, countNativeGates c d mode = some count ∧ countNativeGates c' d mode = some count := by
  cases mode with
  | wholeCircuit =>
    exact ⟨_, countNativeGates_wholeCircuit c d, by rw [countNativeGates_wholeCircuit, h.countOps_eq]⟩
  | longestPath =>
    obtain ⟨tally, htally, htally'⟩ := h.exists_countOpsLongestPath hc hc' hclbits
    refine ⟨.ofTally d.provider tally, ?_, ?_⟩
    · rw [countNativeGates, tally?, htally, Option.map_some]
    · rw [countNativeGates, tally?, htally', Option.map_some]

/-- The features do not depend on labels. -/
theorem counts_eq (h : SameNodes σ τ c c') (hc : c.Sound) (hc' : c'.Sound)
    (hqubits : c'.numQubits = c.numQubits) : FeatureVector.counts c' = FeatureVector.counts c := by
  have hinteractions : FeatureVector.interactions c' = FeatureVector.interactions c := by
    funext k
    rw [FeatureVector.interactions, h.instructions_eq, List.countP_map]
    simp [FeatureVector.interactions, Function.comp_def]
  simp only [FeatureVector.counts, h.countOps_eq, hqubits, h.depth_eq hc hc', hinteractions]

end SameNodes

/-- What the labels of bits do not matter for.  If no operation of a circuit names a classical bit
twice, its operations on permuted qubits and permuted classical bits are accepted one after the
other.  The circuit they make has the same depth, the same nodes on its longest chain, the same
tallies of the whole circuit and along that chain, the same native gates of every device in both
ways of counting and the same features. -/
theorem renamed_queries (h : c.Reachable) (hclbits : ∀ i ∈ c.instructions, i.clbits.Nodup)
    (σ : Equiv.Perm (Fin c.numQubits)) (τ : Equiv.Perm (Fin c.numClbits)) :
    ∃ c', ((c.instructions.map (·.rename (labels σ) (labels τ))).forM Circuit.apply)
        (withSize c.name c.numQubits c.numClbits) = .ok () c' ∧
      c'.instructions = c.instructions.map (·.rename (labels σ) (labels τ)) ∧
      c'.depth = c.depth ∧
      (∃ path, c.dag.longestPath = some path ∧ c'.dag.longestPath = some path) ∧
      c'.countOps = c.countOps ∧
      (∃ tally, c.countOpsLongestPath = some tally ∧ c'.countOpsLongestPath = some tally) ∧
      (∀ {α : Type} (d : Descriptor α) (mode : CountMode), ∃ count,
        countNativeGates c d mode = some count ∧ countNativeGates c' d mode = some count) ∧
      ∀ {α : Type} [Scalar α],
        (FeatureVector.ofCircuit c' : FeatureVector α) = FeatureVector.ofCircuit c := by
  have hc := h.sound
  have hreplay := toCircuit_eq_ok_iff.1 h.toCircuit
  obtain ⟨hempty, hnone⟩ := sound_withSize c.name c.numQubits c.numClbits
  have hfits : ∀ i ∈ c.instructions.map (·.rename (labels σ) (labels τ)),
      i.Fits c.numQubits c.numClbits := by
    rw [List.forall_mem_map]
    exact fun i hi => (hempty.fits_of_forM_apply hreplay i hi).rename σ τ
  obtain ⟨dag, hrun, hc', -⟩ := hempty.forM_apply hfits
  -- Both circuits start without operations, on the same wires.
  have hstart : SameNodes (labels σ) (labels τ) (withSize c.name c.numQubits c.numClbits)
      (withSize c.name c.numQubits c.numClbits) :=
    ⟨rfl, by rw [List.map_eq_nil_iff.1 hnone]; rfl⟩
  have hsame := hstart.forM_apply hreplay hrun
  obtain ⟨chain, -, hpath, hpath'⟩ := hsame.exists_longestPath hc hc' hclbits
  refine ⟨_, hrun, hsame.instructions_eq, hsame.depth_eq hc hc', ⟨_, hpath, hpath'⟩,
    hsame.countOps_eq, hsame.exists_countOpsLongestPath hc hc' hclbits,
    fun d mode => hsame.exists_countNativeGates hc hc' hclbits d mode, fun {α} _ => ?_⟩
  rw [FeatureVector.ofCircuit, hsame.counts_eq hc hc' rfl, FeatureVector.ofCircuit]

/-- Two gates on one qubit each, nodes 8 and 9, come before a gate on both and a measurement.  When
the qubits and the classical bits change their labels, of the two first gates still the earlier
one is taken. -/
theorem renamed_queries_pair :
    let is := [.ofGate (.zeroed .h) [0], .ofGate (.zeroed .x) [1], .ofGate (.zeroed .cx) [1, 0],
      .measure 0 1]
    let js := [.ofGate (.zeroed .h) [1], .ofGate (.zeroed .x) [0], .ofGate (.zeroed .cx) [0, 1],
      .measure 1 0]
    ∃ c c', (is.forM Circuit.apply) (withSize "pair" 2 2) = .ok () c ∧ c.Reachable ∧
      (∀ i ∈ c.instructions, i.clbits.Nodup) ∧
      (js.forM Circuit.apply) (withSize "pair" 2 2) = .ok () c' ∧
      c.dag.longestPath = some [8, 10, 11] ∧ c'.dag.longestPath = some [8, 10, 11] ∧
      c'.depth = c.depth := by
  intro is js
  obtain ⟨hempty, hnone⟩ := sound_withSize "pair" 2 2
  have hfits : ∀ i ∈ is, i.Fits 2 2 := by
    simp only [is, List.forall_mem_cons, List.not_mem_nil, false_implies, implies_true, and_true]
    refine ⟨⟨?_, by decide, by decide, by decide⟩, ⟨?_, by decide, by decide, by decide⟩,
      ⟨?_, by decide, by decide, by decide⟩, ⟨by simp [Instruction.measure, Instruction.gate?],
        by decide, by decide, by decide⟩⟩ <;>
    · intro g hg
      rw [← Option.some.inj hg]
      rfl
  obtain ⟨dag, hrun, -, hinstructions⟩ := hempty.forM_apply hfits
  rw [hnone, List.nil_append] at hinstructions
  have hreachable := (Reachable.withSize "pair" 2 2).of_forM_apply hrun
  have hclbits : ∀ i ∈ is, i.clbits.Nodup := by decide
  have hpath : (is.forM Circuit.apply >>= fun _ => return (← get).dag.longestPath).run'
      (withSize "pair" 2 2) = some (some [8, 10, 11]) := by decide
  simp only [EStateM.run', EStateM.run, bind, EStateM.bind, hrun] at hpath
  replace hpath := Option.some.inj hpath
  let swap : Equiv.Perm (Fin 2) := Equiv.swap 0 1
  obtain ⟨c', hrun', -, hdepth, ⟨path, hread, hread'⟩, -⟩ := renamed_queries hreachable
    (hinstructions ▸ hclbits) swap swap
  obtain rfl := Option.some.inj (hread.symm.trans hpath)
  refine ⟨_, c', hrun, hreachable, hinstructions ▸ hclbits, ?_, hread, hread', hdepth⟩
  rw [hinstructions] at hrun'
  exact hrun'

end Circuit

end PathSelection
