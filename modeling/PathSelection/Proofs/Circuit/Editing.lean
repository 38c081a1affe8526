import Mathlib
import PathSelection.Circuit.Dag

/-!
# Edited graphs

A graph is edited by requests: for a qubit, for a classical bit or for an
operation.  A record keeps the wires that were asked for and the operations that
were accepted beside the graph, so that statements can compare the two.

Main results:

- Theorem `check_eq_ok_iff`: an instruction is accepted exactly if its gate gets
  as many qubits as it acts on, all its wires are there and its qubits are distinct.
- Theorem `apply_of_check_error`: a refused instruction leaves the graph alone.
- Theorem `nodes_of_apply`: an accepted instruction is the only new node.
- Theorem `pairwise_ops`: operations are listed in the order of their nodes.
-/

namespace PathSelection.Dag

/-! ## Requests and records -/

/-- What can be asked of a graph. -/
inductive Request where
  | addQubit (id : Nat)
  | addClbit (id : Nat)
  | apply (i : Instruction)

/-- A graph, the wires that were asked for and the accepted operations with their nodes. -/
structure Record where
  graph : Dag
  wires : List Wire
  accepted : List (Nat × Instruction)

namespace Record

/-- The graph of which nothing has been asked. -/
def empty : Record := ⟨Dag.empty, [], []⟩

/-- The record after one more request.  A refused operation leaves the graph as the refusal
left it. -/
def step (r : Record) : Request → Record
  | .addQubit id => { r with graph := r.graph.addQubit id, wires := r.wires ++ [.qubit id] }
  | .addClbit id => { r with graph := r.graph.addClbit id, wires := r.wires ++ [.clbit id] }
  | .apply i =>
    match Dag.apply i r.graph with
    | .ok node d => { r with graph := d, accepted := r.accepted ++ [(node, i)] }
    | .error _ d => { r with graph := d }

/-- The record after a list of requests to a graph without wires. -/
def after (requests : List Request) : Record := requests.foldl step empty

end Record

/-! ## Strands -/

variable {d : Dag} {s : Strand} {w : Wire} {node : Nat} {i : Instruction}

/-- A strand that is found is in the graph and belongs to the wire. -/
theorem strand?_eq_some (h : d.strand? w = some s) : s ∈ d.strands ∧ s.wire = w :=
  ⟨List.mem_of_find?_eq_some h, by simpa using List.find?_some h⟩

/-- A graph has the wires of its strands. -/
theorem hasWire_iff : d.hasWire w = true ↔ ∃ s ∈ d.strands, s.wire = w := by
  simp [hasWire, strand?]

private theorem hasWire_iff_mem : d.hasWire w = true ↔ w ∈ d.strands.map (·.wire) := by
  simp [hasWire_iff]

/-- Rerouting a wire keeps all of its strands but their fronts. -/
theorem map_strands_reroute {β : Type} (f : Strand → β)
    (hf : ∀ t, f { t with front := node } = f t) :
    (d.reroute s node).strands.map f = d.strands.map f := by
  simp only [reroute, List.map_map]
  apply List.map_congr_left
  intro t _
  simp only [Function.comp_apply]
  split
  · exact hf t
  · rfl

@[simp]
theorem hasWire_reroute (v : Wire) : (d.reroute s node).hasWire v = d.hasWire v := by
  rw [Bool.eq_iff_iff, hasWire_iff_mem, hasWire_iff_mem, map_strands_reroute _ fun _ => rfl]

/-! ## One wire -/

/-- The graph with a wire that was not there. -/
def withWire (d : Dag) (w : Wire) : Dag where
  nodes := (d.nodes.push (.input w)).push (.output w)
  edges := ⟨d.nodes.size, d.nodes.size + 1, w⟩ :: d.edges
  strands := ⟨w, d.nodes.size + 1, d.nodes.size⟩ :: d.strands
  numOps := d.numOps

/-- A wire that is there is not added again. -/
theorem addWire_of_hasWire (h : d.hasWire w = true) : d.addWire w = d := by
  simp [addWire, h]

/-- A wire that is not there is added. -/
theorem addWire_of_not_hasWire (h : d.hasWire w = false) : d.addWire w = d.withWire w := by
  simp [addWire, withWire, h]

/-- The new wire is there beside the others. -/
theorem hasWire_withWire (v : Wire) :
    (d.withWire w).hasWire v = true ↔ d.hasWire v = true ∨ v = w := by
  simp only [hasWire_iff_mem, withWire, List.map_cons, List.mem_cons]
  exact or_comm

/-- A graph has a wire that was added and those that it had before. -/
theorem hasWire_addWire (v : Wire) :
    (d.addWire w).hasWire v = true ↔ d.hasWire v = true ∨ v = w := by
  cases h : d.hasWire w with
  | true =>
    rw [addWire_of_hasWire h]
    constructor
    · exact .inl
    · rintro (hv | rfl)
      · exact hv
      · exact h
  | false => rw [addWire_of_not_hasWire h, hasWire_withWire]

/-! ## Checked operands -/

/-- A list of qubits passes if all are there, none is repeated and none was seen before. -/
theorem checkQubits_eq_ok_iff {gate : Option String} {seen qubits : List Nat} :
    d.checkQubits gate seen qubits = .ok () ↔
      (∀ q ∈ qubits, d.hasWire (.qubit q) = true) ∧ qubits.Nodup ∧ ∀ q ∈ qubits, q ∉ seen := by
  induction qubits generalizing seen with
  | nil => simp [checkQubits]
  | cons q qubits ih =>
    rw [checkQubits]
    by_cases hwire : d.hasWire (.qubit q) = true
    · by_cases hseen : q ∈ seen
      · simp [hwire, hseen]
      · simp only [hwire, hseen, ih, List.mem_cons, List.nodup_cons, List.contains_eq_mem,
          Bool.not_true, Bool.false_eq_true, decide_false, if_false]
        grind
    · simp [hwire]

/-- A list of classical bits passes if all are there, however often. -/
theorem checkClbits_eq_ok_iff {gate : Option String} {clbits : List Nat} :
    d.checkClbits gate clbits = .ok () ↔ ∀ c ∈ clbits, d.hasWire (.clbit c) = true := by
  induction clbits with
  | nil => simp [checkClbits]
  | cons c clbits ih =>
    rw [checkClbits]
    by_cases hwire : d.hasWire (.clbit c) = true <;> simp [hwire, ih]

private theorem checkArity_eq_ok_iff :
    checkArity i = .ok () ↔ ∀ g, i.gate? = some g → g.numQubits = i.qubits.length := by
  unfold checkArity
  cases i.gate? with
  | none => simp
  | some g =>
    by_cases h : g.numQubits = i.qubits.length <;> simp [h]

/-- An instruction is accepted exactly if its gate gets as many qubits as it acts on, its wires are
there and its qubits are distinct. -/
theorem check_eq_ok_iff :
    d.check i = .ok () ↔
      (∀ g, i.gate? = some g → g.numQubits = i.qubits.length) ∧
        (∀ v ∈ i.wires, d.hasWire v = true) ∧ i.qubits.Nodup := by
  have hcheck : d.check i = .ok () ↔
      checkArity i = .ok () ∧ d.checkQubits (i.gate?.map Gate.name) [] i.qubits = .ok () ∧
        d.checkClbits (i.gate?.map Gate.name) i.clbits = .ok () := by
    simp only [check, bind, Except.bind]
    cases checkArity i with
    | error e => simp
    | ok _ => cases d.checkQubits (i.gate?.map Gate.name) [] i.qubits <;> simp
  rw [hcheck, checkArity_eq_ok_iff, checkQubits_eq_ok_iff, checkClbits_eq_ok_iff]
  simp only [Instruction.wires, List.mem_append, List.mem_map]
  constructor
  · rintro ⟨harity, ⟨hqubits, hnodup, _⟩, hclbits⟩
    refine ⟨harity, ?_, hnodup⟩
    rintro v (⟨q, hq, rfl⟩ | ⟨c, hc, rfl⟩)
    · exact hqubits q hq
    · exact hclbits c hc
  · rintro ⟨harity, hwires, hnodup⟩
    exact ⟨harity, ⟨fun q hq => hwires _ (.inl ⟨q, hq, rfl⟩), hnodup, by simp⟩,
      fun c hc => hwires _ (.inr ⟨c, hc, rfl⟩)⟩

/-! ## One operation -/

/-- Splicing reroutes a wire whose front is followed by its output. -/
theorem splice_of_mem (hs : d.strand? w = some s)
    (he : (⟨s.front, s.output, s.wire⟩ : Edge) ∈ d.edges) :
    splice node w d = .ok () (d.reroute s node) := by
  simp [splice, bind, EStateM.bind, get, getThe, MonadStateOf.get, EStateM.get, set, EStateM.set,
    hs, he]

/-- A refused instruction leaves the graph alone. -/
theorem apply_of_check_error {e : CircuitError} (h : d.check i = .error e) :
    apply i d = .error e d := by
  simp [apply, bind, EStateM.bind, get, getThe, MonadStateOf.get, EStateM.get, throw,
    throwThe, MonadExceptOf.throw, EStateM.throw, h]

/-- The graph with the node of an instruction, before any wire is routed through it. -/
def withNode (d : Dag) (i : Instruction) : Dag := { d with nodes := d.nodes.push (.op i) }

/-- An instruction that passes its checks is accepted if its wires can be spliced. -/
theorem apply_of_check_ok {d' : Dag} (h : d.check i = .ok ())
    (hsplice : forM i.wires (splice d.nodes.size) (d.withNode i) = .ok () d') :
    apply i d = .ok d.nodes.size { d' with numOps := d'.numOps + 1 } := by
  simp only [withNode] at hsplice
  simp [apply, bind, EStateM.bind, get, getThe, MonadStateOf.get, EStateM.get, set, EStateM.set,
    modify, modifyGet, MonadStateOf.modifyGet, EStateM.modifyGet, pure, EStateM.pure, h, hsplice]

/-- Splicing changes no node. -/
theorem nodes_of_splice {d' : Dag} {u : Unit} (h : splice node w d = .ok u d') :
    d'.nodes = d.nodes := by
  cases hs : d.strand? w with
  | none =>
    simp [splice, bind, EStateM.bind, get, getThe, MonadStateOf.get, EStateM.get, throw,
      throwThe, MonadExceptOf.throw, EStateM.throw, hs] at h
  | some s =>
    by_cases he : (⟨s.front, s.output, s.wire⟩ : Edge) ∈ d.edges
    · rw [splice_of_mem hs he] at h
      cases h
      rfl
    · simp [splice, bind, EStateM.bind, get, getThe, MonadStateOf.get, EStateM.get, throw,
        throwThe, MonadExceptOf.throw, EStateM.throw, hs, he] at h

private theorem nodes_of_forM_splice {d' : Dag} {ws : List Wire} {u : Unit}
    (h : forM ws (splice node) d = .ok u d') : d'.nodes = d.nodes := by
  induction ws generalizing d with
  | nil =>
    cases h
    rfl
  | cons w ws ih =>
    change (do splice node w; forM ws (splice node)) d = .ok u d' at h
    simp only [bind, EStateM.bind] at h
    cases hsplice : splice node w d with
    | error e left =>
      rw [hsplice] at h
      cases h
    | ok u between =>
      rw [hsplice] at h
      exact (ih h).trans (nodes_of_splice hsplice)

/-- An accepted instruction is the only new node. -/
theorem nodes_of_apply {d' : Dag} {n : Nat} (h : apply i d = .ok n d') :
    d'.nodes = d.nodes.push (.op i) := by
  cases hcheck : d.check i with
  | error e =>
    rw [apply_of_check_error hcheck] at h
    cases h
  | ok _ =>
    cases hsplice : forM i.wires (splice d.nodes.size) (d.withNode i) with
    | ok u spliced =>
      rw [apply_of_check_ok hcheck hsplice] at h
      cases h
      exact nodes_of_forM_splice hsplice
    | error e left =>
      have herror : apply i d = .error e left := by
        simp only [withNode] at hsplice
        simp [apply, bind, EStateM.bind, get, getThe, MonadStateOf.get, EStateM.get, set,
          EStateM.set, hcheck, hsplice]
      cases herror.symm.trans h

/-! ## Operations by node -/

/-- A node at the end adds its operation at the end of the list, if it has one. -/
theorem ops_of_push {d' : Dag} {n : Node} (h : d'.nodes = d.nodes.push n) :
    d'.ops = d.ops ++ (n.instruction?.map (d.nodes.size, ·)).toList := by
  simp only [ops, h, Array.toList_push, List.zipIdx_append, List.filterMap_append]
  cases hn : n.instruction? <;> simp [hn]

/-- Adding a wire adds no operation. -/
@[simp]
theorem ops_addWire : (d.addWire w).ops = d.ops := by
  cases h : d.hasWire w with
  | true => rw [addWire_of_hasWire h]
  | false =>
    have hinput : ({ d with nodes := d.nodes.push (.input w) } : Dag).ops = d.ops := by
      rw [ops_of_push rfl]
      simp [Node.instruction?]
    rw [addWire_of_not_hasWire h,
      ops_of_push (d := { d with nodes := d.nodes.push (.input w) }) rfl, hinput]
    simp [Node.instruction?]

@[simp]
theorem numOps_addWire : (d.addWire w).numOps = d.numOps := by
  unfold addWire
  split <;> rfl

/-- There are as many operations as nodes of operations. -/
theorem length_ops : d.ops.length = d.nodes.countP (·.instruction?.isSome) := by
  have hindexed : d.nodes.countP (·.instruction?.isSome) =
      d.nodes.toList.zipIdx.countP (·.1.instruction?.isSome) := by
    rw [← Array.countP_toList]
    conv_lhs => rw [← List.zipIdx_map_fst 0 d.nodes.toList, List.countP_map]
    rfl
  rw [hindexed, ops, List.length_filterMap_eq_countP]
  simp only [Option.isSome_map]

/-- An operation is listed with its node. -/
theorem mem_ops {o : Nat × Instruction} : o ∈ d.ops ↔ d.nodes[o.1]? = some (.op o.2) := by
  rcases o with ⟨index, i⟩
  simp only [ops, List.mem_filterMap, Option.map_eq_some_iff, Prod.exists, Prod.mk.injEq]
  constructor
  · rintro ⟨n, k, hn, j, hj, rfl, rfl⟩
    have hk : d.nodes.toList[k]? = some n := List.mem_zipIdx_iff_getElem?.1 hn
    cases n with
    | op j' =>
      obtain rfl : j' = j := by simpa [Node.instruction?] using hj
      simpa using hk
    | input v => simp [Node.instruction?] at hj
    | output v => simp [Node.instruction?] at hj
  · intro h
    exact ⟨.op i, index, List.mem_zipIdx_iff_getElem?.2 (by simpa using h), i, rfl, rfl, rfl⟩

/-- Operations are listed in the order of their nodes. -/
theorem pairwise_ops : d.ops.Pairwise (·.1 < ·.1) := by
  rw [ops, List.pairwise_filterMap]
  have hindex : (d.nodes.toList.zipIdx.map (·.2)).Pairwise (· < ·) := by
    rw [List.zipIdx_map_snd]
    exact List.pairwise_lt_range'
  refine (List.pairwise_map.1 hindex).imp ?_
  rintro ⟨m, a⟩ ⟨n, b⟩ hab x hx y hy
  rcases Option.map_eq_some_iff.1 hx with ⟨j, _, rfl⟩
  rcases Option.map_eq_some_iff.1 hy with ⟨k, _, rfl⟩
  exact hab

/-- A node is that of an operation exactly if the operation is listed with it. -/
theorem isOp_iff : d.isOp node = true ↔ ∃ j, (node, j) ∈ d.ops := by
  simp only [isOp, instruction?, mem_ops]
  cases d.nodes[node]? with
  | none => simp
  | some n => cases n <;> simp [Node.instruction?]

end PathSelection.Dag
