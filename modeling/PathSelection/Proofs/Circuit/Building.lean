import PathSelection.Circuit.Document
import PathSelection.Proofs.Circuit.Trail

/-!
# Circuits that are built

A circuit is built from its sizes by calls that apply instructions one after the
other.  Whether an instruction is accepted depends on the sizes alone and not on
what was applied before, so a list of instructions is accepted if each of them
is, and a circuit that was built is the replay of its own instructions.

Main results:

- Theorems `Circuit.Sound.apply` and `Circuit.Sound.apply_of_not_fits`: when an instruction is
  accepted.
- Theorem `CircuitRecord.exists_toCircuit_iff`: which records are circuits.
- Theorem `Circuit.Built.replayed`: a circuit that was built is the replay of its record.
-/

namespace PathSelection

/-- The operands of an instruction in a circuit of these sizes. -/
structure Instruction.Fits (i : Instruction) (numQubits numClbits : Nat) : Prop where
  arity : ∀ g, i.gate? = some g → g.numQubits = i.qubits.length
  qubits : ∀ q ∈ i.qubits, q < numQubits
  clbits : ∀ c ∈ i.clbits, c < numClbits
  nodup : i.qubits.Nodup

namespace Circuit

variable {c c' : Circuit} {i : Instruction} {is : List Instruction}

/-! ## Circuits of a size -/

/-- The graph of a circuit with the wires of its sizes and its operations. -/
def record (c : Circuit) : Dag.Record where
  graph := c.dag
  wires := (List.range c.numQubits).map .qubit ++ (List.range c.numClbits).map .clbit
  accepted := c.dag.ops

/-- The graph of a circuit has just the wires of its sizes. -/
def Sound (c : Circuit) : Prop := c.record.Sound

private theorem foldl_step_addQubit (r : Dag.Record) (ids : List Nat) :
    (ids.map Dag.Request.addQubit).foldl Dag.Record.step r =
      { r with graph := ids.foldl Dag.addQubit r.graph, wires := r.wires ++ ids.map .qubit } := by
  induction ids generalizing r with
  | nil => simp
  | cons id ids ih => simp [ih, Dag.Record.step]

private theorem foldl_step_addClbit (r : Dag.Record) (ids : List Nat) :
    (ids.map Dag.Request.addClbit).foldl Dag.Record.step r =
      { r with graph := ids.foldl Dag.addClbit r.graph, wires := r.wires ++ ids.map .clbit } := by
  induction ids generalizing r with
  | nil => simp
  | cons id ids ih => simp [ih, Dag.Record.step]

/-- A circuit without operations has a sound graph. -/
theorem sound_withSize (name : String) (numQubits numClbits : Nat) :
    (withSize name numQubits numClbits).Sound ∧
      (withSize name numQubits numClbits).instructions = [] := by
  have hsound := Dag.Record.sound_after
    ((List.range numQubits).map .addQubit ++ (List.range numClbits).map .addClbit)
  have hafter : Dag.Record.after
      ((List.range numQubits).map .addQubit ++ (List.range numClbits).map .addClbit) =
        ⟨Dag.withSize numQubits numClbits,
          (List.range numQubits).map .qubit ++ (List.range numClbits).map .clbit, []⟩ := by
    rw [Dag.Record.after, List.foldl_append, foldl_step_addQubit, foldl_step_addClbit]
    rfl
  rw [hafter] at hsound
  have hops : (Dag.withSize numQubits numClbits).ops = [] := hsound.ops
  refine ⟨?_, by rw [instructions, withSize, hops]; rfl⟩
  rw [Sound, record, withSize, hops]
  exact hsound

/-- A sound circuit counts its instructions. -/
theorem Sound.numOps_eq (h : c.Sound) : c.numOps = c.instructions.length := by
  rw [numOps, instructions, List.length_map]
  exact Dag.Record.Sound.numOps h

/-- What a graph asks of an instruction is what the sizes of its circuit ask. -/
theorem Sound.check_eq_ok_iff (h : c.Sound) :
    c.dag.check i = .ok () ↔ i.Fits c.numQubits c.numClbits := by
  have hwires : ∀ w, c.dag.hasWire w = true ↔
      w ∈ (List.range c.numQubits).map .qubit ++ (List.range c.numClbits).map .clbit :=
    Dag.Record.Sound.wires h
  simp only [Dag.check_eq_ok_iff, hwires, Instruction.wires, List.mem_append, List.mem_map,
    List.mem_range]
  constructor
  · rintro ⟨harity, hbounds, hnodup⟩
    refine ⟨harity, fun q hq => ?_, fun b hb => ?_, hnodup⟩
    · simpa using hbounds (.qubit q) (.inl ⟨q, hq, rfl⟩)
    · simpa using hbounds (.clbit b) (.inr ⟨b, hb, rfl⟩)
  · rintro ⟨harity, hqubits, hclbits, hnodup⟩
    refine ⟨harity, ?_, hnodup⟩
    rintro w (⟨q, hq, rfl⟩ | ⟨b, hb, rfl⟩)
    · simpa using hqubits q hq
    · simpa using hclbits b hb

/-! ## One instruction -/

/-- An instruction that fits is accepted behind all others. -/
theorem Sound.apply (h : c.Sound) (hi : i.Fits c.numQubits c.numClbits) :
    ∃ dag, Circuit.apply i c = .ok () { c with dag } ∧ Sound { c with dag } ∧
      ({ c with dag } : Circuit).instructions = c.instructions ++ [i] := by
  obtain ⟨dag, hrun, hnodes, -⟩ := Dag.Record.Sound.wired h |>.apply (h.check_eq_ok_iff.2 hi)
  change Dag.apply i c.dag = .ok c.dag.nodes.size dag at hrun
  change dag.nodes = c.dag.nodes.push (.op i) at hnodes
  have hops : dag.ops = c.dag.ops ++ [(c.dag.nodes.size, i)] := Dag.ops_of_push hnodes
  refine ⟨dag, ?_, ?_, ?_⟩
  · simp [Circuit.apply, editDag, bind, EStateM.bind, hrun, pure, EStateM.pure]
  · have hstep := Dag.Record.Sound.step h (.apply i)
    simp only [Dag.Record.step, record, hrun] at hstep
    rw [Sound, record, hops]
    exact hstep
  · simp [instructions, hops]

/-- An accepted instruction is the only new node. -/
theorem nodes_of_apply (h : Circuit.apply i c = .ok () c') :
    c'.dag.nodes = c.dag.nodes.push (.op i) := by
  simp only [Circuit.apply, editDag, bind, EStateM.bind] at h
  cases hrun : Dag.apply i c.dag with
  | error e left =>
    rw [hrun] at h
    cases h
  | ok n dag =>
    rw [hrun] at h
    cases h
    exact Dag.nodes_of_apply hrun

/-- An accepted instruction comes behind the others. -/
theorem instructions_of_apply (h : Circuit.apply i c = .ok () c') :
    c'.instructions = c.instructions ++ [i] := by
  simp [instructions, Dag.ops_of_push (nodes_of_apply h), Dag.Node.instruction?]

/-- An instruction that does not fit is refused and leaves the circuit alone. -/
theorem Sound.apply_of_not_fits (h : c.Sound) (hi : ¬i.Fits c.numQubits c.numClbits) :
    ∃ e, Circuit.apply i c = .error e c := by
  cases hcheck : c.dag.check i with
  | ok u => exact absurd (h.check_eq_ok_iff.1 hcheck) hi
  | error e =>
    refine ⟨e, ?_⟩
    simp [Circuit.apply, editDag, bind, EStateM.bind, Dag.apply_of_check_error hcheck]

/-! ## Lists of instructions -/

/-- Instructions are applied one after the other, and the first refusal ends that. -/
theorem forM_apply_cons :
    ((i :: is).forM Circuit.apply) c =
      match Circuit.apply i c with
      | .ok _ c' => (is.forM Circuit.apply) c'
      | .error e c' => .error e c' := by
  change (do Circuit.apply i; is.forM Circuit.apply) c = _
  simp only [bind, EStateM.bind]
  cases Circuit.apply i c <;> rfl

/-- Instructions that fit one by one are accepted one after the other. -/
theorem Sound.forM_apply (h : c.Sound) (his : ∀ i ∈ is, i.Fits c.numQubits c.numClbits) :
    ∃ dag, (is.forM Circuit.apply) c = .ok () { c with dag } ∧ Sound { c with dag } ∧
      ({ c with dag } : Circuit).instructions = c.instructions ++ is := by
  induction is generalizing c with
  | nil => exact ⟨c.dag, rfl, h, by simp⟩
  | cons i is ih =>
    obtain ⟨dag, hrun, hsound, hinstructions⟩ := h.apply (his i List.mem_cons_self)
    obtain ⟨dag', hrun', hsound', hinstructions'⟩ :=
      ih hsound fun j hj => his j (List.mem_cons_of_mem i hj)
    refine ⟨dag', ?_, hsound', ?_⟩
    · rw [forM_apply_cons, hrun]
      exact hrun'
    · rw [hinstructions', hinstructions]
      simp

/-- Only instructions that all fit are accepted. -/
theorem Sound.fits_of_forM_apply (h : c.Sound) (hrun : (is.forM Circuit.apply) c = .ok () c') :
    ∀ i ∈ is, i.Fits c.numQubits c.numClbits := by
  induction is generalizing c with
  | nil => simp
  | cons i is ih =>
    rw [forM_apply_cons] at hrun
    by_cases hi : i.Fits c.numQubits c.numClbits
    · obtain ⟨dag, happly, hsound, -⟩ := h.apply hi
      rw [happly] at hrun
      intro j hj
      rcases List.mem_cons.1 hj with rfl | hj
      · exact hi
      · exact ih hsound hrun j hj
    · obtain ⟨e, happly⟩ := h.apply_of_not_fits hi
      rw [happly] at hrun
      cases hrun

end Circuit

/-! ## Records -/

namespace CircuitRecord

variable {r : CircuitRecord} {c : Circuit}

/-- Records whose instructions all fit are circuits, and no others. -/
theorem exists_toCircuit_iff :
    (∃ c, r.toCircuit = .ok c) ↔ ∀ i ∈ r.instructions, i.Fits r.numQubits r.numClbits := by
  obtain ⟨hsound, -⟩ := Circuit.sound_withSize r.name r.numQubits r.numClbits
  constructor
  · rintro ⟨c, hc⟩
    unfold toCircuit at hc
    split at hc
    · rename_i hrun
      exact hsound.fits_of_forM_apply hrun
    · cases hc
  · intro hfits
    obtain ⟨dag, hrun, -⟩ := hsound.forM_apply hfits
    exact ⟨_, by rw [toCircuit, EStateM.run, hrun]⟩

/-- The circuit of a record has all that the record says. -/
theorem sound_of_toCircuit (h : r.toCircuit = .ok c) : c.Sound ∧ ofCircuit c = r := by
  obtain ⟨hsound, hempty⟩ := Circuit.sound_withSize r.name r.numQubits r.numClbits
  obtain ⟨dag, hrun, hsound', hinstructions⟩ :=
    hsound.forM_apply (exists_toCircuit_iff.1 ⟨c, h⟩)
  rw [toCircuit, EStateM.run, hrun] at h
  obtain rfl := Except.ok.inj h
  refine ⟨hsound', ?_⟩
  rw [ofCircuit, hinstructions, hempty]
  rfl

end CircuitRecord

/-! ## Calls -/

namespace Circuit

variable {c c' : Circuit} {i : Instruction} {is : List Instruction}

/-- The calls that build a circuit. -/
inductive Call where
  | apply (i : Instruction)
  | gate (g : StandardGate) (params : List Float) (qubits : List Nat)
  | h (q : Nat)
  | x (q : Nat)
  | sx (q : Nat)
  | rx (theta : Float) (q : Nat)
  | ry (theta : Float) (q : Nat)
  | rz (theta : Float) (q : Nat)
  | cx (control target : Nat)
  | cz (control target : Nat)
  | ecr (a b : Nat)
  | rxx (theta : Float) (a b : Nat)
  | swap (a b : Nat)
  | ccx (a b target : Nat)
  | measure (q c : Nat)
  | measureAll
  | barrier (qubits : List Nat)

namespace Call

/-- What a call does to a circuit. -/
def run : Call → Edit Unit
  | apply i => Circuit.apply i
  | gate g params qubits => Circuit.gate g params qubits
  | h q => Circuit.h q
  | x q => Circuit.x q
  | sx q => Circuit.sx q
  | rx theta q => Circuit.rx theta q
  | ry theta q => Circuit.ry theta q
  | rz theta q => Circuit.rz theta q
  | cx control target => Circuit.cx control target
  | cz control target => Circuit.cz control target
  | ecr a b => Circuit.ecr a b
  | rxx theta a b => Circuit.rxx theta a b
  | swap a b => Circuit.swap a b
  | ccx a b target => Circuit.ccx a b target
  | measure q c => Circuit.measure q c
  | measureAll => Circuit.measureAll
  | barrier qubits => Circuit.barrier qubits

/-- Durations are words of 64 bits. -/
def InRange : Call → Prop
  | apply i => ∀ d, i.operation = .delay d → d < wordValues 64
  | _ => True

/-- The instructions that a call applies to a circuit of so many qubits, if its angles are right. -/
def instructions (numQubits : Nat) : Call → List Instruction
  | apply i => [i]
  | gate g params qubits => [.ofGate ⟨.standard g, params⟩ qubits]
  | h q => [.ofGate (.zeroed .h) [q]]
  | x q => [.ofGate (.zeroed .x) [q]]
  | sx q => [.ofGate (.zeroed .sx) [q]]
  | rx theta q => [.ofGate ⟨.standard .rx, [theta]⟩ [q]]
  | ry theta q => [.ofGate ⟨.standard .ry, [theta]⟩ [q]]
  | rz theta q => [.ofGate ⟨.standard .rz, [theta]⟩ [q]]
  | cx control target => [.ofGate (.zeroed .cx) [control, target]]
  | cz control target => [.ofGate (.zeroed .cz) [control, target]]
  | ecr a b => [.ofGate (.zeroed .ecr) [a, b]]
  | rxx theta a b => [.ofGate ⟨.standard .rxx, [theta]⟩ [a, b]]
  | swap a b => [.ofGate (.zeroed .swap) [a, b]]
  | ccx a b target => [.ofGate (.zeroed .ccx) [a, b, target]]
  | measure q c => [.measure q c]
  | measureAll => (List.range numQubits).map fun q => .measure q q
  | barrier qubits => [.barrier qubits]

private theorem run_gate {g : StandardGate} {params : List Float} {qubits : List Nat}
    (h : Circuit.gate g params qubits c = .ok () c') :
    Circuit.apply (.ofGate ⟨.standard g, params⟩ qubits) c = .ok () c' := by
  by_cases hlength : params.length = g.numParams
  · rwa [Circuit.gate, Gate.standard, if_pos hlength] at h
  · rw [Circuit.gate, Gate.standard, if_neg hlength] at h
    cases h

private theorem run_measureAll (h : Circuit.measureAll c = .ok () c') :
    (((List.range c.numQubits).map fun q => Instruction.measure q q).forM Circuit.apply) c =
      .ok () c' := by
  rw [List.forM_eq_forM, List.forM_map]
  change forM (List.range c.numQubits) (fun q => Circuit.measure q q) c = _
  by_cases hsmall : c.numClbits < c.numQubits
  · simp [Circuit.measureAll, bind, EStateM.bind, get, getThe, MonadStateOf.get, EStateM.get, hsmall,
      throw, throwThe, MonadExceptOf.throw, EStateM.throw] at h
  · simpa [Circuit.measureAll, bind, EStateM.bind, get, getThe, MonadStateOf.get, EStateM.get,
      hsmall, pure, EStateM.pure] using h

/-- A call that is accepted applies its instructions. -/
theorem forM_apply_of_run {call : Call} (h : call.run c = .ok () c') :
    ((call.instructions c.numQubits).forM Circuit.apply) c = .ok () c' := by
  have hone {i : Instruction} (hi : Circuit.apply i c = .ok () c') :
      ([i].forM Circuit.apply) c = .ok () c' := by
    rw [forM_apply_cons, hi]
    rfl
  cases call with
  | measureAll => exact run_measureAll h
  | gate | rx | ry | rz | rxx => exact hone (run_gate h)
  | _ => exact hone h

/-- The durations in the instructions of a call are words of 64 bits. -/
theorem lt_of_mem_instructions {call : Call} {numQubits d : Nat} (hrange : call.InRange)
    (hi : i ∈ call.instructions numQubits) (hd : i.operation = .delay d) : d < wordValues 64 := by
  cases call with
  | apply j =>
    obtain rfl := List.mem_singleton.1 hi
    exact hrange d hd
  | measureAll =>
    obtain ⟨q, -, rfl⟩ := List.mem_map.1 hi
    cases hd
  | _ =>
    obtain rfl := List.mem_singleton.1 hi
    cases hd

end Call

/-- A circuit that is built by accepted calls; its sizes are words of 32 bits. -/
inductive Built : Circuit → Prop
  | withSize (name : String) {numQubits numClbits : Nat} (hqubits : numQubits < wordValues 32)
      (hclbits : numClbits < wordValues 32) : Built (withSize name numQubits numClbits)
  | call {c c' : Circuit} {call : Call} (h : Built c) (hrange : call.InRange)
      (hrun : call.run c = .ok () c') : Built c'

/-- A circuit that is the replay of its own instructions. -/
structure Replayed (c : Circuit) : Prop where
  numQubits : c.numQubits < wordValues 32
  numClbits : c.numClbits < wordValues 32
  durations : ∀ i ∈ c.instructions, ∀ d, i.operation = .delay d → d < wordValues 64
  toCircuit : (CircuitRecord.ofCircuit c).toCircuit = .ok c

/-- A record is a circuit if all its instructions are accepted in turn. -/
theorem toCircuit_eq_ok_iff {r : CircuitRecord} :
    r.toCircuit = .ok c ↔
      (r.instructions.forM Circuit.apply) (withSize r.name r.numQubits r.numClbits) = .ok () c := by
  unfold CircuitRecord.toCircuit EStateM.run
  cases (r.instructions.forM Circuit.apply) (withSize r.name r.numQubits r.numClbits) <;> simp

private theorem forM_apply_append {c'' : Circuit} {js : List Instruction}
    (h : (is.forM Circuit.apply) c = .ok () c') (h' : (js.forM Circuit.apply) c' = .ok () c'') :
    ((is ++ js).forM Circuit.apply) c = .ok () c'' := by
  rw [List.forM_eq_forM] at *
  rw [List.forM_append]
  simp only [bind, EStateM.bind, h, h']

/-- A circuit without operations is made of its own record. -/
theorem toCircuit_withSize (name : String) (numQubits numClbits : Nat) :
    (CircuitRecord.ofCircuit (withSize name numQubits numClbits)).toCircuit =
      .ok (withSize name numQubits numClbits) := by
  obtain ⟨-, hempty⟩ := sound_withSize name numQubits numClbits
  rw [toCircuit_eq_ok_iff, CircuitRecord.ofCircuit, hempty]
  rfl

/-- An accepted call leaves the replay of its instructions behind those that were
replayed before. -/
theorem toCircuit_of_run {call : Call} (h : (CircuitRecord.ofCircuit c).toCircuit = .ok c)
    (hrun : call.run c = .ok () c') :
    c'.numQubits = c.numQubits ∧ c'.numClbits = c.numClbits ∧
      c'.instructions = c.instructions ++ call.instructions c.numQubits ∧
      (CircuitRecord.ofCircuit c').toCircuit = .ok c' := by
  obtain ⟨hsound, -⟩ := CircuitRecord.sound_of_toCircuit h
  have hcalled := Call.forM_apply_of_run hrun
  obtain ⟨dag, hrun', -, hinstructions⟩ :=
    hsound.forM_apply (hsound.fits_of_forM_apply hcalled)
  obtain ⟨-, rfl⟩ := EStateM.Result.ok.inj (hcalled.symm.trans hrun')
  refine ⟨rfl, rfl, hinstructions, ?_⟩
  rw [toCircuit_eq_ok_iff, CircuitRecord.ofCircuit, hinstructions]
  exact forM_apply_append (toCircuit_eq_ok_iff.1 h) hcalled

private theorem Replayed.call {call : Call} (h : c.Replayed) (hrange : call.InRange)
    (hrun : call.run c = .ok () c') : c'.Replayed := by
  obtain ⟨hqubits, hclbits, hinstructions, hreplay⟩ := toCircuit_of_run h.toCircuit hrun
  refine ⟨hqubits ▸ h.numQubits, hclbits ▸ h.numClbits, fun i hi d hd => ?_, hreplay⟩
  rw [hinstructions] at hi
  rcases List.mem_append.1 hi with hi | hi
  · exact h.durations i hi d hd
  · exact Call.lt_of_mem_instructions hrange hi hd

/-- A circuit that was built is the replay of its instructions. -/
theorem Built.replayed (h : c.Built) : c.Replayed := by
  induction h with
  | @withSize name numQubits numClbits hqubits hclbits =>
    obtain ⟨-, hempty⟩ := sound_withSize name numQubits numClbits
    exact ⟨hqubits, hclbits, by simp [hempty], toCircuit_withSize name numQubits numClbits⟩
  | call _ hrange hrun ih => exact ih.call hrange hrun

end Circuit

end PathSelection
