import PathSelection.Proofs.Circuit.Acceptance

/-!
# Refused operations

The problems of an instruction are a list that its operands and the wires of the
graph give alone: first that of its gate, then those of its qubits and those of
its classical bits from left to right.  A graph refuses an instruction with the
first of them and stays as it was; if there is none, all wires can be spliced.
The calls that build a circuit are refused in the same way.

Main results:

- Theorem `Dag.Record.Sound.check_eq`: an instruction is checked for its problems in their order.
- Theorems `Circuit.Reachable.toCircuit` and `Circuit.Reachable.sound`: every circuit, also one that
  refused calls, is the replay of its instructions and is sound.
- Theorem `Circuit.refusals_after`: what is refused, why, and what remains after it.
-/

namespace PathSelection

/-! ## Problems of an instruction -/

/-- A check that reports the first of some problems. -/
def CircuitError.report : List CircuitError → Except CircuitError Unit
  | [] => .ok ()
  | e :: _ => .error e

namespace CircuitError

private theorem report_append (problems others : List CircuitError) :
    report (problems ++ others) = (do report problems; report others) := by
  cases problems <;> rfl

private theorem report_eq_ok_iff {problems : List CircuitError} :
    report problems = .ok () ↔ problems = [] := by
  cases problems <;> simp [report]

end CircuitError

namespace Instruction

variable {i : Instruction} {wires : List Wire}

/-- The problem of a gate that takes another number of qubits. -/
def arityProblem? (i : Instruction) : Option CircuitError := do
  let g ← i.gate?
  if g.numQubits = i.qubits.length then none
  else some (.qubitCountMismatch g.name g.numQubits i.qubits.length)

/-- The problem of a qubit behind others: it is unknown, or one of them is the same. -/
def qubitProblem? (wires : List Wire) (gate : Option String) (before : List Nat) (q : Nat) :
    Option CircuitError :=
  if .qubit q ∉ wires then some (.qubitNotFound q gate)
  else if q ∈ before then some (.duplicateQubit q gate)
  else none

/-- The problem of an unknown classical bit. -/
def clbitProblem? (wires : List Wire) (gate : Option String) (c : Nat) : Option CircuitError :=
  if .clbit c ∉ wires then some (.clbitNotFound c gate) else none

/-- The problems of qubits behind others, from left to right. -/
def qubitProblems (wires : List Wire) (gate : Option String) (before qubits : List Nat) :
    List CircuitError :=
  (qubits.zipIdx before.length).filterMap fun (q, index) =>
    qubitProblem? wires gate ((before ++ qubits).take index) q

/-- The problems of an instruction in a graph of these wires: that of its gate, then those of its
qubits, then those of its classical bits. -/
def problems (i : Instruction) (wires : List Wire) : List CircuitError :=
  let gate := i.gate?.map Gate.name
  i.arityProblem?.toList ++ qubitProblems wires gate [] i.qubits ++
    i.clbits.filterMap (clbitProblem? wires gate)

private theorem qubitProblems_cons {gate : Option String} {before : List Nat} {q : Nat}
    {qubits : List Nat} :
    qubitProblems wires gate before (q :: qubits) =
      (qubitProblem? wires gate before q).toList ++
        qubitProblems wires gate (before ++ [q]) qubits := by
  have htake : (before ++ q :: qubits).take before.length = before := by simp
  simp only [qubitProblems, List.zipIdx_cons, List.filterMap_cons, htake, List.append_assoc,
    List.singleton_append, List.length_append, List.length_singleton]
  cases qubitProblem? wires gate before q <;> rfl

/-- No problem is one of the structure of a graph. -/
theorem not_mem_problems_invalidGraph (reason : String) :
    .invalidGraph reason ∉ i.problems wires := by
  simp only [problems, arityProblem?, qubitProblems, qubitProblem?, clbitProblem?,
    List.mem_append, List.mem_filterMap, Option.mem_toList, not_or]
  refine ⟨⟨?_, ?_⟩, ?_⟩
  · cases i.gate? with
    | none => simp
    | some g => simp
  · rintro ⟨q, -, hq⟩
    split at hq
    · cases hq
    · split at hq <;> cases hq
  · rintro ⟨c, -, hc⟩
    split at hc <;> cases hc

end Instruction

/-! ## Refusals of a graph -/

namespace Dag

variable {d : Dag} {i : Instruction} {wires : List Wire}

private theorem checkArity_eq : checkArity i = CircuitError.report i.arityProblem?.toList := by
  simp only [checkArity, Instruction.arityProblem?]
  cases i.gate? with
  | none => rfl
  | some g => by_cases h : g.numQubits = i.qubits.length <;> simp [h, CircuitError.report]

/-- Qubits are checked for their problems from left to right. -/
theorem checkQubits_eq {gate : Option String} {seen before qubits : List Nat}
    (hwires : ∀ w, d.hasWire w = true ↔ w ∈ wires) (hseen : ∀ q, q ∈ seen ↔ q ∈ before) :
    d.checkQubits gate seen qubits =
      CircuitError.report (Instruction.qubitProblems wires gate before qubits) := by
  induction qubits generalizing seen before with
  | nil => rfl
  | cons q qubits ih =>
    rw [Instruction.qubitProblems_cons, checkQubits, Instruction.qubitProblem?]
    by_cases hwire : .qubit q ∈ wires
    · by_cases hq : q ∈ before
      · simp [(hwires _).2 hwire, hwire, (hseen q).2 hq, hq, CircuitError.report]
      · have hrest : ∀ p, p ∈ q :: seen ↔ p ∈ before ++ [q] := by
          intro p
          rw [List.mem_cons, List.mem_append, List.mem_singleton, hseen, or_comm]
        simp [(hwires _).2 hwire, hwire, mt (hseen q).1 hq, hq, ih hrest]
    · simp [mt (hwires _).1 hwire, hwire, CircuitError.report]

private theorem checkClbits_eq {gate : Option String} {clbits : List Nat}
    (hwires : ∀ w, d.hasWire w = true ↔ w ∈ wires) :
    d.checkClbits gate clbits =
      CircuitError.report (clbits.filterMap (Instruction.clbitProblem? wires gate)) := by
  induction clbits with
  | nil => rfl
  | cons c clbits ih =>
    rw [checkClbits, List.filterMap_cons, Instruction.clbitProblem?]
    by_cases hwire : .clbit c ∈ wires
    · simp [(hwires _).2 hwire, hwire, ih]
    · simp [mt (hwires _).1 hwire, hwire, CircuitError.report]

namespace Record

variable {r : Record}

/-- An instruction is checked for its problems in their order. -/
theorem Sound.check_eq (h : r.Sound) :
    r.graph.check i = CircuitError.report (i.problems r.wires) := by
  have hseen : ∀ q, q ∈ ([] : List Nat) ↔ q ∈ ([] : List Nat) := fun q => Iff.rfl
  rw [check, checkArity_eq, checkQubits_eq h.wires hseen,
    checkClbits_eq h.wires, Instruction.problems, CircuitError.report_append,
    CircuitError.report_append, bind_assoc]

/-- An instruction is refused with its first problem, and the graph stays as it was. -/
theorem Sound.apply_of_problems (h : r.Sound) {first : CircuitError} {others : List CircuitError}
    (hproblems : i.problems r.wires = first :: others) :
    Dag.apply i r.graph = .error first r.graph := by
  apply apply_of_check_error
  rw [h.check_eq, hproblems]
  rfl

/-- An instruction without problems has all its wires spliced; any other is refused. -/
theorem Sound.apply_eq_error_iff (h : r.Sound) {e : CircuitError} {d : Dag} :
    Dag.apply i r.graph = .error e d ↔ (i.problems r.wires).head? = some e ∧ d = r.graph := by
  cases hproblems : i.problems r.wires with
  | nil =>
    have hcheck : r.graph.check i = .ok () := by
      rw [h.check_eq, hproblems]
      rfl
    obtain ⟨d', hrun, -⟩ := h.wired.apply hcheck
    simp [hrun]
  | cons first others =>
    rw [h.apply_of_problems hproblems]
    simp [eq_comm]

/-- A gate has the wrong number of qubits, or a bit is unknown, or a qubit is repeated. -/
theorem Sound.problems_ne_nil_iff (h : r.Sound) :
    i.problems r.wires ≠ [] ↔
      (∃ g, i.gate? = some g ∧ g.numQubits ≠ i.qubits.length) ∨
        (∃ q ∈ i.qubits, .qubit q ∉ r.wires) ∨ ¬i.qubits.Nodup ∨
          ∃ c ∈ i.clbits, .clbit c ∉ r.wires := by
  rw [ne_eq, ← CircuitError.report_eq_ok_iff, ← h.check_eq, check_eq_ok_iff]
  simp only [h.wires, Instruction.wires, List.mem_append, List.mem_map]
  grind

end Record

end Dag

/-! ## Refusals of a circuit -/

namespace Circuit

variable {c c' : Circuit} {e : CircuitError} {call : Call}

/-- A circuit with its wires; calls are accepted or refused, and building goes on in either case. -/
inductive Reachable : Circuit → Prop
  | withSize (name : String) (numQubits numClbits : Nat) :
    Reachable (withSize name numQubits numClbits)
  | ofText {text : String} {c : Circuit} (h : ofText text = .ok c) : Reachable c
  | accepted {c c' : Circuit} {call : Call} (h : Reachable c) (hrun : call.run c = .ok () c') :
    Reachable c'
  | refused {c c' : Circuit} {call : Call} {e : CircuitError} (h : Reachable c)
    (hrun : call.run c = .error e c') : Reachable c'

/-- The problems of a call.  A gate needs its number of angles before its operands are looked at,
and all qubits can be measured if there are as many classical bits. -/
def Call.problems (c : Circuit) : Call → List CircuitError
  | .gate g params qubits =>
    (if params.length = g.numParams then []
      else [.parameterCountMismatch g.name g.numParams params.length]) ++
        (Instruction.ofGate ⟨.standard g, params⟩ qubits).problems c.record.wires
  | .measureAll =>
    if c.numClbits < c.numQubits then
      [.invalidGraph
        s!"measure_all needs {c.numQubits} classical bits, circuit has {c.numClbits}"]
    else []
  | call => (call.instructions c.numQubits).flatMap (·.problems c.record.wires)

/-- What has no problems fits. -/
theorem Sound.problems_eq_nil_iff (h : c.Sound) {i : Instruction} :
    i.problems c.record.wires = [] ↔ i.Fits c.numQubits c.numClbits := by
  rw [← h.check_eq_ok_iff, ← CircuitError.report_eq_ok_iff]
  exact iff_of_eq (congrArg (· = .ok ()) (Dag.Record.Sound.check_eq h).symm)

/-- A circuit refuses an instruction as its graph does. -/
theorem Sound.apply_eq_error_iff (h : c.Sound) {i : Instruction} :
    Circuit.apply i c = .error e c' ↔
      (i.problems c.record.wires).head? = some e ∧ c' = c := by
  cases hproblems : i.problems c.record.wires with
  | nil =>
    obtain ⟨dag, hrun, -⟩ := h.apply (h.problems_eq_nil_iff.1 hproblems)
    simp [hrun]
  | cons first others =>
    have hdag : Dag.apply i c.dag = .error first c.dag :=
      Dag.Record.Sound.apply_of_problems h hproblems
    have hrun : Circuit.apply i c = .error first c := by
      simp [Circuit.apply, editDag, bind, EStateM.bind, hdag]
    simp [hrun, eq_comm]

/-- All qubits can be measured if there are as many classical bits. -/
theorem Sound.measureAll_eq_error_iff (h : c.Sound) :
    Circuit.measureAll c = .error e c' ↔ (Call.problems c .measureAll).head? = some e ∧ c' = c := by
  by_cases hsmall : c.numClbits < c.numQubits
  · simp [Circuit.measureAll, Call.problems, bind, EStateM.bind, get, getThe, MonadStateOf.get,
      EStateM.get, hsmall, throw, throwThe, MonadExceptOf.throw, EStateM.throw, eq_comm]
  · have hfits : ∀ i ∈ Call.instructions c.numQubits .measureAll,
        i.Fits c.numQubits c.numClbits := by
      intro i hi
      obtain ⟨q, hq, rfl⟩ := List.mem_map.1 hi
      have hq := List.mem_range.1 hq
      have hclbit := hq.trans_le (Nat.le_of_not_lt hsmall)
      exact ⟨by simp [Instruction.measure, Instruction.gate?], by simpa [Instruction.measure],
        by simpa [Instruction.measure], by simp [Instruction.measure]⟩
    obtain ⟨dag, hrun, -⟩ := h.forM_apply hfits
    have hmeasured : Circuit.measureAll c = .ok () { c with dag } := by
      rw [Call.instructions, List.forM_eq_forM, List.forM_map] at hrun
      change forM (List.range c.numQubits) (fun q => Circuit.measure q q) c = _ at hrun
      simpa [Circuit.measureAll, bind, EStateM.bind, get, getThe, MonadStateOf.get, EStateM.get,
        hsmall, pure, EStateM.pure] using hrun
    simp [hmeasured, Call.problems, hsmall]

/-- A call is refused with its first problem, and the circuit stays as it was. -/
theorem Sound.run_eq_error_iff (h : c.Sound) :
    call.run c = .error e c' ↔ (call.problems c).head? = some e ∧ c' = c := by
  cases call with
  | gate g params qubits =>
    simp only [Call.run, Circuit.gate, Gate.standard, Call.problems]
    by_cases hlength : params.length = g.numParams
    · simp only [if_pos hlength, List.nil_append]
      exact h.apply_eq_error_iff
    · simp [hlength, throw, throwThe, MonadExceptOf.throw, EStateM.throw, eq_comm]
  | measureAll => exact h.measureAll_eq_error_iff
  | _ =>
    simp only [Call.problems, Call.instructions, List.flatMap_singleton]
    exact h.apply_eq_error_iff

/-- An accepted call adds its instructions behind all others. -/
theorem Sound.of_run (h : c.Sound) (hrun : call.run c = .ok () c') :
    c'.Sound ∧ c'.numQubits = c.numQubits ∧ c'.numClbits = c.numClbits ∧
      c'.instructions = c.instructions ++ call.instructions c.numQubits := by
  have hcalled := Call.forM_apply_of_run hrun
  obtain ⟨dag, hrun', hsound, hinstructions⟩ :=
    h.forM_apply (h.fits_of_forM_apply hcalled)
  obtain ⟨-, rfl⟩ := EStateM.Result.ok.inj (hcalled.symm.trans hrun')
  exact ⟨hsound, rfl, rfl, hinstructions⟩

/-- Every circuit is the replay of its instructions, also one that refused calls. -/
theorem Reachable.toCircuit (h : c.Reachable) :
    (CircuitRecord.ofCircuit c).toCircuit = .ok c := by
  induction h with
  | withSize name numQubits numClbits => exact toCircuit_withSize name numQubits numClbits
  | ofText h =>
    obtain ⟨f, -, is, -, hcircuit⟩ := ofText_eq_ok_iff.1 h
    obtain ⟨-, hrecord⟩ := CircuitRecord.sound_of_toCircuit hcircuit
    rwa [hrecord]
  | accepted _ hrun ih => exact (toCircuit_of_run ih hrun).2.2.2
  | refused _ hrun ih =>
    obtain ⟨hsound, -⟩ := CircuitRecord.sound_of_toCircuit ih
    obtain ⟨-, rfl⟩ := hsound.run_eq_error_iff.1 hrun
    exact ih

/-- Every circuit is sound, also one that refused calls. -/
theorem Reachable.sound (h : c.Reachable) : c.Sound :=
  (CircuitRecord.sound_of_toCircuit h.toCircuit).1

/-- Instructions that are accepted lead from circuit to circuit. -/
theorem Reachable.of_forM_apply {is : List Instruction} (h : c.Reachable)
    (hrun : (is.forM Circuit.apply) c = .ok () c') : c'.Reachable := by
  induction is generalizing c with
  | nil =>
    cases hrun
    exact h
  | cons i is ih =>
    rw [forM_apply_cons] at hrun
    cases hfirst : Circuit.apply i c with
    | error e left =>
      rw [hfirst] at hrun
      cases hrun
    | ok u next =>
      rw [hfirst] at hrun
      have hcall : (Call.apply i).run c = .ok () next := hfirst
      exact ih (.accepted h hcall) hrun

/-- Any call but that for all qubits applies one instruction. -/
theorem Call.length_instructions (h : call ≠ .measureAll) (numQubits : Nat) :
    (call.instructions numQubits).length = 1 := by
  cases call with
  | measureAll => exact absurd rfl h
  | _ => rfl

/-- What is refused, why, and what remains after it.  A graph refuses an instruction exactly if its
gate takes another number of qubits, a qubit is unknown or repeated or a classical bit is unknown.
It answers with the first problem, which is never one of the structure of the graph, and stays as it
was.  A circuit that refuses a call stays as it was.  An accepted call adds one operation, but that
for all qubits adds one measurement for each; it is refused exactly if there are fewer classical
bits than qubits. -/
theorem refusals_after :
    (∀ (requests : List Dag.Request) (i : Instruction),
      ((∃ e d, Dag.apply i (Dag.Record.after requests).graph = .error e d) ↔
        (∃ g, i.gate? = some g ∧ g.numQubits ≠ i.qubits.length) ∨
          (∃ q ∈ i.qubits, .qubit q ∉ (Dag.Record.after requests).wires) ∨ ¬i.qubits.Nodup ∨
            ∃ b ∈ i.clbits, .clbit b ∉ (Dag.Record.after requests).wires) ∧
      (∀ e d, Dag.apply i (Dag.Record.after requests).graph = .error e d ↔
        (i.problems (Dag.Record.after requests).wires).head? = some e ∧
          d = (Dag.Record.after requests).graph) ∧
      ∀ reason d, Dag.apply i (Dag.Record.after requests).graph ≠
        .error (.invalidGraph reason) d) ∧
    ∀ c : Circuit, c.Reachable →
      (∀ (call : Call) e c', call.run c = .error e c' ↔
        (call.problems c).head? = some e ∧ c' = c) ∧
      (∀ (call : Call) c', call.run c = .ok () c' →
        c'.numQubits = c.numQubits ∧ c'.numClbits = c.numClbits ∧
        c'.instructions = c.instructions ++ call.instructions c.numQubits ∧
        (call ≠ .measureAll → c'.numOps = c.numOps + 1) ∧
        (call = .measureAll → c'.numOps = c.numOps + c.numQubits ∧
          c'.instructions = c.instructions ++
            (List.range c.numQubits).map fun q => .measure q q)) ∧
      ((∃ e c', Circuit.measureAll c = .error e c') ↔ c.numClbits < c.numQubits) := by
  constructor
  · intro requests i
    have h := Dag.Record.sound_after requests
    refine ⟨?_, fun e d => h.apply_eq_error_iff, fun reason d hrun => ?_⟩
    · rw [← h.problems_ne_nil_iff]
      simp only [h.apply_eq_error_iff, exists_and_left, exists_eq, and_true]
      cases i.problems (Dag.Record.after requests).wires <;> simp
    · obtain ⟨hfirst, -⟩ := h.apply_eq_error_iff.1 hrun
      exact i.not_mem_problems_invalidGraph reason (List.mem_of_mem_head? hfirst)
  · intro c hc
    have h := hc.sound
    refine ⟨fun call e c' => h.run_eq_error_iff, fun call c' hrun => ?_, ?_⟩
    · obtain ⟨hsound, hqubits, hclbits, hinstructions⟩ := h.of_run hrun
      have hcount : c'.numOps = c.numOps + (call.instructions c.numQubits).length := by
        rw [hsound.numOps_eq, h.numOps_eq, hinstructions, List.length_append]
      refine ⟨hqubits, hclbits, hinstructions, fun hne => ?_, ?_⟩
      · rw [hcount, Call.length_instructions hne]
      · rintro rfl
        exact ⟨by simpa [Call.instructions] using hcount, hinstructions⟩
    · simp only [h.measureAll_eq_error_iff, Call.problems]
      by_cases hsmall : c.numClbits < c.numQubits <;> simp [hsmall]

/-- On two qubits and one classical bit a gate that names a qubit twice is refused for it, but for
an unknown qubit if that comes first.  All qubits cannot be measured; one can. -/
theorem refusals_after_pair :
    let c := withSize "pair" 2 1
    (Call.cx 1 1).run c = .error (.duplicateQubit 1 (some "cx")) c ∧
      (Call.ccx 2 1 1).run c = .error (.qubitNotFound 2 (some "ccx")) c ∧
      (∃ e c', Circuit.measureAll c = .error e c') ∧
      ∀ c', (Call.measure 1 0).run c = .ok () c' → c'.numOps = c.numOps + 1 := by
  intro c
  obtain ⟨hrefused, haccepted, hall⟩ := refusals_after.2 c (.withSize "pair" 2 1)
  refine ⟨(hrefused _ _ _).2 ⟨rfl, rfl⟩, (hrefused _ _ _).2 ⟨rfl, rfl⟩, ?_, ?_⟩
  · exact hall.2 (by decide)
  · intro c' hrun
    obtain ⟨-, -, -, hone, -⟩ := haccepted _ _ hrun
    exact hone (by simp)

end Circuit

end PathSelection
