import PathSelection.Proofs.Circuit.Acceptance

/-!
# Circuits that are read back

A circuit is written with the names of its operations, and what is read from a
name is a standard gate, a reserved operation or a custom gate.  So a circuit is
read back exactly if its angles can be written and its names say what its gates
are.

Main results:

- Theorem `InstructionRecord.recordOf_toJson_eq_ok_iff`: the records that are read back.
- Theorem `Instruction.toInstruction_ofInstruction`: the instructions that are read back.
- Theorem `Circuit.ofText_toText_iff`: the circuits that are read back.
-/

namespace PathSelection

/-- A gate that a document can hold: its angles are finite, a standard gate has as many of them as
it takes, and a custom gate bears no other meaning's name. -/
structure Gate.Representable (g : Gate) : Prop where
  finite : ∀ x ∈ g.params, Float.finite x = true
  standard : ∀ gate, g.kind = .standard gate → g.params.length = gate.numParams
  custom : ∀ name n, g.kind = .custom name n →
    name ∉ ["measure", "reset", "barrier", "delay"] ∧ ∀ gate : StandardGate, gate.name ≠ name

/-- A circuit all of whose gates a document can hold. -/
def Circuit.Representable (c : Circuit) : Prop :=
  ∀ i ∈ c.instructions, ∀ g, i.gate? = some g → g.Representable

/-! ## Records that are read back -/

namespace InstructionRecord

variable {r r' : InstructionRecord}

/-- A record whose numbers can be written and are in their ranges. -/
structure Writable (r : InstructionRecord) : Prop where
  qubits : ∀ q ∈ r.qubits, q < wordValues 32
  clbits : ∀ c ∈ r.clbits, c < wordValues 32
  params : ∀ x ∈ r.params, Float.finite x = true
  duration : ∀ d ∈ r.duration, d < wordValues 64

/-- What is written for a list that may be left out. -/
def written? {α : Type} (write : α → Json) (xs : List α) : Option Json :=
  if xs.isEmpty then none else some (.list write xs)

/-- What is written for each field of a record. -/
theorem lookup_toJson (r : InstructionRecord) :
    ∃ fields, r.toJson = .record fields ∧ (fields.map (·.1)).Nodup ∧
      fields.lookup "op" = some (.text r.op) ∧
      fields.lookup "qubits" = some (.list .nat r.qubits) ∧
      fields.lookup "clbits" = written? .nat r.clbits ∧
      fields.lookup "params" = written? .scalar r.params ∧
      fields.lookup "duration" = r.duration.map .nat := by
  refine ⟨_, rfl, ?_⟩
  obtain ⟨op, qubits, clbits, params, duration⟩ := r
  cases clbits <;> cases params <;> cases duration <;>
    exact ⟨by simp [nonEmptyField], rfl, rfl, rfl, rfl, rfl⟩

/-- A list that may be left out is read from what was written for it. -/
theorem read_written?_eq_ok_iff {α β : Type} {write : α → Json} {item : Json.Decoder β}
    {xs : List α} {ys : List β} {fields : List (String × Json)} {name complete : String}
    {index : Nat} (hnodup : (fields.map (·.1)).Nodup) (h : fields.lookup name = written? write xs) :
    (Json.Fields.defaulted name [] (Json.Decoder.listOf item)).read complete
        (.object (fields.map fun (name, v) => (some name, v))) index = .ok ys ↔
      List.Forall₂ (fun x y => item (write x) = .ok y) xs ys := by
  rw [Json.Fields.defaulted, Json.Fields.read_field_record_eq_ok_iff hnodup, h]
  cases xs with
  | nil => simp [written?, eq_comm]
  | cons x xs => exact Json.Decoder.listOf_list_eq_ok_iff

/-- A traversal that checks each item and keeps it. -/
theorem forall₂_and_eq_iff {α : Type} {p : α → Prop} {xs ys : List α} :
    List.Forall₂ (fun x y => p x ∧ x = y) xs ys ↔ (∀ x ∈ xs, p x) ∧ xs = ys := by
  constructor
  · intro h
    induction h with
    | nil => simp
    | cons hhead _ ih =>
      obtain ⟨hp, rfl⟩ := hhead
      exact ⟨List.forall_mem_cons.2 ⟨hp, ih.1⟩, by rw [ih.2]⟩
  · rintro ⟨hp, rfl⟩
    exact List.forall₂_same.2 fun x hx => ⟨hp x hx, rfl⟩

/-- The records that are read back are those that can be written. -/
theorem recordOf_toJson_eq_ok_iff :
    Json.recordOf "InstructionDocument" fields r.toJson = .ok r' ↔ r.Writable ∧ r = r' := by
  obtain ⟨written, htoJson, hnodup, hop, hqubits, hclbits, hparams, hduration⟩ := lookup_toJson r
  have hdurations {d : Option Nat} :
      (r.duration.map Json.nat).elim (some none = some d)
        (Json.Decoder.nullable Json.Decoder.u64 · = .ok d) ↔
          (∀ n ∈ r.duration, n < wordValues 64) ∧ r.duration = d := by
    cases r.duration with
    | none => simp
    | some n =>
      have hne : Json.nat n ≠ .null := by simp [Json.nat]
      simp only [Option.map_some, Option.elim_some, Json.Decoder.nullable_eq_ok_iff, hne, ne_eq,
        not_false_eq_true, false_and, false_or, true_and, Json.Decoder.u64_nat_eq_ok_iff]
      simp [eq_comm (a := d)]
  rw [htoJson, Json.recordOf_record_eq_ok_iff, fields, Json.Fields.read_seq₅_eq_ok_iff]
  simp only [read_written?_eq_ok_iff hnodup hclbits, read_written?_eq_ok_iff hnodup hparams,
    Json.Decoder.number_scalar_eq_ok_iff, Json.Decoder.u32_nat_eq_ok_iff, forall₂_and_eq_iff]
  simp only [Json.Fields.required, Json.Fields.defaulted,
    Json.Fields.read_field_record_eq_ok_iff hnodup, hop, hqubits, hduration, Option.elim_some,
    Json.Decoder.listOf_list_eq_ok_iff, Json.Decoder.u32_nat_eq_ok_iff, forall₂_and_eq_iff,
    Json.Decoder.text_text, Except.ok.injEq]
  constructor
  · rintro ⟨op, qubits, clbits, params, duration, rfl, ⟨hq, rfl⟩, ⟨hc, rfl⟩, ⟨hp, rfl⟩, hread, rfl⟩
    obtain ⟨hd, rfl⟩ := hdurations.1 hread
    exact ⟨⟨hq, hc, hp, hd⟩, rfl⟩
  · rintro ⟨⟨hq, hc, hp, hd⟩, rfl⟩
    exact ⟨_, _, _, _, _, rfl, ⟨hq, rfl⟩, ⟨hc, rfl⟩, ⟨hp, rfl⟩, hdurations.2 ⟨hd, rfl⟩, rfl⟩

end InstructionRecord

/-! ## Instructions that are read back -/

private theorem isReserved_standard (gate : StandardGate) :
    InstructionRecord.isReserved gate.name = false := by
  cases gate <;> decide

private theorem ofName?_eq_none_iff {name : String} :
    StandardGate.ofName? name = none ↔ ∀ gate : StandardGate, gate.name ≠ name := by
  simp only [Option.eq_none_iff_forall_ne_some, ne_eq, StandardGate.ofName?_eq_some_iff]

namespace InstructionRecord

variable {r : InstructionRecord} {g : Gate} {i : Instruction}

/-- A gate that is read from a record with finite angles can be represented. -/
theorem representable_of_operation (h : r.operation = .ok (.gate g))
    (hfinite : ∀ x ∈ r.params, Float.finite x = true) :
    g.Representable ∧ g.params = r.params := by
  cases hreserved : isReserved r.op with
  | true =>
    obtain ⟨operation, hread, hnone⟩ := operation_of_isReserved hreserved
    exact absurd (Except.ok.inj (hread.symm.trans h)) (hnone g)
  | false =>
    rw [operation_of_not_isReserved hreserved] at h
    cases hname : StandardGate.ofName? r.op with
    | some gate =>
      simp only [hname, Gate.standard] at h
      split_ifs at h with hlength
      · obtain rfl := Operation.gate.inj (Except.ok.inj h)
        refine ⟨⟨hfinite, fun gate' hgate' => ?_, fun name n hcustom => ?_⟩, rfl⟩
        · obtain rfl := GateKind.standard.inj hgate'
          exact hlength
        · cases hcustom
      · cases h
    | none =>
      simp only [hname] at h
      obtain rfl := Operation.gate.inj (Except.ok.inj h)
      refine ⟨⟨hfinite, fun gate' hgate' => ?_, fun name n hcustom => ?_⟩, rfl⟩
      · cases hgate'
      · obtain ⟨rfl, -⟩ := GateKind.custom.inj hcustom
        exact ⟨of_decide_eq_false hreserved, ofName?_eq_none_iff.1 hname⟩

/-- The duration of a delay is that of its record. -/
theorem duration_of_operation {d : Nat} (h : r.operation = .ok (.delay d)) :
    d = r.duration.getD 0 := by
  cases hreserved : isReserved r.op with
  | true =>
    unfold operation at h
    split_ifs at h
    · cases h
    · cases h
    · cases h
    · exact (Operation.delay.inj (Except.ok.inj h)).symm
    · simp_all [isReserved]
  | false =>
    rw [operation_of_not_isReserved hreserved] at h
    cases hname : StandardGate.ofName? r.op with
    | some gate =>
      simp only [hname, Gate.standard] at h
      split_ifs at h <;> cases h
    | none =>
      simp only [hname] at h
      cases h

private theorem params_ofInstruction (h : i.gate? = some g) :
    (ofInstruction i).params = g.params := by
  obtain ⟨operation, qubits, clbits⟩ := i
  cases operation with
  | gate g' =>
    obtain rfl := Option.some.inj h
    rfl
  | _ => cases h

end InstructionRecord

namespace Instruction

variable {i i' : Instruction} {numQubits numClbits : Nat}

private theorem operation_of_gate? {g : Gate} (h : i.gate? = some g) : i.operation = .gate g := by
  unfold gate? at h
  split at h
  · rename_i heq
    rw [heq, Option.some.inj h]
  · cases h

/-- The kind of the gate of an instruction, if it has one. -/
def gateKind? (i : Instruction) : Option GateKind := i.gate?.map Gate.kind

/-- The operation that is read from the record of a gate. -/
theorem operation_ofInstruction_gate (g : Gate) {qubits clbits : List Nat}
    (h : InstructionRecord.isReserved g.name = false) :
    (InstructionRecord.ofInstruction ⟨.gate g, qubits, clbits⟩).operation =
      match StandardGate.ofName? g.name with
      | some gate => (Gate.standard gate g.params).map .gate
      | none => .ok (.gate (.custom g.name qubits.length g.params)) :=
  InstructionRecord.operation_of_not_isReserved h

/-- An instruction that fits is read back from its record if its gate can be represented. -/
theorem toInstruction_ofInstruction (h : i.Fits numQubits numClbits)
    (hgate : ∀ g, i.gate? = some g → g.Representable) :
    (InstructionRecord.ofInstruction i).toInstruction = .ok i := by
  rw [InstructionRecord.toInstruction_eq_ok_iff]
  refine ⟨?_, rfl, rfl⟩
  obtain ⟨operation, qubits, clbits⟩ := i
  cases operation with
  | gate g =>
    obtain ⟨kind, params⟩ := g
    obtain ⟨-, hstandard, hcustom⟩ := hgate _ rfl
    cases kind with
    | standard gate =>
      have hname : StandardGate.ofName? (Gate.name ⟨.standard gate, params⟩) = some gate :=
        StandardGate.ofName?_name gate
      have hlength : params.length = gate.numParams := hstandard gate rfl
      rw [operation_ofInstruction_gate ⟨.standard gate, params⟩ (isReserved_standard gate), hname]
      simp only [Gate.standard, if_pos hlength]
      rfl
    | custom name n =>
      obtain ⟨hreserved, hothers⟩ := hcustom name n rfl
      have hname : StandardGate.ofName? (Gate.name ⟨.custom name n, params⟩) = none :=
        ofName?_eq_none_iff.2 hothers
      have harity : n = qubits.length := h.arity _ rfl
      rw [operation_ofInstruction_gate ⟨.custom name n, params⟩ (decide_eq_false hreserved), hname,
        harity]
      rfl
  | _ => rfl

/-- If an instruction is read from its record with the same kind of gate, then its gate can be
represented, as far as its angles are finite. -/
theorem representable_of_toInstruction
    (h : (InstructionRecord.ofInstruction i).toInstruction = .ok i')
    (hkind : i'.gateKind? = i.gateKind?) {g : Gate} (hg : i.gate? = some g)
    (hfinite : ∀ x ∈ g.params, Float.finite x = true) : g.Representable := by
  obtain ⟨hoperation, -, -⟩ := InstructionRecord.toInstruction_eq_ok_iff.1 h
  have hparams := InstructionRecord.params_ofInstruction hg
  rw [gateKind?, gateKind?, hg, Option.map_some, Option.map_eq_some_iff] at hkind
  obtain ⟨g', hg', hkind⟩ := hkind
  obtain ⟨hrepresentable, hparams'⟩ := InstructionRecord.representable_of_operation
    (hoperation.trans (congrArg Except.ok (operation_of_gate? hg'))) (hparams ▸ hfinite)
  -- The gate that was read has the same kind and the same angles.
  obtain ⟨kind, params⟩ := g
  obtain ⟨kind', params'⟩ := g'
  obtain rfl : kind' = kind := hkind
  obtain rfl : params' = params := hparams'.trans hparams
  exact hrepresentable

end Instruction

/-! ## Circuits that are read back -/

namespace CircuitRecord

/-- What is written for each field of a circuit. -/
def written (r : CircuitRecord) : List (String × Json) :=
  [("name", .text r.name), ("num_qubits", .nat r.numQubits), ("num_clbits", .nat r.numClbits),
    ("instructions", .list Instruction.toJson r.instructions)]

private theorem toJson_eq (r : CircuitRecord) : r.toJson = .record r.written := rfl

private theorem lookup_name (r : CircuitRecord) : r.written.lookup "name" = some (.text r.name) :=
  rfl

private theorem lookup_num_qubits (r : CircuitRecord) :
    r.written.lookup "num_qubits" = some (.nat r.numQubits) := rfl

private theorem lookup_num_clbits (r : CircuitRecord) :
    r.written.lookup "num_clbits" = some (.nat r.numClbits) := rfl

private theorem lookup_instructions (r : CircuitRecord) :
    r.written.lookup "instructions" = some (.list Instruction.toJson r.instructions) := rfl

end CircuitRecord

namespace CircuitForm

/-- The form that a written circuit holds, if its numbers can be written and are in their ranges. -/
theorem decoder_toJson_eq_ok_iff {r : CircuitRecord} {f : CircuitForm} :
    decoder r.toJson = .ok f ↔
      r.numQubits < wordValues 32 ∧ r.numClbits < wordValues 32 ∧
        (∀ i ∈ r.instructions, (InstructionRecord.ofInstruction i).Writable) ∧
        ⟨r.name, r.numQubits, r.numClbits,
          r.instructions.map InstructionRecord.ofInstruction⟩ = f := by
  have hrecords {records : List InstructionRecord} :
      List.Forall₂ (fun i record => Json.recordOf "InstructionDocument" InstructionRecord.fields
          (Instruction.toJson i) = .ok record) r.instructions records ↔
        (∀ i ∈ r.instructions, (InstructionRecord.ofInstruction i).Writable) ∧
          r.instructions.map InstructionRecord.ofInstruction = records := by
    simp only [Instruction.toJson, InstructionRecord.recordOf_toJson_eq_ok_iff]
    rw [← List.forall₂_map_left_iff (f := InstructionRecord.ofInstruction)
      (R := fun a b => InstructionRecord.Writable a ∧ a = b),
      InstructionRecord.forall₂_and_eq_iff]
    simp
  have hnodup : (r.written.map (·.1)).Nodup := by simp [CircuitRecord.written]
  rw [decoder, CircuitRecord.toJson_eq, Json.recordOf_record_eq_ok_iff, fields,
    Json.Fields.read_seq₄_eq_ok_iff]
  simp only [Json.Fields.required, Json.Fields.defaulted,
    Json.Fields.read_field_written_eq_ok_iff hnodup r.lookup_name,
    Json.Fields.read_field_written_eq_ok_iff hnodup r.lookup_num_qubits,
    Json.Fields.read_field_written_eq_ok_iff hnodup r.lookup_num_clbits,
    Json.Fields.read_field_written_eq_ok_iff hnodup r.lookup_instructions,
    Json.Decoder.text_text, Json.Decoder.u32_nat_eq_ok_iff, Json.Decoder.listOf_list_eq_ok_iff,
    hrecords, Except.ok.injEq]
  constructor
  · rintro ⟨name, numQubits, numClbits, records, rfl, ⟨hq, rfl⟩, ⟨hc, rfl⟩, ⟨hi, rfl⟩, rfl⟩
    exact ⟨hq, hc, hi, rfl⟩
  · rintro ⟨hq, hc, hi, rfl⟩
    exact ⟨_, _, _, _, rfl, ⟨hq, rfl⟩, ⟨hc, rfl⟩, ⟨hi, rfl⟩, rfl⟩

end CircuitForm

/-! Equality as the program has it: doubles are compared by value. -/

deriving instance BEq for Gate, Operation, Instruction

namespace Instruction

/-- Equal instructions have gates of the same kind. -/
theorem gateKind?_of_beq {i j : Instruction} (h : (i == j) = true) :
    i.gateKind? = j.gateKind? := by
  obtain ⟨operation, qubits, clbits⟩ := i
  obtain ⟨operation', qubits', clbits'⟩ := j
  have hoperation : instBEqOperation.beq operation operation' = true := by
    simp only [BEq.beq, instBEqInstruction.beq, Bool.and_eq_true] at h
    exact h.1
  cases operation with
  | gate g =>
    cases operation' with
    | gate g' =>
      have hkind : g.kind = g'.kind := by
        simp only [instBEqOperation.beq, BEq.beq, instBEqGate.beq, Bool.and_eq_true,
          decide_eq_true_eq] at hoperation
        exact hoperation.1
      simp [gateKind?, gate?, hkind]
    | _ => cases hoperation
  | _ =>
    cases operation' with
    | gate g' => cases hoperation
    | _ => rfl

private theorem map_gateKind?_of_beq {is js : List Instruction} (h : (is == js) = true) :
    is.map gateKind? = js.map gateKind? := by
  induction is generalizing js with
  | nil =>
    cases js with
    | nil => rfl
    | cons j js => cases h
  | cons i is ih =>
    cases js with
    | nil => cases h
    | cons j js =>
      rw [List.cons_beq_cons, Bool.and_eq_true] at h
      rw [List.map_cons, List.map_cons, gateKind?_of_beq h.1, ih h.2]

end Instruction

/-- A gate that can be represented equals itself, its angles being numbers. -/
theorem Gate.Representable.beq_self {g : Gate} (h : g.Representable) : (g == g) = true := by
  have hparams {params : List Float} (hfinite : ∀ x ∈ params, Float.finite x = true) :
      (params == params) = true := by
    induction params with
    | nil => rfl
    | cons x params ih =>
      rw [List.forall_mem_cons] at hfinite
      rw [List.cons_beq_cons, beq_self_of_finite hfinite.1, ih hfinite.2]
      rfl
  change (g.kind == g.kind && g.params == g.params) = true
  rw [hparams h.finite, beq_self_eq_true]
  rfl

private theorem Instruction.beq_self {i : Instruction}
    (h : ∀ g, i.gate? = some g → g.Representable) :
    (i == i) = true := by
  obtain ⟨operation, qubits, clbits⟩ := i
  have hoperation : (operation == operation) = true := by
    cases operation with
    | gate g => exact (h g rfl).beq_self
    | delay d => exact beq_self_eq_true d
    | _ => rfl
  change (operation == operation && (qubits == qubits && clbits == clbits)) = true
  rw [hoperation, beq_self_eq_true, beq_self_eq_true]
  rfl

namespace Circuit

variable {c c' : Circuit} {s : String}

private theorem Representable.beq_self (h : c.Representable) :
    (c.instructions == c.instructions) = true := by
  unfold Representable at h
  generalize c.instructions = is at h
  induction is with
  | nil => rfl
  | cons i is ih =>
    rw [List.forall_mem_cons] at h
    rw [List.cons_beq_cons, Instruction.beq_self h.1, ih h.2]
    rfl

/-- What a replayed circuit writes is in range if its gates can be represented. -/
theorem Replayed.writable (h : c.Replayed) (hgates : c.Representable) {i : Instruction}
    (hi : i ∈ c.instructions) : (InstructionRecord.ofInstruction i).Writable := by
  have hfits := CircuitRecord.exists_toCircuit_iff.1 ⟨c, h.toCircuit⟩ i hi
  refine ⟨fun q hq => (hfits.qubits q hq).trans h.numQubits,
    fun b hb => (hfits.clbits b hb).trans h.numClbits, ?_, ?_⟩
  · intro x hx
    cases hoperation : i.operation with
    | gate g =>
      simp only [InstructionRecord.ofInstruction, hoperation] at hx
      exact (hgates i hi g (by simp [Instruction.gate?, hoperation])).finite x hx
    | _ => simp [InstructionRecord.ofInstruction, hoperation] at hx
  · intro d hd
    cases hoperation : i.operation with
    | delay d' =>
      simp only [InstructionRecord.ofInstruction, hoperation, Option.mem_some] at hd
      exact hd ▸ h.durations i hi d' hoperation
    | _ => simp [InstructionRecord.ofInstruction, hoperation] at hd

/-- A replayed circuit whose gates can be represented is read back. -/
theorem Replayed.ofText_toText (h : c.Replayed) (hgates : c.Representable) :
    ofText c.toText = .ok c := by
  have hform := CircuitForm.decoder_toJson_eq_ok_iff (r := .ofCircuit c) |>.2
    ⟨h.numQubits, h.numClbits, fun i hi => h.writable hgates hi, rfl⟩
  refine ofText_eq_ok_iff.2 ⟨_, (Json.parse_indentedText _).trans hform, c.instructions, ?_,
    h.toCircuit⟩
  refine List.forall₂_map_left_iff.2 (List.forall₂_same.2 fun i hi => ?_)
  exact Instruction.toInstruction_ofInstruction
    (CircuitRecord.exists_toCircuit_iff.1 ⟨c, h.toCircuit⟩ i hi) (hgates i hi)

/-- A circuit that is read back with gates of the same kinds can be represented. -/
theorem representable_of_ofText_toText (h : ofText c.toText = .ok c')
    (hkinds : c'.instructions.map Instruction.gateKind? = c.instructions.map Instruction.gateKind?) :
    c.Representable := by
  obtain ⟨f, hf, is, his, hc'⟩ := ofText_eq_ok_iff.1 h
  obtain ⟨-, -, hwritable, rfl⟩ :=
    CircuitForm.decoder_toJson_eq_ok_iff.1 ((Json.parse_indentedText _).symm.trans hf)
  have hinstructions : c'.instructions = is :=
    congrArg CircuitRecord.instructions (CircuitRecord.sound_of_toCircuit hc').2
  have hread := List.forall₂_map_left_iff.1 his
  intro i hi g hg
  obtain ⟨k, hk, rfl⟩ := List.mem_iff_getElem.1 hi
  have hlength : k < is.length := hread.length_eq ▸ hk
  refine Instruction.representable_of_toInstruction (List.forall₂_iff_get.1 hread |>.2 k hk hlength)
    ?_ hg ?_
  · subst hinstructions
    have hkind := congrArg (·[k]?) hkinds
    simpa [hk, hlength, CircuitRecord.ofCircuit] using hkind
  · intro x hx
    refine (hwritable _ hi).params x ?_
    rwa [InstructionRecord.params_ofInstruction hg]

end Circuit

/-! ## Circuits that were read -/

/-- What is read from a record is in range. -/
theorem InstructionRecord.of_recordOf_eq_ok {v : Json} {r : InstructionRecord}
    (h : Json.recordOf "InstructionDocument" fields v = .ok r) :
    (∀ x ∈ r.params, Float.finite x = true) ∧ ∀ d ∈ r.duration, d < wordValues 64 := by
  obtain ⟨source, -, hread⟩ := Json.recordOf_eq_ok_iff.1 h
  obtain ⟨op, qubits, clbits, params, duration, -, -, -, hparams, hduration, rfl⟩ :=
    Json.Fields.read_seq₅_eq_ok_iff.1 hread
  constructor
  · exact Json.Fields.of_read_field (P := fun params => ∀ x ∈ params, Float.finite x = true)
      (fun v params => Json.Decoder.forall_of_listOf fun v x => Json.Decoder.finite_of_number)
      (by simp) (by simp) hparams
  · exact Json.Fields.of_read_field (P := fun duration => ∀ d ∈ duration, d < wordValues 64)
      (fun v duration => Json.Decoder.forall_of_nullable fun v d => Json.Decoder.natBelow_lt)
      (by simp) (by simp) hduration

/-- What is read from a form is in range. -/
theorem CircuitForm.of_decoder_eq_ok {v : Json} {f : CircuitForm} (h : decoder v = .ok f) :
    f.numQubits < wordValues 32 ∧ f.numClbits < wordValues 32 ∧
      ∀ r ∈ f.records,
        (∀ x ∈ r.params, Float.finite x = true) ∧ ∀ d ∈ r.duration, d < wordValues 64 := by
  obtain ⟨source, -, hread⟩ := Json.recordOf_eq_ok_iff.1 h
  obtain ⟨name, numQubits, numClbits, records, -, hqubits, hclbits, hrecords, rfl⟩ :=
    Json.Fields.read_seq₄_eq_ok_iff.1 hread
  refine ⟨?_, ?_, ?_⟩
  · exact Json.Fields.of_read_field (P := (· < wordValues 32))
      (fun v n => Json.Decoder.natBelow_lt) (by simp) (by simp) hqubits
  · exact Json.Fields.of_read_field (P := (· < wordValues 32))
      (fun v n => Json.Decoder.natBelow_lt) (by simp [wordValues]) (by simp [wordValues]) hclbits
  · exact Json.Fields.of_read_field (P := fun records => ∀ r ∈ records,
        (∀ x ∈ r.params, Float.finite x = true) ∧ ∀ d ∈ r.duration, d < wordValues 64)
      (fun v records => Json.Decoder.forall_of_listOf fun v r =>
        InstructionRecord.of_recordOf_eq_ok)
      (by simp) (by simp) hrecords

namespace Circuit

variable {c : Circuit} {s : String}

/-- A circuit that is read from a text is the replay of its instructions, and its gates can be
represented. -/
theorem of_ofText_eq_ok (h : ofText s = .ok c) : c.Replayed ∧ c.Representable := by
  obtain ⟨f, hf, is, his, hc⟩ := ofText_eq_ok_iff.1 h
  obtain ⟨v, -, hv⟩ := Json.parse_eq_ok_iff.1 hf
  obtain ⟨hqubits, hclbits, hrecords⟩ := CircuitForm.of_decoder_eq_ok hv
  obtain ⟨-, hrecord⟩ := CircuitRecord.sound_of_toCircuit hc
  have hread : ∀ i ∈ c.instructions, ∃ r ∈ f.records, r.operation = .ok i.operation := by
    intro i hi
    have hinstructions : c.instructions = is := congrArg CircuitRecord.instructions hrecord
    obtain ⟨r, hr, hi⟩ := exists_source_of_mapM_eq_ok (mapM_eq_ok_iff.2 his) (hinstructions ▸ hi)
    exact ⟨r, hr, (InstructionRecord.toInstruction_eq_ok_iff.1 hi).1⟩
  refine ⟨⟨?_, ?_, ?_, ?_⟩, ?_⟩
  · exact (congrArg CircuitRecord.numQubits hrecord).trans_lt hqubits
  · exact (congrArg CircuitRecord.numClbits hrecord).trans_lt hclbits
  · intro i hi d hd
    obtain ⟨r, hr, hoperation⟩ := hread i hi
    rw [hd] at hoperation
    rw [InstructionRecord.duration_of_operation hoperation]
    cases hduration : r.duration with
    | none => simp [wordValues]
    | some n => exact (hrecords r hr).2 n hduration
  · rw [hrecord]
    exact hc
  · intro i hi g hg
    obtain ⟨r, hr, hoperation⟩ := hread i hi
    rw [Instruction.operation_of_gate? hg] at hoperation
    exact (InstructionRecord.representable_of_operation hoperation (hrecords r hr).1).1

/-- Which circuits are read back.  A circuit that was built is read back from its own document, with
the same name and sizes and equal instructions, exactly if its gates can be represented, whether
angles are compared by value or as words; it is then the same circuit.  The gates of a circuit that
was read from a text can always be represented, so writing and reading it again changes nothing. -/
theorem ofText_toText_iff :
    (∀ c, Built c →
      ((∃ c', ofText c.toText = .ok c' ∧ c'.name = c.name ∧ c'.numQubits = c.numQubits ∧
        c'.numClbits = c.numClbits ∧ (c'.instructions == c.instructions) = true) ↔
          c.Representable) ∧
      ((∃ c', ofText c.toText = .ok c' ∧ c'.name = c.name ∧ c'.numQubits = c.numQubits ∧
        c'.numClbits = c.numClbits ∧ c'.instructions = c.instructions) ↔ c.Representable) ∧
      (c.Representable → ofText c.toText = .ok c)) ∧
    ∀ s c, ofText s = .ok c →
      c.Representable ∧ ofText c.toText = .ok c ∧
        ∀ c', ofText c.toText = .ok c' → c'.toText = c.toText := by
  constructor
  · intro c hc
    have hsame : c.Representable → ofText c.toText = .ok c := hc.replayed.ofText_toText
    refine ⟨⟨?_, ?_⟩, ⟨?_, ?_⟩, hsame⟩
    · rintro ⟨c', hc', -, -, -, hinstructions⟩
      exact representable_of_ofText_toText hc' (Instruction.map_gateKind?_of_beq hinstructions)
    · intro h
      exact ⟨c, hsame h, rfl, rfl, rfl, h.beq_self⟩
    · rintro ⟨c', hc', -, -, -, hinstructions⟩
      exact representable_of_ofText_toText hc' (by rw [hinstructions])
    · intro h
      exact ⟨c, hsame h, rfl, rfl, rfl, rfl⟩
  · intro s c hc
    obtain ⟨hreplayed, hgates⟩ := of_ofText_eq_ok hc
    have hsame := hreplayed.ofText_toText hgates
    refine ⟨hgates, hsame, fun c' hc' => ?_⟩
    rw [Except.ok.inj (hsame.symm.trans hc')]

/-- A circuit of one qubit with one custom gate can be built, whatever the gate is called. -/
theorem exists_built_custom (name : String) :
    ∃ c, Built c ∧ c.instructions = [.ofGate (.custom name 1 [0.5]) [0]] := by
  obtain ⟨hsound, hempty⟩ := sound_withSize "one" 1 0
  have hfits : (Instruction.ofGate (.custom name 1 [0.5]) [0]).Fits 1 0 := by
    refine ⟨fun g hg => ?_, by simp [Instruction.ofGate], by simp [Instruction.ofGate],
      by simp [Instruction.ofGate]⟩
    obtain rfl := Option.some.inj hg
    rfl
  obtain ⟨dag, hrun, -, hinstructions⟩ := hsound.apply hfits
  have hbuilt : Built (withSize "one" 1 0) := .withSize "one" (by decide) (by decide)
  refine ⟨_, @Built.call _ _ (.apply (.ofGate (.custom name 1 [0.5]) [0])) hbuilt ?_ hrun, ?_⟩
  · intro d hd
    cases hd
  · rw [hinstructions, hempty]
    rfl

/-- A gate called `oracle` is read back, and one called `measure` is not. -/
theorem ofText_toText_custom :
    (∃ c, Built c ∧ c.instructions = [.ofGate (.custom "oracle" 1 [0.5]) [0]] ∧
      ofText c.toText = .ok c) ∧
    ∃ c, Built c ∧ c.instructions = [.ofGate (.custom "measure" 1 [0.5]) [0]] ∧
      ¬∃ c', ofText c.toText = .ok c' ∧ c'.name = c.name ∧ c'.numQubits = c.numQubits ∧
        c'.numClbits = c.numClbits ∧ c'.instructions = c.instructions := by
  obtain ⟨oracle, horacle, hinstructions⟩ := exists_built_custom "oracle"
  obtain ⟨measure, hmeasure, hinstructions'⟩ := exists_built_custom "measure"
  refine ⟨⟨oracle, horacle, hinstructions, ?_⟩, measure, hmeasure, hinstructions', ?_⟩
  · refine (ofText_toText_iff.1 oracle horacle).2.2 fun i hi g hg => ?_
    rw [hinstructions, List.mem_singleton] at hi
    subst hi
    obtain rfl := Option.some.inj hg
    refine ⟨?_, by simp [Gate.custom], fun name n hkind => ?_⟩
    · simp only [Gate.custom, List.mem_singleton, forall_eq]
      decide +kernel
    · obtain ⟨rfl, -⟩ := GateKind.custom.inj hkind
      exact ⟨by decide, fun gate => by cases gate <;> decide⟩
  · intro hread
    have hgates := (ofText_toText_iff.1 measure hmeasure).2.1.1 hread
    have hgate := hgates _ (hinstructions' ▸ List.mem_singleton_self _) _ rfl
    exact absurd (hgate.custom "measure" 1 rfl).1 (by decide)

end Circuit

end PathSelection
