import PathSelection.Proofs.Circuit.Building
import PathSelection.Proofs.Json.Records

/-!
# Accepted circuit documents

A document is first read as a form: its name, its sizes and the records of its
instructions.  Angles are checked record by record, operands when the whole form
is replayed.  Both together are a condition on each record alone.

Main results:

- Theorem `InstructionRecord.exists_fits_iff`: what is asked of one record.
- Theorem `Circuit.ofText_eq_ok_iff`: the circuit of a text.
- Theorem `Circuit.ofText_accepts`: which texts are accepted, and with which circuit.
-/

namespace PathSelection

/-- A circuit document before its instructions are looked at. -/
structure CircuitForm where
  name : String
  numQubits : Nat
  numClbits : Nat
  records : List InstructionRecord

namespace CircuitForm

/-- The fields of a form. -/
def fields : Json.Fields CircuitForm :=
  CircuitForm.mk <$> .defaulted "name" "" Json.Decoder.text
    <*> .required "num_qubits" Json.Decoder.u32
    <*> .defaulted "num_clbits" 0 Json.Decoder.u32
    <*> .defaulted "instructions" []
      (Json.Decoder.listOf (Json.recordOf "InstructionDocument" InstructionRecord.fields))

/-- Reads a form: the fields of a circuit document with values of the right types. -/
def decoder : Json.Decoder CircuitForm := Json.recordOf "CircuitDocument" fields

end CircuitForm

/-! ## One record -/

/-- What is asked of a record in a circuit of these sizes. -/
structure InstructionRecord.Fits (r : InstructionRecord) (numQubits numClbits : Nat) : Prop where
  qubits : ∀ q ∈ r.qubits, q < numQubits
  nodup : r.qubits.Nodup
  clbits : ∀ c ∈ r.clbits, c < numClbits
  standard : ∀ g, StandardGate.ofName? r.op = some g →
    r.params.length = g.numParams ∧ r.qubits.length = g.numQubits

namespace InstructionRecord

variable {r : InstructionRecord} {i : Instruction} {numQubits numClbits : Nat}

instance : Decidable (r.Fits numQubits numClbits) :=
  decidable_of_iff
    ((∀ q ∈ r.qubits, q < numQubits) ∧ r.qubits.Nodup ∧ (∀ c ∈ r.clbits, c < numClbits) ∧
      ∀ g ∈ StandardGate.ofName? r.op,
        r.params.length = g.numParams ∧ r.qubits.length = g.numQubits)
    ⟨fun ⟨hqubits, hnodup, hclbits, hstandard⟩ => ⟨hqubits, hnodup, hclbits, hstandard⟩,
      fun h => ⟨h.qubits, h.nodup, h.clbits, h.standard⟩⟩

/-- A record is an instruction if it names an operation; the bits are those of the record. -/
theorem toInstruction_eq_ok_iff :
    r.toInstruction = .ok i ↔
      r.operation = .ok i.operation ∧ i.qubits = r.qubits ∧ i.clbits = r.clbits := by
  unfold toInstruction
  cases r.operation with
  | error e => simp [Except.map]
  | ok operation =>
    obtain ⟨operation', qubits, clbits⟩ := i
    simp [Except.map, eq_comm]

/-- The names of operations that are no gates. -/
def isReserved (name : String) : Bool := name ∈ ["measure", "reset", "barrier", "delay"]

/-- No standard gate has a reserved name. -/
theorem ofName?_of_isReserved {name : String} (h : isReserved name = true) :
    StandardGate.ofName? name = none := by
  simp only [isReserved, List.mem_cons, List.not_mem_nil, or_false, decide_eq_true_eq] at h
  rcases h with rfl | rfl | rfl | rfl <;> decide

/-- The operation of a reserved name is no gate. -/
theorem operation_of_isReserved (h : isReserved r.op = true) :
    ∃ operation, r.operation = .ok operation ∧ ∀ g, operation ≠ .gate g := by
  simp only [isReserved, List.mem_cons, List.not_mem_nil, or_false, decide_eq_true_eq] at h
  unfold operation
  by_cases hmeasure : r.op = "measure"
  · exact ⟨.measure, if_pos hmeasure, by simp⟩
  rw [if_neg hmeasure]
  by_cases hreset : r.op = "reset"
  · exact ⟨.reset, if_pos hreset, by simp⟩
  rw [if_neg hreset]
  by_cases hbarrier : r.op = "barrier"
  · exact ⟨.barrier, if_pos hbarrier, by simp⟩
  rw [if_neg hbarrier]
  have hdelay := ((h.resolve_left hmeasure).resolve_left hreset).resolve_left hbarrier
  exact ⟨.delay (r.duration.getD 0), if_pos hdelay, by simp⟩

/-- The operation of any other name is a gate. -/
theorem operation_of_not_isReserved (h : isReserved r.op = false) :
    r.operation = match StandardGate.ofName? r.op with
      | some g => (Gate.standard g r.params).map .gate
      | none => .ok (.gate (.custom r.op r.qubits.length r.params)) := by
  simp only [isReserved, List.mem_cons, List.not_mem_nil, or_false, decide_eq_false_iff_not,
    not_or] at h
  unfold operation
  exact (if_neg h.1).trans ((if_neg h.2.1).trans ((if_neg h.2.2.1).trans (if_neg h.2.2.2)))

/-- An instruction has the name of its record. -/
theorem name_of_toInstruction (h : r.toInstruction = .ok i) : i.name = r.op := by
  obtain ⟨hoperation, -⟩ := toInstruction_eq_ok_iff.1 h
  cases hreserved : isReserved r.op with
  | true =>
    simp only [isReserved, List.mem_cons, List.not_mem_nil, or_false, decide_eq_true_eq]
      at hreserved
    rcases hreserved with hop | hop | hop | hop <;>
    · simp only [operation, hop, reduceIte, String.reduceEq, Except.ok.injEq] at hoperation
      rw [Instruction.name, ← hoperation, hop]
  | false =>
    rw [operation_of_not_isReserved hreserved] at hoperation
    cases hname : StandardGate.ofName? r.op with
    | some g =>
      by_cases hlength : r.params.length = g.numParams
      · simp only [hname, Gate.standard, if_pos hlength, Except.map, Except.ok.injEq]
          at hoperation
        rw [Instruction.name, ← hoperation]
        exact StandardGate.ofName?_eq_some_iff.1 hname
      · simp [hname, Gate.standard, hlength, Except.map] at hoperation
    | none =>
      simp only [hname, Except.ok.injEq] at hoperation
      rw [Instruction.name, ← hoperation]
      rfl

/-- A record of a barrier is a barrier. -/
theorem isBarrier_of_toInstruction (h : r.toInstruction = .ok i) (hop : r.op = "barrier") :
    i.isBarrier = true := by
  obtain ⟨hoperation, -⟩ := toInstruction_eq_ok_iff.1 h
  simp only [operation, hop, reduceIte, String.reduceEq, Except.ok.injEq] at hoperation
  rw [Instruction.isBarrier, ← hoperation]

/-- A record describes an instruction that fits exactly if the record itself does. -/
theorem exists_fits_iff :
    (∃ i, r.toInstruction = .ok i ∧ i.Fits numQubits numClbits) ↔ r.Fits numQubits numClbits := by
  have hoperation : (∃ i, r.toInstruction = .ok i ∧ i.Fits numQubits numClbits) ↔
      ∃ operation, r.operation = .ok operation ∧
        Instruction.Fits ⟨operation, r.qubits, r.clbits⟩ numQubits numClbits := by
    constructor
    · rintro ⟨⟨operation, qubits, clbits⟩, hi, hfits⟩
      obtain ⟨hoperation, rfl, rfl⟩ := toInstruction_eq_ok_iff.1 hi
      exact ⟨operation, hoperation, hfits⟩
    · rintro ⟨operation, hoperation, hfits⟩
      exact ⟨_, toInstruction_eq_ok_iff.2 ⟨hoperation, rfl, rfl⟩, hfits⟩
  rw [hoperation]
  cases hreserved : isReserved r.op with
  | true =>
    obtain ⟨operation, hread, hnone⟩ := operation_of_isReserved hreserved
    have hstandard := ofName?_of_isReserved hreserved
    constructor
    · rintro ⟨_, -, -, hqubits, hclbits, hnodup⟩
      exact ⟨hqubits, hnodup, hclbits, by simp [hstandard]⟩
    · rintro ⟨hqubits, hnodup, hclbits, -⟩
      refine ⟨operation, hread, fun g hg => ?_, hqubits, hclbits, hnodup⟩
      cases operation with
      | gate g' => exact absurd rfl (hnone g')
      | _ => cases hg
  | false =>
    rw [operation_of_not_isReserved hreserved]
    cases hname : StandardGate.ofName? r.op with
    | some g =>
      by_cases hlength : r.params.length = g.numParams
      · simp only [Gate.standard, if_pos hlength, Except.map, Except.ok.injEq, exists_eq_left']
        constructor
        · rintro ⟨harity, hqubits, hclbits, hnodup⟩
          refine ⟨hqubits, hnodup, hclbits, fun g' hg' => ?_⟩
          obtain rfl : g = g' := Option.some.inj (hname.symm.trans hg')
          exact ⟨hlength, (harity _ rfl).symm⟩
        · rintro ⟨hqubits, hnodup, hclbits, hstandard⟩
          refine ⟨fun g' hg' => ?_, hqubits, hclbits, hnodup⟩
          obtain rfl := Option.some.inj hg'
          exact (hstandard g hname).2.symm
      · simp only [Gate.standard, if_neg hlength, Except.map, reduceCtorEq, false_and, exists_false,
          false_iff]
        exact fun h => hlength (h.standard g hname).1
    | none =>
      simp only [Except.ok.injEq, exists_eq_left']
      constructor
      · rintro ⟨-, hqubits, hclbits, hnodup⟩
        exact ⟨hqubits, hnodup, hclbits, by simp [hname]⟩
      · rintro ⟨hqubits, hnodup, hclbits, -⟩
        refine ⟨fun g hg => ?_, hqubits, hclbits, hnodup⟩
        obtain rfl := Option.some.inj hg
        rfl

/-- All records describe instructions that fit exactly if all records fit. -/
theorem exists_forall₂_fits_iff {records : List InstructionRecord} :
    (∃ is, List.Forall₂ (·.toInstruction = .ok ·) records is ∧
      ∀ i ∈ is, i.Fits numQubits numClbits) ↔ ∀ r ∈ records, r.Fits numQubits numClbits := by
  induction records with
  | nil => simp
  | cons r records ih =>
    rw [List.forall_mem_cons, ← ih, ← exists_fits_iff]
    constructor
    · rintro ⟨is, hread, hfits⟩
      cases hread with
      | cons hhead htail =>
        rw [List.forall_mem_cons] at hfits
        exact ⟨⟨_, hhead, hfits.1⟩, _, htail, hfits.2⟩
    · rintro ⟨⟨i, hhead, hi⟩, is, htail, his⟩
      exact ⟨i :: is, .cons hhead htail, List.forall_mem_cons.2 ⟨hi, his⟩⟩

end InstructionRecord

/-! ## Whole texts -/

namespace CircuitForm

/-- A form with the instructions of its records. -/
def withInstructions (f : CircuitForm) (is : List Instruction) : CircuitRecord :=
  ⟨f.name, f.numQubits, f.numClbits, is⟩

/-- A record of a circuit is a form whose records describe instructions. -/
theorem recordOf_fields_eq_ok_iff {v : Json} {r : CircuitRecord} :
    Json.recordOf "CircuitDocument" CircuitRecord.fields v = .ok r ↔
      ∃ f, decoder v = .ok f ∧
        ∃ is, List.Forall₂ (·.toInstruction = .ok ·) f.records is ∧ f.withInstructions is = r := by
  have hrule {record : InstructionRecord} {i : Instruction} :
      record.toInstruction.mapError CircuitError.message = .ok i ↔
        record.toInstruction = .ok i := by
    cases record.toInstruction <;> simp [Except.mapError]
  rw [Json.recordOf_eq_ok_iff]
  constructor
  · rintro ⟨source, hsource, hread⟩
    obtain ⟨name, numQubits, numClbits, is, hname, hqubits, hclbits, his, rfl⟩ :=
      Json.Fields.read_seq₄_eq_ok_iff.1 hread
    obtain ⟨records, hrecords, hall⟩ := Json.Fields.read_defaulted_listOf_refine_eq_ok_iff.1 his
    refine ⟨⟨name, numQubits, numClbits, records⟩, ?_, is, hall.imp fun _ _ => hrule.1, rfl⟩
    exact Json.recordOf_eq_ok_iff.2 ⟨source, hsource, Json.Fields.read_seq₄_eq_ok_iff.2
      ⟨_, _, _, _, hname, hqubits, hclbits, hrecords, rfl⟩⟩
  · rintro ⟨f, hf, is, hall, rfl⟩
    obtain ⟨source, hsource, hread⟩ := Json.recordOf_eq_ok_iff.1 hf
    obtain ⟨name, numQubits, numClbits, records, hname, hqubits, hclbits, hrecords, rfl⟩ :=
      Json.Fields.read_seq₄_eq_ok_iff.1 hread
    have his := Json.Fields.read_defaulted_listOf_refine_eq_ok_iff.2
      ⟨records, hrecords, hall.imp fun _ _ => hrule.2⟩
    exact ⟨source, hsource, Json.Fields.read_seq₄_eq_ok_iff.2
      ⟨_, _, _, _, hname, hqubits, hclbits, his, rfl⟩⟩

end CircuitForm

namespace Circuit

variable {s : String} {f : CircuitForm} {c : Circuit}

/-- A text describes a circuit if it holds a form whose records can be replayed. -/
theorem ofText_eq_ok_iff :
    ofText s = .ok c ↔
      ∃ f, Json.parse CircuitForm.decoder s = .ok f ∧
        ∃ is, List.Forall₂ (·.toInstruction = .ok ·) f.records is ∧
          (f.withInstructions is).toCircuit = .ok c := by
  have hparse : ofText s = .ok c ↔ Json.parse decoder s = .ok c := by
    unfold ofText
    cases Json.parse decoder s <;> simp [Except.mapError]
  have hrule {r : CircuitRecord} :
      r.toCircuit.mapError CircuitError.message = .ok c ↔ r.toCircuit = .ok c := by
    cases r.toCircuit <;> simp [Except.mapError]
  simp only [hparse, Json.parse_eq_ok_iff, decoder, Json.Decoder.refine_eq_ok_iff, hrule,
    CircuitForm.recordOf_fields_eq_ok_iff]
  constructor
  · rintro ⟨v, hv, _, ⟨f, hf, is, his, rfl⟩, hc⟩
    exact ⟨f, ⟨v, hv, hf⟩, is, his, hc⟩
  · rintro ⟨f, ⟨v, hv, hf⟩, is, his, hc⟩
    exact ⟨v, hv, _, ⟨f, hf, is, his, rfl⟩, hc⟩

/-- A form is accepted exactly if each of its records, taken alone, fits. -/
theorem exists_ofText_iff (h : Json.parse CircuitForm.decoder s = .ok f) :
    (∃ c, ofText s = .ok c) ↔ ∀ r ∈ f.records, r.Fits f.numQubits f.numClbits := by
  rw [← InstructionRecord.exists_forall₂_fits_iff]
  simp only [ofText_eq_ok_iff, h, Except.ok.injEq, exists_eq_left']
  constructor
  · rintro ⟨c, is, his, hc⟩
    exact ⟨is, his, CircuitRecord.exists_toCircuit_iff.1 ⟨c, hc⟩⟩
  · rintro ⟨is, his, hfits⟩
    obtain ⟨c, hc⟩ := CircuitRecord.exists_toCircuit_iff (r := f.withInstructions is) |>.2 hfits
    exact ⟨c, is, his, hc⟩

/-- An accepted circuit has the name and the sizes of its form and one operation for each record. -/
theorem of_ofText (h : Json.parse CircuitForm.decoder s = .ok f) (hc : ofText s = .ok c) :
    c.name = f.name ∧ c.numQubits = f.numQubits ∧ c.numClbits = f.numClbits ∧
      c.numOps = f.records.length ∧
      List.Forall₂ (·.toInstruction = .ok ·) f.records c.instructions := by
  simp only [ofText_eq_ok_iff, h, Except.ok.injEq, exists_eq_left'] at hc
  obtain ⟨is, his, hc⟩ := hc
  obtain ⟨hsound, hrecord⟩ := CircuitRecord.sound_of_toCircuit hc
  obtain ⟨hname, hqubits, hclbits, hinstructions⟩ := CircuitRecord.mk.inj hrecord
  refine ⟨hname, hqubits, hclbits, ?_, hinstructions ▸ his⟩
  rw [hsound.numOps_eq, hinstructions, his.length_eq]

/-- A circuit that is read has a sound graph. -/
theorem sound_of_ofText (hc : ofText s = .ok c) : c.Sound := by
  obtain ⟨f, -, is, -, hcircuit⟩ := ofText_eq_ok_iff.1 hc
  exact (CircuitRecord.sound_of_toCircuit hcircuit).1

/-- In an accepted circuit an operation with the name of a standard gate is on as many qubits as the
gate. -/
theorem length_qubits_of_ofText (hc : ofText s = .ok c) {i : Instruction}
    (hi : i ∈ c.instructions) {g : StandardGate} (hg : StandardGate.ofName? i.name = some g) :
    i.qubits.length = g.numQubits := by
  obtain ⟨f, hf, -⟩ := ofText_eq_ok_iff.1 hc
  obtain ⟨-, -, -, -, hall⟩ := of_ofText hf hc
  obtain ⟨r, hr, hread⟩ := exists_source_of_mapM_eq_ok (mapM_eq_ok_iff.2 hall) hi
  have hfits := (exists_ofText_iff hf).1 ⟨c, hc⟩ r hr
  obtain ⟨-, hqubits, -⟩ := InstructionRecord.toInstruction_eq_ok_iff.1 hread
  rw [InstructionRecord.name_of_toInstruction hread] at hg
  rw [hqubits, (hfits.standard g hg).2]

/-- What circuit documents are accepted.  A text is accepted exactly if it holds a form with values
of the right types each of whose records, taken alone, fits the sizes of the form.  The circuit has
these sizes and one operation for each record, in the order of the document.  So the order of the
records does not matter, and records may be left out. -/
theorem ofText_accepts (s : String) :
    ((∃ c, ofText s = .ok c) ↔ ∃ f, Json.parse CircuitForm.decoder s = .ok f ∧
      ∀ r ∈ f.records, r.Fits f.numQubits f.numClbits) ∧
    ∀ f, Json.parse CircuitForm.decoder s = .ok f →
      (∀ c, ofText s = .ok c → c.name = f.name ∧ c.numQubits = f.numQubits ∧
        c.numClbits = f.numClbits ∧ c.numOps = f.records.length ∧
        List.Forall₂ (·.toInstruction = .ok ·) f.records c.instructions) ∧
      ∀ s' f', Json.parse CircuitForm.decoder s' = .ok f' → f'.numQubits = f.numQubits →
        f'.numClbits = f.numClbits →
        (f'.records.Perm f.records → ((∃ c, ofText s' = .ok c) ↔ ∃ c, ofText s = .ok c)) ∧
        (f'.records.Sublist f.records → (∃ c, ofText s = .ok c) → ∃ c, ofText s' = .ok c) := by
  constructor
  · constructor
    · rintro ⟨c, hc⟩
      obtain ⟨f, hf, -⟩ := ofText_eq_ok_iff.1 hc
      exact ⟨f, hf, (exists_ofText_iff hf).1 ⟨c, hc⟩⟩
    · rintro ⟨f, hf, hfits⟩
      exact (exists_ofText_iff hf).2 hfits
  · intro f hf
    refine ⟨fun c hc => of_ofText hf hc, fun s' f' hf' hqubits hclbits => ?_⟩
    rw [exists_ofText_iff hf, exists_ofText_iff hf', hqubits, hclbits]
    constructor
    · intro hperm
      simp only [hperm.mem_iff]
    · intro hsublist hfits r hr
      exact hfits r (hsublist.subset hr)

/-- The text of a form of two qubits with these records. -/
def pairText (records : List InstructionRecord) : String :=
  (Json.record [("num_qubits", .nat 2),
    ("instructions", .list InstructionRecord.toJson records)]).compactText

/-- The records of a Bell pair are accepted in either order. -/
theorem ofText_accepts_pair :
    let h : InstructionRecord := ⟨"h", [0], [], [], none⟩
    let cx : InstructionRecord := ⟨"cx", [0, 1], [], [], none⟩
    (∃ c, ofText (pairText [h, cx]) = .ok c) ∧
      (∀ c, ofText (pairText [h, cx]) = .ok c → c.numQubits = 2 ∧ c.numOps = 2) ∧
      (∃ c, ofText (pairText [cx, h]) = .ok c) ∧ ∃ c, ofText (pairText [cx]) = .ok c := by
  intro h cx
  have hparse : Json.parse CircuitForm.decoder (pairText [h, cx]) = .ok ⟨"", 2, 0, [h, cx]⟩ := by
    rw [pairText, Json.parse_compactText]
    rfl
  have hswapped : Json.parse CircuitForm.decoder (pairText [cx, h]) = .ok ⟨"", 2, 0, [cx, h]⟩ := by
    rw [pairText, Json.parse_compactText]
    rfl
  have hfewer : Json.parse CircuitForm.decoder (pairText [cx]) = .ok ⟨"", 2, 0, [cx]⟩ := by
    rw [pairText, Json.parse_compactText]
    rfl
  have hh : h.Fits 2 0 := by
    refine ⟨by simp [h], by simp [h], by simp [h], fun g hg => ?_⟩
    obtain rfl : StandardGate.h = g := Option.some.inj hg
    decide
  have hcx : cx.Fits 2 0 := by
    refine ⟨by simp [cx], by simp [cx], by simp [cx], fun g hg => ?_⟩
    obtain rfl : StandardGate.cx = g := Option.some.inj hg
    decide
  obtain ⟨haccepted, hall⟩ := ofText_accepts (pairText [h, cx])
  have hsome : ∃ c, ofText (pairText [h, cx]) = .ok c :=
    haccepted.2 ⟨_, hparse, by simp [hh, hcx]⟩
  obtain ⟨hcircuit, hothers⟩ := hall _ hparse
  refine ⟨hsome, fun c hc => ?_, ?_, ?_⟩
  · obtain ⟨-, hqubits, -, hops, -⟩ := hcircuit c hc
    exact ⟨hqubits, hops⟩
  · exact (hothers _ _ hswapped rfl rfl).1 (List.Perm.swap h cx []) |>.2 hsome
  · exact (hothers _ _ hfewer rfl rfl).2 (by simp) hsome

end Circuit

end PathSelection
