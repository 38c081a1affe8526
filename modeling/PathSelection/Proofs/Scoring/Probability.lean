import PathSelection.Proofs.Calibration.Admission
import PathSelection.Proofs.Calibration.Range
import PathSelection.Proofs.Traversal
import PathSelection.Scoring.Score

/-!
# Fidelities of circuits

The fidelity of a circuit is the product of what a table states of its gates and
readouts.  By a table that was taken, and with the arithmetic read exactly, it is a
probability, and it is zero only where a table of error rates says of a gate or a
readout that it surely goes wrong.

Main results:

- Theorem `instructionFidelities_eq_ok_iff`: what the fidelities of an instruction are.
- Theorem `calibrationFidelity_bounds`: the fidelity of a circuit by a table in range.
- Theorem `calibrationFidelity_of_parse`: the fidelity of a circuit by a table that was taken.
-/

namespace PathSelection

/-! ## Fidelities that are looked up -/

section

variable {α β : Type} [Scalar α] [Scalar β] {t : CalibrationTable α} {i : Instruction}
  {fs : List α} {f : α}

/-- A gate has one fidelity, a measurement those of its readouts, and the rest has none. -/
theorem instructionFidelities_eq_ok_iff :
    instructionFidelities t i = .ok fs ↔
      match i.operation with
      | .gate g => ∃ f, t.gateFidelity g.name i.qubits = .ok f ∧ fs = [f]
      | .measure => i.qubits.mapM t.readoutFidelity = .ok fs
      | .barrier | .delay _ | .reset => fs = [] := by
  unfold instructionFidelities
  cases i.operation with
  | gate g =>
    dsimp only
    cases t.gateFidelity g.name i.qubits <;> simp [Except.map, eq_comm]
  | measure => exact Iff.rfl
  | barrier | delay | reset => simp [eq_comm]

/-- The fidelities of an instruction are those of its gate and of the readouts of its qubits. -/
theorem mem_instructionFidelities (h : instructionFidelities t i = .ok fs) (hf : f ∈ fs) :
    (∃ gate qubits, t.gateFidelity gate qubits = .ok f) ∨
      ∃ qubit, t.readoutFidelity qubit = .ok f := by
  rw [instructionFidelities_eq_ok_iff] at h
  cases hop : i.operation with
  | gate g =>
    rw [hop] at h
    obtain ⟨f', hgate, rfl⟩ := h
    obtain rfl := List.mem_singleton.1 hf
    exact .inl ⟨_, _, hgate⟩
  | measure =>
    rw [hop] at h
    obtain ⟨q, -, hq⟩ := exists_source_of_mapM_eq_ok h hf
    exact .inr ⟨q, hq⟩
  | barrier | delay | reset =>
    rw [hop] at h
    obtain rfl : fs = [] := h
    cases hf

/-- The fidelity of a circuit is the product of those of its instructions. -/
theorem calibrationFidelity_eq_ok_iff {c : Circuit} :
    calibrationFidelity c t = .ok f ↔ ∃ fidelities,
      c.instructions.mapM (instructionFidelities t) = .ok fidelities ∧
        fidelities.flatten.foldl (· * ·) Scalar.one = f := by
  unfold calibrationFidelity
  cases c.instructions.mapM (instructionFidelities t) <;> simp

/-- An instruction has fidelities in every kind of number or in none. -/
theorem exists_instructionFidelities (h : instructionFidelities t i = .ok fs) (φ : α → β) :
    ∃ gs, instructionFidelities (t.map φ) i = .ok gs := by
  simp only [instructionFidelities_eq_ok_iff] at h ⊢
  cases hop : i.operation with
  | gate g =>
    rw [hop] at h
    obtain ⟨f, hgate, -⟩ := h
    obtain ⟨f', hf'⟩ := (t.decides_gateFidelity g.name i.qubits).exists_eq_ok hgate φ
    exact ⟨[f'], f', hf', rfl⟩
  | measure =>
    rw [hop] at h
    refine exists_mapM_eq_ok fun q hq => ?_
    obtain ⟨f, -, hf⟩ := exists_of_mapM_eq_ok h hq
    exact (t.decides_readoutFidelity q).exists_eq_ok hf φ
  | barrier | delay | reset => exact ⟨[], rfl⟩

/-- A circuit has a fidelity in every kind of number or in none. -/
theorem exists_calibrationFidelity {c : Circuit} (h : calibrationFidelity c t = .ok f)
    (φ : α → β) : ∃ g, calibrationFidelity c (t.map φ) = .ok g := by
  obtain ⟨fidelities, hfidelities, -⟩ := calibrationFidelity_eq_ok_iff.1 h
  obtain ⟨others, hothers⟩ : ∃ others,
      c.instructions.mapM (instructionFidelities (t.map φ)) = .ok others := by
    refine exists_mapM_eq_ok fun i hi => ?_
    obtain ⟨fs, -, hfs⟩ := exists_of_mapM_eq_ok hfidelities hi
    exact exists_instructionFidelities hfs φ
  exact ⟨_, calibrationFidelity_eq_ok_iff.2 ⟨others, hothers, rfl⟩⟩

/-- Without gates and measurements the fidelity is one. -/
theorem calibrationFidelity_of_idle {c : Circuit}
    (h : ∀ i ∈ c.instructions, i.isGate = false ∧ i.isMeasure = false) (t : CalibrationTable α) :
    calibrationFidelity c t = .ok Scalar.one := by
  have hidle : ∀ i ∈ c.instructions, instructionFidelities t i = .ok [] := by
    intro i hi
    obtain ⟨hgate, hmeasure⟩ := h i hi
    unfold Instruction.isGate Instruction.gate? at hgate
    unfold Instruction.isMeasure at hmeasure
    rw [instructionFidelities_eq_ok_iff]
    cases hop : i.operation <;> simp [hop] at hgate hmeasure <;> rfl
  obtain ⟨fidelities, hfidelities⟩ := exists_mapM_eq_ok fun i hi => ⟨[], hidle i hi⟩
  have hempty : fidelities.flatten = [] := by
    refine List.flatten_eq_nil_iff.2 fun fs hfs => ?_
    obtain ⟨i, hi, hfs⟩ := exists_source_of_mapM_eq_ok hfidelities hfs
    exact (Except.ok.inj ((hidle i hi).symm.trans hfs)).symm
  exact calibrationFidelity_eq_ok_iff.2 ⟨fidelities, hfidelities, by rw [hempty]; rfl⟩

end

/-! ## Error rates -/

namespace IbmTable

variable {α : Type}

/-- The error rate that a gate is looked up by: for the two gates on one qubit that of the first of
its qubits, however many there are, and for the gate on two that of the pair in either order.
Changes of frame have none. -/
def gateError? (t : IbmTable α) (gate : String) (qubits : List Nat) : Option α :=
  if gate = "sx" then qubits.head?.bind t.sx.get?
  else if gate = "x" then qubits.head?.bind t.x.get?
  else if gate = "cx" then
    match qubits with
    | [a, b] => (t.cx.get? (a, b)).or (t.cx.get? (b, a))
    | _ => none
  else none

/-- The error rates of the gate of an instruction, or of the readouts of its qubits. -/
def errorRates (t : IbmTable α) (i : Instruction) : List α :=
  match i.operation with
  | .gate g => (t.gateError? g.name i.qubits).toList
  | .measure => i.qubits.filterMap t.readout.get?
  | .barrier | .delay _ | .reset => []

variable [Scalar α] {t : IbmTable α} {gate : String} {qubits : List Nat} {f : α} {fs : List α}

private theorem exists_error_of_single {d : Dict Nat α} (h : single d gate qubits = .ok f) :
    ∃ e, qubits.head?.bind d.get? = some e ∧ f = success e := by
  unfold single at h
  split at h
  · rename_i e he
    exact ⟨e, he, (Except.ok.inj h).symm⟩
  · cases h

/-- The fidelity of a gate is what its error rate leaves; a change of frame always succeeds. -/
theorem gateFidelity_eq_ok (h : t.gateFidelity gate qubits = .ok f) :
    (t.gateError? gate qubits = none ∧ f = Scalar.one) ∨
      ∃ e, t.gateError? gate qubits = some e ∧ f = success e := by
  unfold gateFidelity at h
  unfold gateError?
  split_ifs at h with hframe hsx hx hcx
  · rcases hframe with rfl | rfl <;> exact .inl ⟨rfl, (Except.ok.inj h).symm⟩
  · rw [if_pos hsx]
    exact .inr (exists_error_of_single h)
  · rw [if_neg hsx, if_pos hx]
    exact .inr (exists_error_of_single h)
  · rw [if_neg hsx, if_neg hx, if_pos hcx]
    right
    split at h
    · split at h
      · rename_i e he
        exact ⟨e, he, (Except.ok.inj h).symm⟩
      · cases h
    · cases h
  · cases h

private theorem mapM_readoutFidelity_eq_ok (h : qubits.mapM t.readoutFidelity = .ok fs) :
    fs = (qubits.filterMap t.readout.get?).map success := by
  replace h := mapM_eq_ok_iff.1 h
  induction h with
  | nil => rfl
  | @cons q f _ _ hhead _ ih =>
    rw [ih]
    unfold readoutFidelity at hhead
    split at hhead
    · rename_i e he
      rw [List.filterMap_cons, he, ← Except.ok.inj hhead]
      rfl
    · cases hhead

/-- The fidelities of an instruction are what its error rates leave, or the certainty of a change
of frame. -/
theorem instructionFidelities_eq_ok {i : Instruction}
    (h : instructionFidelities (.ibm t) i = .ok fs) :
    (t.errorRates i = [] ∧ ∀ f ∈ fs, f = Scalar.one) ∨ fs = (t.errorRates i).map success := by
  rw [instructionFidelities_eq_ok_iff] at h
  unfold errorRates
  cases hop : i.operation with
  | gate g =>
    rw [hop] at h
    obtain ⟨f, hgate, rfl⟩ := h
    rcases gateFidelity_eq_ok hgate with ⟨hnone, hone⟩ | ⟨e, he, hf⟩
    · exact .inl ⟨by simp [hnone], by simpa using hone⟩
    · exact .inr (by simp [he, hf])
  | measure =>
    rw [hop] at h
    exact .inr (mapM_readoutFidelity_eq_ok h)
  | barrier | delay | reset =>
    rw [hop] at h
    exact .inr h

end IbmTable

/-! ## Probabilities -/

/-- The product of numbers from `[0, 1]` is not above one. -/
theorem prod_le_one {xs : List Rat} (h : ∀ x ∈ xs, 0 ≤ x ∧ x ≤ 1) : xs.prod ≤ 1 := by
  induction xs with
  | nil => simp
  | cons x xs ih =>
    obtain ⟨⟨hnonneg, hone⟩, hrest⟩ := List.forall_mem_cons.1 h
    rw [List.prod_cons]
    exact mul_le_one₀ hone (List.prod_nonneg fun y hy => (hrest y hy).1) (ih hrest)

/-- The table gives the gate or a readout of the instruction an error rate of one. -/
def Instruction.SurelyFails (t : CalibrationTable Rat) (i : Instruction) : Prop :=
  ∃ table, t = .ibm table ∧ 1 ∈ table.errorRates i

section

variable {t : CalibrationTable Rat} {i : Instruction} {fs : List Rat} {f : Rat} {c : Circuit}

/-- The fidelities of an instruction are probabilities, and none is zero outside of error rates. -/
theorem instructionFidelities_bounds (ht : t.fault? = none)
    (h : instructionFidelities t i = .ok fs) (hf : f ∈ fs) :
    0 ≤ f ∧ f ≤ 1 ∧ (f = 0 → t.schema = .ibmCsv) := by
  rcases mem_instructionFidelities h hf with ⟨gate, qubits, hgate⟩ | ⟨qubit, hreadout⟩
  · exact (t.decides_gateFidelity gate qubits).bounds ht hgate
  · exact (t.decides_readoutFidelity qubit).bounds ht hreadout

/-- A fidelity of an instruction is zero only if one of its error rates is one. -/
theorem zero_mem_iff_surelyFails (ht : t.fault? = none)
    (h : instructionFidelities t i = .ok fs) : 0 ∈ fs ↔ i.SurelyFails t := by
  constructor
  · intro hzero
    have hschema := (instructionFidelities_bounds ht h hzero).2.2 rfl
    cases t with
    | rigetti t | oqc t | ionq t => cases hschema
    | ibm t =>
      refine ⟨t, rfl, ?_⟩
      rcases IbmTable.instructionFidelities_eq_ok h with ⟨-, hone⟩ | rfl
      · exact absurd (hone 0 hzero) zero_ne_one
      · obtain ⟨e, he, hsuccess⟩ := List.mem_map.1 hzero
        have hvalue : IbmTable.success e = 1 - e := rfl
        rwa [show e = 1 by linarith] at he
  · rintro ⟨t, rfl, hrate⟩
    rcases IbmTable.instructionFidelities_eq_ok h with ⟨hnone, -⟩ | rfl
    · rw [hnone] at hrate
      cases hrate
    · exact List.mem_map.2 ⟨1, hrate, sub_self 1⟩

/-- By a table in range the fidelity of a circuit is a probability, and zero exactly if one of its
instructions surely fails. -/
theorem calibrationFidelity_bounds (ht : t.fault? = none) (h : calibrationFidelity c t = .ok f) :
    0 ≤ f ∧ f ≤ 1 ∧ (f = 0 ↔ ∃ i ∈ c.instructions, i.SurelyFails t) := by
  obtain ⟨fidelities, hfidelities, rfl⟩ := calibrationFidelity_eq_ok_iff.1 h
  have hbounds : ∀ x ∈ fidelities.flatten, 0 ≤ x ∧ x ≤ 1 := by
    intro x hx
    obtain ⟨fs, hfs, hxfs⟩ := List.mem_flatten.1 hx
    obtain ⟨i, -, hi⟩ := exists_source_of_mapM_eq_ok hfidelities hfs
    obtain ⟨hnonneg, hone, -⟩ := instructionFidelities_bounds ht hi hxfs
    exact ⟨hnonneg, hone⟩
  have hproduct : fidelities.flatten.foldl (· * ·) Scalar.one = fidelities.flatten.prod :=
    List.prod_eq_foldl.symm
  rw [hproduct]
  refine ⟨List.prod_nonneg fun x hx => (hbounds x hx).1, prod_le_one hbounds, ?_⟩
  rw [List.prod_eq_zero_iff]
  constructor
  · intro hzero
    obtain ⟨fs, hfs, hzero⟩ := List.mem_flatten.1 hzero
    obtain ⟨i, hi, hfs⟩ := exists_source_of_mapM_eq_ok hfidelities hfs
    exact ⟨i, hi, (zero_mem_iff_surelyFails ht hfs).1 hzero⟩
  · rintro ⟨i, hi, hfails⟩
    obtain ⟨fs, hmem, hfs⟩ := exists_of_mapM_eq_ok hfidelities hi
    exact List.mem_flatten_of_mem hmem ((zero_mem_iff_surelyFails ht hfs).2 hfails)

end

/-! ## Tables that are taken -/

/-- The table with its values read exactly. -/
def CalibrationTable.exact (t : CalibrationTable Float) : CalibrationTable Rat := t.map Float.exact

/-- Read exactly, an entry in range still passes. -/
theorem CalibrationEntry.InRange.passes_exact {entry : CalibrationEntry Float}
    (h : entry.InRange) : (entry.map Float.exact).passes = true := by
  cases entry with
  | certain => rfl
  | error e =>
    obtain ⟨r, hr, hnonneg, hone⟩ := h
    simp [map, passes, IbmTable.isErrorRate, Float.exact, hr, hnonneg, hone]
  | fidelity f =>
    obtain ⟨r, hr, hpos, hone⟩ := h
    simp [map, passes, Float.exact, hr, hpos, hone]

/-- Read exactly, a table that was taken is in range. -/
theorem CalibrationTable.fault?_exact_of_parse {schema : CalibrationSchema} {source text : String}
    {t : CalibrationTable Float} (h : parse schema source text = .ok t) :
    t.exact.fault? = none := by
  rw [fault?_eq_none_iff, exact, entries_map, List.forall_mem_map]
  obtain ⟨content, -, rfl, hpasses⟩ := parse_eq_ok_iff.1 h
  intro entry hmem
  rw [CalibrationContent.mem_entries_table] at hmem
  exact (CalibrationEntry.passes_iff.1 (hpasses entry hmem)).passes_exact

/-- A circuit that has a fidelity by a table that was taken has, in exact arithmetic, a probability
as its fidelity.  It is zero exactly if the table is one of error rates and gives a gate or a
readout of the circuit an error rate of one, and it is one without gates and measurements. -/
theorem calibrationFidelity_of_parse {schema : CalibrationSchema} {source text : String}
    {t : CalibrationTable Float} (ht : CalibrationTable.parse schema source text = .ok t)
    {c : Circuit} {x : Float} (hx : calibrationFidelity c t = .ok x) :
    ∃ f, calibrationFidelity c t.exact = .ok f ∧ 0 ≤ f ∧ f ≤ 1 ∧
      (f = 0 ↔ schema = .ibmCsv ∧ ∃ i ∈ c.instructions, i.SurelyFails t.exact) ∧
      ((∀ i ∈ c.instructions, i.isGate = false ∧ i.isMeasure = false) → f = 1) := by
  obtain ⟨f, hf⟩ := exists_calibrationFidelity hx Float.exact
  obtain ⟨hnonneg, hone, hzero⟩ :=
    calibrationFidelity_bounds (CalibrationTable.fault?_exact_of_parse ht) hf
  have hschema : t.exact.schema = schema := by
    rw [← CalibrationTable.schema_of_parse ht]
    cases t <;> rfl
  refine ⟨f, hf, hnonneg, hone, hzero.trans ⟨?_, fun h => h.2⟩, fun hidle => ?_⟩
  · rintro ⟨i, hi, table, htable, hrate⟩
    rw [htable] at hschema
    exact ⟨hschema.symm, i, hi, table, htable, hrate⟩
  · exact Except.ok.inj (hf.symm.trans (calibrationFidelity_of_idle hidle t.exact))

/-- A circuit of one gate on one qubit. -/
def rootCircuit : Circuit :=
  match Circuit.sx 0 (Circuit.withSize "root" 1 0) with
  | .ok _ c => c
  | .error _ c => c

/-- An export that says of the gate that it goes wrong every other time. -/
def evenExport : String := "header\n0,,,,,,,,,,0.5"

/-- The row of the export. -/
def evenRows : List (IbmRow Float) := [⟨0, none, some 0.5, none, []⟩]

/-- The export of error rates of one half is read, and the circuit has a probability there. -/
theorem calibrationFidelity_of_parse_evenExport :
    CalibrationTable.parse .ibmCsv "export.csv" evenExport =
        .ok (CalibrationContent.ibm evenRows).table ∧
      ∃ f, calibrationFidelity rootCircuit (CalibrationContent.ibm evenRows).table.exact = .ok f ∧
        0 ≤ f ∧ f ≤ 1 := by
  have hparse : CalibrationTable.parse .ibmCsv "export.csv" evenExport =
      .ok (CalibrationContent.ibm evenRows).table :=
    CalibrationTable.parse_eq_ok_iff.2
      ⟨.ibm evenRows, CalibrationContent.ofText_ibm (by decide +kernel), rfl, by decide +kernel⟩
  have hfidelity : calibrationFidelity rootCircuit (CalibrationContent.ibm evenRows).table =
      .ok (Scalar.one * IbmTable.success 0.5) := rfl
  obtain ⟨f, hf, hnonneg, hone, -⟩ := calibrationFidelity_of_parse hparse hfidelity
  exact ⟨hparse, f, hf, hnonneg, hone⟩

/-- An export that says of the gate that it goes wrong every time. -/
def failingExport : String := "header\n0,,,,,,,,,,1"

/-- The row of the export. -/
def failingRows : List (IbmRow Float) := [⟨0, none, some 1, none, []⟩]

/-- The export is taken and the circuit has a fidelity by it, which is zero. -/
theorem calibrationFidelity_failingExport :
    CalibrationTable.parse .ibmCsv "export.csv" failingExport =
        .ok (CalibrationContent.ibm failingRows).table ∧
      calibrationFidelity rootCircuit (CalibrationContent.ibm failingRows).table =
        .ok (Scalar.one * IbmTable.success 1) ∧
      ¬∃ f, calibrationFidelity rootCircuit (CalibrationContent.ibm failingRows).table.exact =
        .ok f ∧ 0 < f ∧ f ≤ 1 := by
  refine ⟨CalibrationTable.parse_eq_ok_iff.2
    ⟨.ibm failingRows, CalibrationContent.ofText_ibm (by decide +kernel), rfl, by decide +kernel⟩,
    rfl, ?_⟩
  rintro ⟨f, hf, hpos, -⟩
  have hzero : (calibrationFidelity rootCircuit
      (CalibrationContent.ibm failingRows).table.exact).toOption = some 0 := by decide +kernel
  rw [hf] at hzero
  obtain rfl := Option.some.inj hzero
  exact lt_irrefl _ hpos

end PathSelection
