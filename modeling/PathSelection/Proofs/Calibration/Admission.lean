import PathSelection.Proofs.Calibration.Content
import PathSelection.Proofs.Number.Order

/-!
# Which tables are taken

A table is taken exactly if the entries that its text leaves standing are in
range, read as the numbers that the doubles are.  From a table that is taken a
lookup misses an entry or answers with a probability.

Main results:

- Theorem `CalibrationEntry.passes_iff`: what the check of an entry lets pass.
- Theorem `CalibrationTable.parse_admits`: which texts are taken, and what their tables answer.
-/

namespace PathSelection

namespace CalibrationEntry

/-- An error rate in `[0, 1]`, or a fidelity in `(0, 1]`; infinities and NaN are neither. -/
def InRange : CalibrationEntry Float → Prop
  | certain => True
  | error e => ∃ r, Float.value? e = some r ∧ 0 ≤ r ∧ r ≤ 1
  | fidelity f => ∃ r, Float.value? f = some r ∧ 0 < r ∧ r ≤ 1

variable {entry : CalibrationEntry Float} {f : Float}

/-- The check of an entry lets pass what is in range. -/
theorem passes_iff : entry.passes = true ↔ entry.InRange := by
  cases entry with
  | certain => exact iff_of_true rfl trivial
  | error e =>
    rw [passes, IbmTable.isErrorRate, Bool.and_eq_true, le_le_iff value?_zero value?_one, InRange]
  | fidelity f => rw [passes, Bool.and_eq_true, lt_le_iff value?_zero value?_one, InRange]

/-- An entry in range states a probability, and a fidelity does not state zero. -/
theorem InRange.exists_value? (h : entry.InRange) :
    ∃ r, Float.value? entry.value = some r ∧ 0 ≤ r ∧ r ≤ 1 := by
  cases entry with
  | certain => exact ⟨1, value?_one, zero_le_one, le_rfl⟩
  | error e =>
    obtain ⟨r, hr, hnonneg, hone⟩ := h
    exact between_one_sub hr hnonneg hone
  | fidelity f =>
    obtain ⟨r, hr, hpos, hone⟩ := h
    exact ⟨r, hr, hpos.le, hone⟩

end CalibrationEntry

namespace CalibrationTable

/-- A lookup in a table of a format misses an entry or answers with a probability, which is zero
only where error rates are stated. -/
def IsAnswer (schema : CalibrationSchema) (answer : Except DeviceError Float) : Prop :=
  (∃ what, answer = .error (.missingEntry what)) ∨
    ∃ x r, answer = .ok x ∧ Float.value? x = some r ∧ 0 ≤ r ∧ r ≤ 1 ∧ (schema ≠ .ibmCsv → 0 < r)

section

variable {α : Type} [Scalar α] {t : CalibrationTable α} {schema : CalibrationSchema}
  {source text : String}

/-- A table is taken if it is that of what the text says and all of its entries pass. -/
theorem parse_eq_ok_iff : parse schema source text = .ok t ↔
    ∃ content, CalibrationContent.ofText schema text = .ok content ∧ content.table = t ∧
      ∀ entry ∈ content.entries, entry.passes = true := by
  have hfault (content : CalibrationContent α) :
      content.table.fault? = none ↔ ∀ entry ∈ content.entries, entry.passes = true := by
    simp only [fault?_eq_none_iff, CalibrationContent.mem_entries_table]
  rw [parse, CalibrationContent.ofText_eq]
  cases CalibrationContent.ofText (α := α) schema text with
  | error fault => simp [Except.map]
  | ok content =>
    simp only [Except.map, Except.ok.injEq, exists_eq_left', ← hfault]
    cases content.table.fault? <;> simp

/-- A table is of the format that it is read in. -/
theorem schema_of_parse (h : parse schema source text = .ok t) : t.schema = schema := by
  obtain ⟨content, hcontent, rfl, -⟩ := parse_eq_ok_iff.1 h
  have htable : ofText schema text = .ok content.table := by
    rw [CalibrationContent.ofText_eq, hcontent]
    rfl
  have hmap {β : Type} {x : Except CalibrationFault β} {make : β → CalibrationTable α}
      (hmake : ∀ b, (make b).schema = schema) (hx : x.map make = .ok content.table) :
      content.table.schema = schema := by
    cases x with
    | error fault => cases hx
    | ok b => exact Except.ok.inj hx ▸ hmake b
  cases schema <;> exact hmap (fun b => rfl) htable

end

variable {schema : CalibrationSchema} {t : CalibrationTable Float}

/-- What is looked up in a table in range is a probability. -/
theorem Decides.isAnswer
    {lookup : {β : Type} → [Scalar β] → CalibrationTable β → Except DeviceError β}
    (hlookup : t.Decides lookup) (h : ∀ entry ∈ t.entries, entry.InRange) :
    IsAnswer t.schema (lookup t) := by
  rcases hlookup with ⟨what, hmissing⟩ | ⟨entry, hmem, hfound⟩
  · left
    exact ⟨what, by simpa only [map_id] using hmissing id⟩
  · right
    have hvalue : lookup t = .ok entry.value := by
      simpa only [map_id, CalibrationEntry.map_id] using hfound id
    obtain ⟨r, hr, hnonneg, hone⟩ := (h entry hmem).exists_value?
    refine ⟨entry.value, r, hvalue, hr, hnonneg, hone, fun hschema => ?_⟩
    obtain ⟨f, rfl⟩ := exists_fidelity_of_mem hmem hschema
    obtain ⟨q, hq, hpos, -⟩ := h _ hmem
    obtain rfl : q = r := Option.some.inj (hq.symm.trans hr)
    exact hpos

/-- A text is taken exactly if the entries that it leaves standing are in range, and the lookups
in its table answer with probabilities. -/
theorem parse_admits (schema : CalibrationSchema) (source text : String) :
    (∀ content : CalibrationContent Float, CalibrationContent.ofText schema text = .ok content →
      (parse schema source text = .ok content.table ↔ ∀ entry ∈ content.entries, entry.InRange) ∧
        ∀ t, parse schema source text = .ok t → t = content.table) ∧
    ∀ t : CalibrationTable Float, parse schema source text = .ok t →
      (∀ gate qubits, IsAnswer schema (t.gateFidelity gate qubits)) ∧
        ∀ qubit, IsAnswer schema (t.readoutFidelity qubit) := by
  refine ⟨fun content hcontent => ⟨?_, fun t ht => ?_⟩, fun t ht => ?_⟩
  · simp only [parse_eq_ok_iff, hcontent, Except.ok.injEq, exists_eq_left', true_and,
      CalibrationEntry.passes_iff]
  · obtain ⟨content', hcontent', rfl, -⟩ := parse_eq_ok_iff.1 ht
    rw [Except.ok.inj (hcontent'.symm.trans hcontent)]
  · obtain rfl := schema_of_parse ht
    have hrange : ∀ entry ∈ t.entries, entry.InRange := by
      obtain ⟨content, -, rfl, hpasses⟩ := parse_eq_ok_iff.1 ht
      intro entry hmem
      rw [CalibrationContent.mem_entries_table] at hmem
      exact CalibrationEntry.passes_iff.1 (hpasses entry hmem)
    exact ⟨fun gate qubits => (t.decides_gateFidelity gate qubits).isAnswer hrange,
      fun qubit => (t.decides_readoutFidelity qubit).isAnswer hrange⟩

/-- An export that says twice how likely the readout of a qubit goes wrong. -/
def replacedExport : String := "header\nQ0,,,,,2\nQ0,,,,,0.5"

/-- The rows of the export. -/
def replacedRows : List (IbmRow Float) :=
  [⟨0, some 2, none, none, []⟩, ⟨0, some 0.5, none, none, []⟩]

/-- The value that is out of range is replaced, and the table is taken. -/
theorem parse_admits_replacedExport :
    parse .ibmCsv "export.csv" replacedExport = .ok (CalibrationContent.ibm replacedRows).table ∧
      IsAnswer .ibmCsv ((CalibrationContent.ibm replacedRows).table.readoutFidelity 0) := by
  have hcontent : CalibrationContent.ofText .ibmCsv replacedExport = .ok (.ibm replacedRows) :=
    CalibrationContent.ofText_ibm (by decide +kernel)
  have hpasses : ∀ entry ∈ (CalibrationContent.ibm replacedRows).entries, entry.passes = true := by
    decide +kernel
  have hparse := ((parse_admits .ibmCsv "export.csv" replacedExport).1 _ hcontent).1.2
    fun entry hmem => CalibrationEntry.passes_iff.1 (hpasses entry hmem)
  exact ⟨hparse, ((parse_admits .ibmCsv "export.csv" replacedExport).2 _ hparse).2 0⟩

end CalibrationTable

end PathSelection
