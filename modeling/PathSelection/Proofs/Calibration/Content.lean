import PathSelection.Proofs.Calibration.Entries
import PathSelection.Proofs.Json.Records

/-!
# The content of an export

What an export says, value after value, before a later value for the same qubit
or pair of qubits replaces an earlier one.  The table that is read is that of the
last values, and its entries are theirs.

Main results:

- Theorem `Dict.holdsLast_ofEntries`: a dictionary holds the last value of each key.
- Theorem `CalibrationContent.ofText_eq`: a table is the table of what the export says.
- Theorem `CalibrationContent.mem_entries_table`: its entries are those that no later one replaces.
-/

namespace PathSelection

/-! ## Last values -/

section

variable {κ ν : Type} [BEq κ] [LawfulBEq κ] {d : Dict κ ν} {entries : List (κ × ν)} {j k : κ}
  {v w : ν}

omit [BEq κ] [LawfulBEq κ] in
/-- A value that no later value for the same key replaces. -/
def IsLast (entries : List (κ × ν)) (k : κ) (v : ν) : Prop :=
  ∃ before behind, entries = before ++ (k, v) :: behind ∧ ∀ p ∈ behind, p.1 ≠ k

omit [BEq κ] [LawfulBEq κ] in
private theorem not_isLast_nil : ¬IsLast ([] : List (κ × ν)) k v := by
  rintro ⟨before, behind, hentries, -⟩
  simp at hentries

omit [BEq κ] [LawfulBEq κ] in
/-- The last value of a key is the first one, or one of those behind it. -/
theorem isLast_cons_iff :
    IsLast ((j, w) :: entries) k v ↔ ((k, v) = (j, w) ∧ ∀ p ∈ entries, p.1 ≠ k) ∨
      IsLast entries k v := by
  constructor
  · rintro ⟨before, behind, hentries, hlater⟩
    cases before with
    | nil =>
      obtain ⟨hentry, rfl⟩ := List.cons.inj hentries
      exact .inl ⟨hentry.symm, hlater⟩
    | cons p before =>
      obtain ⟨-, rfl⟩ := List.cons.inj hentries
      exact .inr ⟨before, behind, rfl, hlater⟩
  · rintro (⟨hentry, hlater⟩ | ⟨before, behind, rfl, hlater⟩)
    · exact ⟨[], entries, by rw [hentry, List.nil_append], hlater⟩
    · exact ⟨(j, w) :: before, behind, rfl, hlater⟩

omit [LawfulBEq κ] in
/-- The values that no later value for the same key replaces. -/
def lastValues : List (κ × ν) → List ν
  | [] => []
  | (k, v) :: rest => if rest.any (·.1 == k) then lastValues rest else v :: lastValues rest

private theorem mem_lastValues_iff : v ∈ lastValues entries ↔ ∃ k, IsLast entries k v := by
  induction entries with
  | nil => simp [lastValues, not_isLast_nil]
  | cons entry rest ih =>
    obtain ⟨j, w⟩ := entry
    simp only [isLast_cons_iff, exists_or, ← ih]
    by_cases hlater : ∀ p ∈ rest, p.1 ≠ j
    · have hany : rest.any (·.1 == j) = false := by simpa using hlater
      simp only [lastValues, hany, Bool.false_eq_true, if_false, List.mem_cons, Prod.mk.injEq]
      refine or_congr_left ⟨?_, ?_⟩
      · rintro rfl
        exact ⟨j, ⟨rfl, rfl⟩, hlater⟩
      · rintro ⟨k, ⟨-, rfl⟩, -⟩
        rfl
    · have hany : rest.any (·.1 == j) = true := by simpa using hlater
      simp only [lastValues, hany, if_true, Prod.mk.injEq]
      refine ⟨.inr, ?_⟩
      rintro (⟨k, ⟨rfl, -⟩, hk⟩ | hmem)
      · exact absurd hk hlater
      · exact hmem

namespace Dict

/-- No key of a dictionary comes twice. -/
def KeysNodup (d : Dict κ ν) : Prop := (d.map (·.1)).Nodup

private theorem mem_put_iff (h : KeysNodup d) :
    (j, w) ∈ d.put k v ↔ (j = k ∧ w = v) ∨ (j ≠ k ∧ (j, w) ∈ d) := by
  induction d with
  | nil => simp [put]
  | cons p d ih =>
    rcases p with ⟨i, u⟩
    obtain ⟨hhead, htail⟩ := List.nodup_cons.1 h
    by_cases hk : i = k
    · subst hk
      have hne : (j, w) ∈ d → j ≠ i := by
        rintro hmem rfl
        exact hhead (List.mem_map.2 ⟨_, hmem, rfl⟩)
      simp only [put, beq_self_eq_true, if_true, List.mem_cons, Prod.mk.injEq]
      grind
    · simp only [put, beq_iff_eq, hk, if_false, List.mem_cons, Prod.mk.injEq, ih htail]
      grind

private theorem KeysNodup.put (h : KeysNodup d) (k : κ) (v : ν) : KeysNodup (d.put k v) := by
  induction d with
  | nil => simp [KeysNodup, Dict.put]
  | cons p d ih =>
    rcases p with ⟨i, u⟩
    obtain ⟨hhead, htail⟩ := List.nodup_cons.1 h
    by_cases hk : i = k
    · simpa [KeysNodup, Dict.put, hk] using h
    · simp only [KeysNodup, Dict.put, beq_iff_eq, hk, if_false, List.map_cons, List.nodup_cons]
      refine ⟨fun hmem => ?_, ih htail⟩
      obtain ⟨⟨j, w⟩, hentry, rfl⟩ := List.mem_map.1 hmem
      rcases (mem_put_iff htail).1 hentry with ⟨heq, -⟩ | ⟨-, hentry⟩
      · exact hk heq
      · exact hhead (List.mem_map.2 ⟨_, hentry, rfl⟩)

private theorem KeysNodup.foldl_put (h : KeysNodup d) (entries : List (κ × ν)) :
    KeysNodup (entries.foldl (fun d (k, v) => d.put k v) d) := by
  induction entries generalizing d with
  | nil => exact h
  | cons entry entries ih => exact ih (h.put entry.1 entry.2)

/-- After a list of entries a value stands under a key if it is the last one there, or was there
and is not replaced. -/
theorem mem_foldl_put_iff (h : KeysNodup d) :
    (k, v) ∈ entries.foldl (fun d (k, v) => d.put k v) d ↔
      IsLast entries k v ∨ ((k, v) ∈ d ∧ ∀ p ∈ entries, p.1 ≠ k) := by
  induction entries generalizing d with
  | nil => simp [not_isLast_nil]
  | cons entry entries ih =>
    rcases entry with ⟨j, w⟩
    rw [List.foldl_cons, ih (h.put j w), isLast_cons_iff, mem_put_iff h, List.forall_mem_cons,
      Prod.mk.injEq]
    constructor
    · rintro (hlast | ⟨hentry | ⟨hne, hmem⟩, hlater⟩)
      · exact .inl (.inr hlast)
      · exact .inl (.inl ⟨hentry, hlater⟩)
      · exact .inr ⟨hmem, hne.symm, hlater⟩
    · rintro ((⟨hentry, hlater⟩ | hlast) | ⟨hmem, hne, hlater⟩)
      · exact .inr ⟨.inl hentry, hlater⟩
      · exact .inl hlast
      · exact .inr ⟨.inr ⟨hne.symm, hmem⟩, hlater⟩

/-- What stands in the dictionary of a list of entries are the last values. -/
theorem mem_ofEntries_iff : (k, v) ∈ ofEntries entries ↔ IsLast entries k v := by
  rw [ofEntries, mem_foldl_put_iff (by simp [KeysNodup])]
  simp

/-- A dictionary of the last values of entries, and of nothing else. -/
structure HoldsLast (d : Dict κ ν) (entries : List (κ × ν)) : Prop where
  keysNodup : KeysNodup d
  mem_iff (k : κ) (v : ν) : (k, v) ∈ d ↔ IsLast entries k v
  get?_eq_some_iff (k : κ) (v : ν) : d.get? k = some v ↔ IsLast entries k v

/-- What is found under a key is what stands there. -/
theorem KeysNodup.get?_eq_some_iff (h : KeysNodup d) : d.get? k = some v ↔ (k, v) ∈ d := by
  rw [get?, List.lookup_eq_some_iff]
  constructor
  · rintro ⟨before, behind, rfl, -⟩
    simp
  · intro hmem
    obtain ⟨before, behind, rfl⟩ := List.append_of_mem hmem
    refine ⟨before, behind, rfl, fun p hp => ?_⟩
    rw [KeysNodup, List.map_append, List.nodup_append] at h
    have hne : p.1 ≠ k := h.2.2 p.1 (List.mem_map_of_mem hp) k (by simp)
    simpa using hne.symm

/-- The dictionary of a list of entries holds the last values. -/
theorem holdsLast_ofEntries (entries : List (κ × ν)) : HoldsLast (ofEntries entries) entries := by
  have hkeys : KeysNodup (ofEntries entries) :=
    KeysNodup.foldl_put (by simp [KeysNodup]) entries
  exact ⟨hkeys, fun _ _ => mem_ofEntries_iff,
    fun _ _ => hkeys.get?_eq_some_iff.trans mem_ofEntries_iff⟩

/-- The values of the dictionary of a list of entries are the last ones. -/
theorem mem_values_ofEntries : v ∈ (ofEntries entries).values ↔ v ∈ lastValues entries := by
  simp [mem_lastValues_iff, ← mem_ofEntries_iff, values]

end Dict

private theorem mem_values_sortedTable {α : Type} {entries : List (String × α)} {a : α} :
    a ∈ (sortedTable entries).values ↔ a ∈ lastValues entries := by
  rw [← Dict.mem_values_ofEntries, sortedTable, Dict.sorted, Dict.values, Dict.values]
  exact ((List.mergeSort_perm _ _).map _).mem_iff

end

/-! ## Content -/

/-- What a row of a table of error rates says. -/
structure IbmRow (α : Type) where
  qubit : Nat
  readout : Option α
  sx : Option α
  x : Option α
  cx : List ((Nat × Nat) × α)
  deriving DecidableEq

/-- What an export says, in the order of the text. -/
inductive CalibrationContent (α : Type) where
  | ibm (rows : List (IbmRow α))
  | rigetti (qubits : List (String × RigettiQubit α)) (pairs : List (String × RigettiPair α))
  | oqc (qubits pairs : List (String × List α))
  | ionq (means : IonqTable α)

namespace IbmRow

variable {α : Type}

/-- What a row says of its qubit in a column. -/
def stated? (column : IbmRow α → Option α) (row : IbmRow α) : Option (Nat × α) :=
  (column row).map (row.qubit, ·)

/-- The table with the entries of one more row. -/
def addTo (t : IbmTable α) (row : IbmRow α) : IbmTable α where
  readout := IbmTable.putSome t.readout row.qubit row.readout
  sx := IbmTable.putSome t.sx row.qubit row.sx
  x := IbmTable.putSome t.x row.qubit row.x
  cx := row.cx.foldl (fun d (pair, error) => d.put pair error) t.cx

variable [Scalar α]

/-- The row of a list of fields. -/
def ofFields (row : List (List Char)) : Except String (IbmRow α) := do
  let q ← match IbmTable.qubitOf? row with
    | some q => .ok q
    | none => .error "missing qubit index"
  let readout ← IbmTable.numberIn row IbmTable.readoutColumn
  let sx ← IbmTable.numberIn row IbmTable.sxColumn
  let x ← IbmTable.numberIn row IbmTable.xColumn
  let cx ← IbmTable.cxEntries row
  return ⟨q, readout, sx, x, cx⟩

/-- The row of a line; a blank line has none. -/
def ofLine (entry : List Char × Nat) : Except CalibrationFault (Option (IbmRow α)) :=
  let (line, index) := entry
  if (trimChars line).isEmpty then .ok none
  else match ofFields (Csv.readRow line) with
    | .ok row => .ok (some row)
    | .error message => .error (.rule s!"line {index + 1}: {message}")

/-- The rows of an export, whose first line names the columns. -/
def ofText (text : String) : Except CalibrationFault (List (IbmRow α)) :=
  (((linesOf text.toList).zipIdx.drop 1).mapM ofLine).map List.reduceOption

end IbmRow

namespace IbmTable

variable {α : Type}

/-- The table of the last values of rows. -/
def ofRows (rows : List (IbmRow α)) : IbmTable α where
  readout := Dict.ofEntries (rows.filterMap (·.stated? (·.readout)))
  sx := Dict.ofEntries (rows.filterMap (·.stated? (·.sx)))
  x := Dict.ofEntries (rows.filterMap (·.stated? (·.x)))
  cx := Dict.ofEntries (rows.flatMap (·.cx))

private theorem foldl_putSome (column : IbmRow α → Option α) (rows : List (IbmRow α))
    (d : Dict Nat α) :
    rows.foldl (fun d row => putSome d row.qubit (column row)) d =
      (rows.filterMap (·.stated? column)).foldl (fun d (k, v) => d.put k v) d := by
  induction rows generalizing d with
  | nil => rfl
  | cons row rows ih =>
    rw [List.foldl_cons, ih, List.filterMap_cons]
    cases hcolumn : column row <;> simp [IbmRow.stated?, hcolumn, putSome]

private theorem foldl_addTo (rows : List (IbmRow α)) (t : IbmTable α) :
    rows.foldl IbmRow.addTo t = {
      readout := rows.foldl (fun d row => putSome d row.qubit row.readout) t.readout
      sx := rows.foldl (fun d row => putSome d row.qubit row.sx) t.sx
      x := rows.foldl (fun d row => putSome d row.qubit row.x) t.x
      cx := (rows.flatMap (·.cx)).foldl (fun d (pair, error) => d.put pair error) t.cx } := by
  induction rows generalizing t with
  | nil => rfl
  | cons row rows ih =>
    rw [List.foldl_cons, ih, List.flatMap_cons, List.foldl_append]
    rfl

/-- Rows added one after the other make the table of their last values. -/
theorem foldl_addTo_empty (rows : List (IbmRow α)) :
    rows.foldl IbmRow.addTo empty = ofRows rows := by
  rw [foldl_addTo]
  simp only [foldl_putSome]
  rfl

variable [Scalar α]

private theorem addRow_eq (t : IbmTable α) (row : List (List Char)) :
    t.addRow row = (IbmRow.ofFields row).map (IbmRow.addTo t) := by
  change _ = IbmRow.addTo t <$> IbmRow.ofFields row
  simp only [addRow, IbmRow.ofFields]
  cases qubitOf? row with
  | none => rfl
  | some q =>
    simp only [map_bind, map_pure]
    rfl

private theorem addLine_eq (t : IbmTable α) (entry : List Char × Nat) :
    t.addLine entry = (IbmRow.ofLine entry).map fun row => row.toList.foldl IbmRow.addTo t := by
  rcases entry with ⟨line, index⟩
  simp only [addLine, IbmRow.ofLine, addRow_eq]
  split
  · rfl
  · cases IbmRow.ofFields (α := α) (Csv.readRow line) <;> rfl

/-- Lines are added one after the other as their rows are. -/
theorem foldlM_addLine (lines : List (List Char × Nat)) (t : IbmTable α) :
    lines.foldlM addLine t =
      (lines.mapM IbmRow.ofLine).map fun rows => rows.reduceOption.foldl IbmRow.addTo t := by
  induction lines generalizing t with
  | nil => rfl
  | cons line lines ih =>
    rw [List.foldlM_cons, List.mapM_cons, addLine_eq]
    cases hline : IbmRow.ofLine (α := α) line with
    | error e => rfl
    | ok row =>
      simp only [bind, Except.bind, Except.map, ih]
      cases lines.mapM (IbmRow.ofLine (α := α)) with
      | error e => rfl
      | ok rows => cases row <;> rfl

/-- A table of error rates is that of the last values of its rows. -/
theorem ofText_eq (text : String) : ofText (α := α) text = (IbmRow.ofText text).map ofRows := by
  rw [ofText, foldlM_addLine, IbmRow.ofText]
  cases ((linesOf text.toList).zipIdx.drop 1).mapM (IbmRow.ofLine (α := α)) with
  | error e => rfl
  | ok rows => exact congrArg Except.ok (foldl_addTo_empty rows.reduceOption)

end IbmTable

namespace CalibrationContent

variable {α : Type}

/-- The table of the last values. -/
def table : CalibrationContent α → CalibrationTable α
  | ibm rows => .ibm (IbmTable.ofRows rows)
  | rigetti qubits pairs => .rigetti ⟨sortedTable qubits, sortedTable pairs⟩
  | oqc qubits pairs => .oqc ⟨sortedTable qubits, sortedTable pairs⟩
  | ionq means => .ionq means

/-- All entries that no later one for the same qubit or pair of qubits replaces. -/
def entries : CalibrationContent α → List (CalibrationEntry α)
  | ibm rows =>
    IbmTable.entriesOf (lastValues (rows.filterMap (·.stated? (·.readout))))
      (lastValues (rows.filterMap (·.stated? (·.sx))))
      (lastValues (rows.filterMap (·.stated? (·.x)))) (lastValues (rows.flatMap (·.cx)))
  | rigetti qubits pairs => RigettiTable.entriesOf (lastValues qubits) (lastValues pairs)
  | oqc qubits pairs => OqcTable.entriesOf (lastValues qubits) (lastValues pairs)
  | ionq means => means.entries

/-- The entries of the table are those that no later one replaces. -/
theorem mem_entries_table {content : CalibrationContent α} {entry : CalibrationEntry α} :
    entry ∈ content.table.entries ↔ entry ∈ content.entries := by
  cases content with
  | ibm rows =>
    simp [table, entries, CalibrationTable.entries, IbmTable.entriesOf, IbmTable.ofRows,
      Dict.mem_values_ofEntries]
  | rigetti qubits pairs =>
    simp [table, entries, CalibrationTable.entries, RigettiTable.entriesOf, mem_values_sortedTable]
  | oqc qubits pairs =>
    simp [table, entries, CalibrationTable.entries, OqcTable.entriesOf, mem_values_sortedTable]
  | ionq means => rfl

variable [Scalar α]

open Json (Decoder recordOf)
open Json.Fields (required optional defaulted)

/-- Reads the records of qubits and of pairs. -/
def rigettiDecoder : Decoder (CalibrationContent α) :=
  let qubit : Decoder (RigettiQubit α) :=
    recordOf "RigettiQubitSpec"
      (RigettiQubit.mk <$> optional "f1QRB" Decoder.number <*> optional "fRO" Decoder.number)
  let pair : Decoder (RigettiPair α) :=
    recordOf "RigettiEdgeSpec" (RigettiPair.mk <$> optional "fCZ" Decoder.number)
  let specs : Decoder (CalibrationContent α) :=
    recordOf "RigettiSpecs"
      (rigetti <$> defaulted "1Q" [] (Decoder.tableOf qubit)
        <*> defaulted "2Q" [] (Decoder.tableOf pair))
  recordOf "RigettiCalibration" (required "specs" specs)

/-- Reads the lists of qubits and of pairs. -/
def oqcDecoder : Decoder (CalibrationContent α) :=
  let fidelity : Decoder α := recordOf "OqcFidelity" (required "fidelity" Decoder.number)
  let qubit : Decoder (List α) :=
    recordOf "OqcQubitProperties" (required "oneQubitFidelity" (Decoder.listOf fidelity))
  let pair : Decoder (List α) :=
    recordOf "OqcEdgeProperties" (required "twoQubitGateFidelity" (Decoder.listOf fidelity))
  recordOf "OqcCalibration"
    (oqc <$> defaulted "oneQubitProperties" [] (Decoder.tableOf qubit)
      <*> defaulted "twoQubitProperties" [] (Decoder.tableOf pair))

/-- What a text says, whatever its values. -/
def ofText (schema : CalibrationSchema) (text : String) :
    Except CalibrationFault (CalibrationContent α) :=
  match schema with
  | .ibmCsv => (IbmRow.ofText text).map ibm
  | .rigettiSpecs => CalibrationTable.document rigettiDecoder text
  | .oqcProperties => CalibrationTable.document oqcDecoder text
  | .ionqMean => (CalibrationTable.document IonqTable.decoder text).map ionq

omit [Scalar α] in
/-- A sorted table is made of the entries of the document. -/
theorem defaulted_sortedTableOf (name : String) (item : Decoder α) :
    defaulted name [] (Decoder.sortedTableOf item) =
      sortedTable <$> defaulted name [] (Decoder.tableOf item) := by
  have hempty : sortedTable ([] : List (String × α)) = [] := by
    simp [sortedTable, Dict.sorted, Dict.ofEntries]
  have hfield := Json.Fields.field_map name (Decoder.tableOf item) sortedTable (some []) (some [])
  rwa [Option.map_some, hempty] at hfield

omit [Scalar α] in
private theorem required_map {β : Type} (name : String) (item : Decoder α) (g : α → β) :
    required name (fun v => (item v).map g) = g <$> required name item :=
  Json.Fields.field_map name item g none none

private theorem rigettiDecoder_eq :
    (fun v => (RigettiTable.decoder (α := α) v).map CalibrationTable.rigetti) =
      fun v => (rigettiDecoder (α := α) v).map table := by
  funext v
  simp only [RigettiTable.decoder, rigettiDecoder]
  rw [← Json.recordOf_map, ← Json.recordOf_map, ← required_map, ← required_map]
  congr 2
  funext w
  rw [← Json.recordOf_map, ← Json.recordOf_map, defaulted_sortedTableOf, defaulted_sortedTableOf,
    Json.Fields.map_seq, Json.Fields.map_map_seq, Json.Fields.map_map_seq]
  rfl

private theorem oqcDecoder_eq :
    (fun v => (OqcTable.decoder (α := α) v).map CalibrationTable.oqc) =
      fun v => (oqcDecoder (α := α) v).map table := by
  funext v
  simp only [OqcTable.decoder, oqcDecoder]
  rw [← Json.recordOf_map, ← Json.recordOf_map, defaulted_sortedTableOf, defaulted_sortedTableOf,
    Json.Fields.map_seq, Json.Fields.map_map_seq, Json.Fields.map_map_seq]
  rfl

private theorem document_map {β γ : Type} (item : Decoder β) (g : β → γ) (text : String) :
    CalibrationTable.document (fun v => (item v).map g) text =
      (CalibrationTable.document item text).map g := by
  rw [CalibrationTable.document, CalibrationTable.document, Json.parse_map]
  cases Json.parse item text <;> rfl

/-- The table of a text is that of what the text says. -/
theorem ofText_eq (schema : CalibrationSchema) (text : String) :
    CalibrationTable.ofText (α := α) schema text = (ofText schema text).map table := by
  cases schema with
  | ibmCsv =>
    simp only [CalibrationTable.ofText, ofText, IbmTable.ofText_eq]
    cases IbmRow.ofText (α := α) text <;> rfl
  | rigettiSpecs =>
    simp only [CalibrationTable.ofText, ofText, ← document_map, rigettiDecoder_eq]
  | oqcProperties =>
    simp only [CalibrationTable.ofText, ofText, ← document_map, oqcDecoder_eq]
  | ionqMean =>
    simp only [CalibrationTable.ofText, ofText]
    cases CalibrationTable.document (IonqTable.decoder (α := α)) text <;> rfl

/-- What an export of rows says, from the rows that are read. -/
theorem ofText_ibm {text : String} {rows : List (IbmRow α)}
    (h : (IbmRow.ofText text).toOption = some rows) : ofText .ibmCsv text = .ok (ibm rows) := by
  rw [ofText, toOption_eq_some_iff.1 h]
  rfl

end CalibrationContent

end PathSelection
