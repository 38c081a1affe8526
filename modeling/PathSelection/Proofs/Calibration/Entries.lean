import PathSelection.Calibration.Table

/-!
# The entries of a table

What a table states, each value with what it means: an error rate or a
fidelity.  The check of a table goes over all of its entries, and a lookup misses
an entry or answers with one of them; which one does not depend on the kind of
number that the entries are.

Main results:

- Theorem `CalibrationTable.fault?_eq_none_iff`: a table has no fault if no entry has one.
- Theorem `CalibrationTable.decides_gateFidelity`: one entry decides the fidelity of a gate.
- Theorem `CalibrationTable.decides_readoutFidelity`: one entry decides that of a readout.
-/

namespace PathSelection

/-! ## Dictionaries -/

namespace Dict

variable {κ ν μ : Type} [BEq κ] [LawfulBEq κ] {d : Dict κ ν} {k : κ} {v : ν}

/-- What is found in a dictionary is one of its entries. -/
theorem mem_of_get? (h : d.get? k = some v) : (k, v) ∈ d := by
  induction d with
  | nil => simp [get?] at h
  | cons p d ih =>
    rcases p with ⟨j, w⟩
    by_cases hk : k == j
    · obtain rfl : k = j := eq_of_beq hk
      obtain rfl : w = v := by simpa [get?] using h
      exact List.mem_cons_self
    · have htail : get? d k = some v := by simpa [get?, List.lookup_cons, hk] using h
      exact List.mem_cons_of_mem _ (ih htail)

/-- What is found in a dictionary is one of its values. -/
theorem mem_values_of_get? (h : d.get? k = some v) : v ∈ d.values :=
  List.mem_map.2 ⟨(k, v), mem_of_get? h, rfl⟩

/-- The dictionary with other values under the same keys. -/
def mapValues (φ : ν → μ) (d : Dict κ ν) : Dict κ μ := d.map fun (k, v) => (k, φ v)

omit [LawfulBEq κ] in
@[simp]
theorem get?_mapValues (φ : ν → μ) (d : Dict κ ν) (k : κ) :
    (d.mapValues φ).get? k = (d.get? k).map φ := by
  induction d with
  | nil => rfl
  | cons p d ih =>
    rcases p with ⟨j, w⟩
    simp only [get?, mapValues, List.map_cons, List.lookup_cons] at ih ⊢
    split
    · rfl
    · exact ih

omit [BEq κ] [LawfulBEq κ] in
@[simp]
theorem values_mapValues (φ : ν → μ) (d : Dict κ ν) : (d.mapValues φ).values = d.values.map φ := by
  simp [values, mapValues]

omit [BEq κ] [LawfulBEq κ] in
@[simp]
theorem mapValues_id (d : Dict κ ν) : d.mapValues id = d := by
  simp [mapValues]

end Dict

/-! ## Entries -/

/-- What a lookup can find in a table. -/
inductive CalibrationEntry (α : Type) where
  /-- what always succeeds -/
  | certain
  /-- how likely something goes wrong -/
  | error (e : α)
  /-- how likely something succeeds -/
  | fidelity (f : α)

namespace CalibrationEntry

variable {α β : Type}

/-- The entry in another kind of number. -/
def map (φ : α → β) : CalibrationEntry α → CalibrationEntry β
  | certain => certain
  | error e => error (φ e)
  | fidelity f => fidelity (φ f)

@[simp]
theorem map_id (entry : CalibrationEntry α) : entry.map id = entry := by
  cases entry <;> rfl

variable [Scalar α]

/-- The fidelity that an entry states. -/
def value : CalibrationEntry α → α
  | certain => Scalar.one
  | error e => IbmTable.success e
  | fidelity f => f

/-- Does the check of the table let the entry pass? -/
def passes : CalibrationEntry α → Bool
  | certain => true
  | error e => IbmTable.isErrorRate e
  | fidelity f => Scalar.lt Scalar.zero f && Scalar.le f Scalar.one

private theorem passes_fidelity_iff {what : String} {f : α} :
    fidelityFault? what f = none ↔ (fidelity f).passes = true := by
  unfold fidelityFault? passes
  split <;> simp_all

end CalibrationEntry

/-! ## Tables -/

section

variable {α β : Type}

/-- The table in another kind of number. -/
def IbmTable.map (φ : α → β) (t : IbmTable α) : IbmTable β :=
  ⟨t.readout.mapValues φ, t.sx.mapValues φ, t.x.mapValues φ, t.cx.mapValues φ⟩

/-- The record of a qubit in another kind of number. -/
def RigettiQubit.map (φ : α → β) (r : RigettiQubit α) : RigettiQubit β :=
  ⟨r.gate.map φ, r.readout.map φ⟩

/-- The record of a pair in another kind of number. -/
def RigettiPair.map (φ : α → β) (r : RigettiPair α) : RigettiPair β := ⟨r.gate.map φ⟩

/-- The table in another kind of number. -/
def RigettiTable.map (φ : α → β) (t : RigettiTable α) : RigettiTable β :=
  ⟨t.qubits.mapValues (RigettiQubit.map φ), t.pairs.mapValues (RigettiPair.map φ)⟩

/-- The table in another kind of number. -/
def OqcTable.map (φ : α → β) (t : OqcTable α) : OqcTable β :=
  ⟨t.qubits.mapValues (List.map φ), t.pairs.mapValues (List.map φ)⟩

/-- The table in another kind of number. -/
def IonqTable.map (φ : α → β) (t : IonqTable α) : IonqTable β :=
  ⟨φ t.one, φ t.two, t.spam.map φ⟩

/-- Changes of frame, and the error rates of readouts, of two gates on a qubit and of one on two. -/
def IbmTable.entriesOf (readout sx x cx : List α) : List (CalibrationEntry α) :=
  .certain :: (readout ++ sx ++ x ++ cx).map .error

/-- The fidelities of gates and readouts that are there. -/
def RigettiTable.entriesOf (qubits : List (RigettiQubit α)) (pairs : List (RigettiPair α)) :
    List (CalibrationEntry α) :=
  ((qubits.flatMap fun r => r.gate.toList ++ r.readout.toList)
    ++ pairs.flatMap fun r => r.gate.toList).map .fidelity

/-- All elements of all lists of fidelities. -/
def OqcTable.entriesOf (qubits pairs : List (List α)) : List (CalibrationEntry α) :=
  (qubits.flatten ++ pairs.flatten).map .fidelity

/-- The mean fidelities that are there. -/
def IonqTable.entries (t : IonqTable α) : List (CalibrationEntry α) :=
  (t.one :: t.two :: t.spam.toList).map .fidelity

namespace CalibrationTable

/-- The table in another kind of number. -/
def map (φ : α → β) : CalibrationTable α → CalibrationTable β
  | ibm t => ibm (t.map φ)
  | rigetti t => rigetti (t.map φ)
  | oqc t => oqc (t.map φ)
  | ionq t => ionq (t.map φ)

/-- All that lookups can find. -/
def entries : CalibrationTable α → List (CalibrationEntry α)
  | ibm t => IbmTable.entriesOf t.readout.values t.sx.values t.x.values t.cx.values
  | rigetti t => RigettiTable.entriesOf t.qubits.values t.pairs.values
  | oqc t => OqcTable.entriesOf t.qubits.values t.pairs.values
  | ionq t => t.entries

/-- The format that a table comes from. -/
def schema : CalibrationTable α → CalibrationSchema
  | ibm _ => .ibmCsv
  | rigetti _ => .rigettiSpecs
  | oqc _ => .oqcProperties
  | ionq _ => .ionqMean

/-- A table whose numbers stay as they are is the same table. -/
theorem map_id (t : CalibrationTable α) : t.map id = t := by
  have hqubit : RigettiQubit.map (id : α → α) = id := by
    funext r
    simp [RigettiQubit.map]
  have hpair : RigettiPair.map (id : α → α) = id := by
    funext r
    simp [RigettiPair.map]
  cases t <;>
    simp [map, IbmTable.map, RigettiTable.map, OqcTable.map, IonqTable.map, hqubit, hpair]

/-- The entries of a table with other numbers are its entries with these. -/
theorem entries_map (φ : α → β) (t : CalibrationTable α) :
    (t.map φ).entries = t.entries.map (CalibrationEntry.map φ) := by
  cases t with
  | ibm t =>
    simp [map, entries, IbmTable.map, IbmTable.entriesOf, CalibrationEntry.map, Function.comp_def]
  | rigetti t =>
    simp [map, entries, RigettiTable.map, RigettiTable.entriesOf, CalibrationEntry.map,
      Function.comp_def, List.flatMap_map, List.map_flatMap, RigettiQubit.map, RigettiPair.map,
      Option.toList_map]
  | oqc t =>
    simp [map, entries, OqcTable.map, OqcTable.entriesOf, CalibrationEntry.map, Function.comp_def,
      List.map_flatten]
  | ionq t =>
    simp [map, entries, IonqTable.map, IonqTable.entries, CalibrationEntry.map, Function.comp_def,
      Option.toList_map]

/-- Only tables of error rates say something other than fidelities. -/
theorem exists_fidelity_of_mem {t : CalibrationTable α} {entry : CalibrationEntry α}
    (h : entry ∈ t.entries) (hschema : t.schema ≠ .ibmCsv) : ∃ f, entry = .fidelity f := by
  cases t with
  | ibm t => exact absurd rfl hschema
  | rigetti t | oqc t | ionq t =>
    obtain ⟨f, -, rfl⟩ := List.mem_map.1 h
    exact ⟨f, rfl⟩

end CalibrationTable

end

/-! ## The check -/

namespace CalibrationTable

variable {α : Type} [Scalar α]

/-- A table has no fault if all of its entries pass. -/
theorem fault?_eq_none_iff {t : CalibrationTable α} :
    t.fault? = none ↔ ∀ entry ∈ t.entries, entry.passes = true := by
  cases t with
  | ibm t =>
    have hrate {e : α} {message : String} :
        (if IbmTable.isErrorRate e then none else some message) = none ↔
          (CalibrationEntry.error e).passes = true := by
      simp [CalibrationEntry.passes]
    simp only [fault?, IbmTable.fault?, Option.or_eq_none_iff, List.findSome?_eq_none_iff, entries,
      IbmTable.entriesOf, Dict.values, List.forall_mem_cons, List.forall_mem_map,
      List.forall_mem_append, hrate]
    simp [and_assoc, CalibrationEntry.passes]
  | rigetti t =>
    simp only [fault?, RigettiTable.fault?, Option.or_eq_none_iff, List.findSome?_eq_none_iff,
      entries, RigettiTable.entriesOf, Dict.values, List.forall_mem_map, List.forall_mem_append,
      List.forall_mem_flatMap, Option.bind_eq_none_iff, CalibrationEntry.passes_fidelity_iff,
      Option.mem_toList, forall_and]
  | oqc t =>
    simp only [fault?, OqcTable.fault?, Option.or_eq_none_iff, List.findSome?_eq_none_iff, entries,
      OqcTable.entriesOf, Dict.values, List.forall_mem_map, List.forall_mem_append,
      List.forall_mem_flatten, CalibrationEntry.passes_fidelity_iff]
  | ionq t =>
    simp [fault?, IonqTable.fault?, entries, IonqTable.entries, and_assoc,
      CalibrationEntry.passes_fidelity_iff]

end CalibrationTable

/-! ## Lookups -/

section

variable {α : Type}

/-- A lookup misses an entry or answers with one, the same one in every kind of number. -/
inductive CalibrationTable.Decides (t : CalibrationTable α)
    (lookup : {β : Type} → [Scalar β] → CalibrationTable β → Except DeviceError β) : Prop
  | missing (what : String)
      (h : ∀ {β : Type} [Scalar β] (φ : α → β), lookup (t.map φ) = .error (.missingEntry what))
  | found (entry : CalibrationEntry α) (hmem : entry ∈ t.entries)
      (h : ∀ {β : Type} [Scalar β] (φ : α → β), lookup (t.map φ) = .ok (entry.map φ).value)

open CalibrationTable (Decides)

/-- A lookup that answers does so with the fidelity of an entry. -/
theorem CalibrationTable.Decides.exists_entry [Scalar α] {t : CalibrationTable α} {f : α}
    {lookup : {β : Type} → [Scalar β] → CalibrationTable β → Except DeviceError β}
    (h : t.Decides lookup) (hf : lookup t = .ok f) : ∃ entry ∈ t.entries, entry.value = f := by
  rcases h with ⟨what, hmissing⟩ | ⟨entry, hmem, hfound⟩
  · have hnone := hmissing id
    rw [map_id, hf] at hnone
    cases hnone
  · have hvalue := hfound id
    rw [map_id, CalibrationEntry.map_id, hf] at hvalue
    exact ⟨entry, hmem, (Except.ok.inj hvalue).symm⟩

/-- A lookup that answers does so in every kind of number. -/
theorem CalibrationTable.Decides.exists_eq_ok [Scalar α] {t : CalibrationTable α} {f : α}
    {lookup : {β : Type} → [Scalar β] → CalibrationTable β → Except DeviceError β}
    (h : t.Decides lookup) (hf : lookup t = .ok f) {β : Type} [Scalar β] (φ : α → β) :
    ∃ g, lookup (t.map φ) = .ok g := by
  rcases h with ⟨what, hmissing⟩ | ⟨entry, hmem, hfound⟩
  · have hnone := hmissing id
    rw [map_id, hf] at hnone
    cases hnone
  · exact ⟨_, hfound φ⟩

namespace IbmTable

variable (t : IbmTable α) (gate : String) (qubits : List Nat)

/-- Every recorded error rate is an entry. -/
theorem error_mem_entries {t : IbmTable α} {e : α}
    (h : e ∈ t.readout.values ++ t.sx.values ++ t.x.values ++ t.cx.values) :
    .error e ∈ (CalibrationTable.ibm t).entries :=
  List.mem_cons_of_mem _ (List.mem_map_of_mem h)

/-- A lookup of an error rate that may be there. -/
theorem decides_of_error
    {lookup : {β : Type} → [Scalar β] → CalibrationTable β → Except DeviceError β}
    (what : String) (error : Option α)
    (hmem : ∀ e ∈ error, e ∈ t.readout.values ++ t.sx.values ++ t.x.values ++ t.cx.values)
    (h : ∀ {β : Type} [Scalar β] (φ : α → β), lookup ((CalibrationTable.ibm t).map φ) =
      match error.map φ with
      | some e => .ok (success e)
      | none => missing what) :
    (CalibrationTable.ibm t).Decides lookup := by
  cases error with
  | none => exact .missing what h
  | some e => exact .found (.error e) (error_mem_entries (hmem e rfl)) h

private theorem bind_get?_mapValues {β : Type} (φ : α → β) (d : Dict Nat α) (q : Option Nat) :
    q.bind (d.mapValues φ).get? = (q.bind d.get?).map φ := by
  cases q <;> simp

private theorem mem_values_of_bind_get? {d : Dict Nat α} {q : Option Nat} {e : α}
    (h : e ∈ q.bind d.get?) : e ∈ d.values := by
  obtain ⟨q, -, hq⟩ := Option.bind_eq_some_iff.1 h
  exact Dict.mem_values_of_get? hq

/-- One entry decides the fidelity of a gate in a table of error rates. -/
theorem decides_gateFidelity :
    (CalibrationTable.ibm t).Decides fun u => u.gateFidelity gate qubits := by
  by_cases hframe : gate = "rz" ∨ gate = "id"
  · exact .found .certain List.mem_cons_self fun φ => if_pos hframe
  by_cases hsx : gate = "sx"
  · refine decides_of_error t s!"{gate} on {qubitList qubits}" (qubits.head?.bind t.sx.get?)
      (fun e he => by simp [mem_values_of_bind_get? he]) fun φ => ?_
    rw [← bind_get?_mapValues]
    exact (if_neg hframe).trans (if_pos hsx)
  by_cases hx : gate = "x"
  · refine decides_of_error t s!"{gate} on {qubitList qubits}" (qubits.head?.bind t.x.get?)
      (fun e he => by simp [mem_values_of_bind_get? he]) fun φ => ?_
    rw [← bind_get?_mapValues]
    exact (if_neg hframe).trans ((if_neg hsx).trans (if_pos hx))
  by_cases hcx : gate = "cx"
  · subst hcx
    match qubits with
    | [a, b] =>
      refine decides_of_error t s!"cx on ({a}, {b})" ((t.cx.get? (a, b)).or (t.cx.get? (b, a))) ?_
        fun φ => ?_
      · intro e he
        have hvalue : e ∈ t.cx.values := by
          rcases Option.or_eq_some_iff.1 he with he | ⟨-, he⟩ <;> exact Dict.mem_values_of_get? he
        simp [hvalue]
      · simp only [Option.map_or, ← Dict.get?_mapValues]
        rfl
    | [] | [_] | _ :: _ :: _ :: _ => exact .missing _ fun φ => rfl
  · refine .missing s!"{gate} is not calibrated on IBM devices" fun φ => ?_
    exact (if_neg hframe).trans ((if_neg hsx).trans ((if_neg hx).trans (if_neg hcx)))

/-- One entry decides the fidelity of a readout in a table of error rates. -/
theorem decides_readoutFidelity (qubit : Nat) :
    (CalibrationTable.ibm t).Decides fun u => u.readoutFidelity qubit := by
  refine decides_of_error t s!"readout of qubit {qubit}" (t.readout.get? qubit)
    (fun e he => by simp [Dict.mem_values_of_get? he]) fun φ => ?_
  rw [← Dict.get?_mapValues]
  rfl

end IbmTable

/-- A lookup of a fidelity that may be there. -/
theorem CalibrationTable.decides_of_fidelity {t : CalibrationTable α}
    {lookup : {β : Type} → [Scalar β] → CalibrationTable β → Except DeviceError β}
    (what : String) (fidelity : Option α) (hmem : ∀ f ∈ fidelity, .fidelity f ∈ t.entries)
    (h : ∀ {β : Type} [Scalar β] (φ : α → β), lookup (t.map φ) = entryOr what (fidelity.map φ)) :
    t.Decides lookup := by
  cases fidelity with
  | none => exact .missing what h
  | some f => exact .found (.fidelity f) (hmem f rfl) h

private theorem pairRecord?_mapValues {ν μ : Type} (φ : ν → μ) (d : Dict String ν) (a b : Nat) :
    pairRecord? (d.mapValues φ) a b = (pairRecord? d a b).map φ := by
  simp [pairRecord?, Option.map_or]

private theorem mem_values_of_pairRecord? {ν : Type} {d : Dict String ν} {a b : Nat} {v : ν}
    (h : pairRecord? d a b = some v) : v ∈ d.values := by
  rcases Option.or_eq_some_iff.1 h with h | ⟨_, h⟩
  · exact Dict.mem_values_of_get? h
  · exact Dict.mem_values_of_get? h

namespace RigettiTable

variable (t : RigettiTable α)

/-- Every value of a record of a qubit or a pair is an entry. -/
theorem fidelity_mem_entries {t : RigettiTable α} {f : α}
    (h : (∃ r ∈ t.qubits.values, f ∈ r.gate ∨ f ∈ r.readout) ∨ ∃ r ∈ t.pairs.values, f ∈ r.gate) :
    .fidelity f ∈ (CalibrationTable.rigetti t).entries := by
  refine List.mem_map_of_mem ?_
  simpa using h

/-- One entry decides the fidelity of a gate in a table of records. -/
theorem decides_gateFidelity (gate : String) (qubits : List Nat) :
    (CalibrationTable.rigetti t).Decides fun u => u.gateFidelity gate qubits := by
  match qubits with
  | [q] =>
    refine CalibrationTable.decides_of_fidelity s!"f1QRB of qubit {q}"
      ((t.qubits.get? (natText q)).bind (·.gate)) ?_ fun φ => ?_
    · intro f hf
      obtain ⟨r, hr, hgate⟩ := Option.bind_eq_some_iff.1 hf
      exact fidelity_mem_entries (.inl ⟨r, Dict.mem_values_of_get? hr, .inl hgate⟩)
    · simp [CalibrationTable.map, map, CalibrationTable.gateFidelity, gateFidelity, Option.map_bind,
        Option.bind_map, Function.comp_def, RigettiQubit.map]
  | [a, b] =>
    refine CalibrationTable.decides_of_fidelity s!"fCZ of edge {IbmTable.qubitList [a, b]}"
      ((pairRecord? t.pairs a b).bind (·.gate)) ?_ fun φ => ?_
    · intro f hf
      obtain ⟨r, hr, hgate⟩ := Option.bind_eq_some_iff.1 hf
      exact fidelity_mem_entries (.inr ⟨r, mem_values_of_pairRecord? hr, hgate⟩)
    · simp [CalibrationTable.map, map, CalibrationTable.gateFidelity, gateFidelity, Option.map_bind,
        Option.bind_map, Function.comp_def, RigettiPair.map, pairRecord?_mapValues]
  | [] | _ :: _ :: _ :: _ => exact .missing _ fun φ => rfl

/-- One entry decides the fidelity of a readout in a table of records. -/
theorem decides_readoutFidelity (qubit : Nat) :
    (CalibrationTable.rigetti t).Decides fun u => u.readoutFidelity qubit := by
  refine CalibrationTable.decides_of_fidelity s!"fRO of qubit {qubit}"
    ((t.qubits.get? (natText qubit)).bind (·.readout)) ?_ fun φ => ?_
  · intro f hf
    obtain ⟨r, hr, hreadout⟩ := Option.bind_eq_some_iff.1 hf
    exact fidelity_mem_entries (.inl ⟨r, Dict.mem_values_of_get? hr, .inr hreadout⟩)
  · simp [CalibrationTable.map, map, CalibrationTable.readoutFidelity, readoutFidelity,
      Option.map_bind, Option.bind_map, Function.comp_def, RigettiQubit.map]

end RigettiTable

namespace OqcTable

variable (t : OqcTable α)

/-- Every element of the list of a qubit or a pair is an entry. -/
theorem fidelity_mem_entries {t : OqcTable α} {f : α} {fs : List α} (hf : f ∈ fs)
    (h : fs ∈ t.qubits.values ∨ fs ∈ t.pairs.values) :
    .fidelity f ∈ (CalibrationTable.oqc t).entries := by
  refine List.mem_map_of_mem (List.mem_append.2 (h.imp ?_ ?_)) <;>
    exact fun hfs => List.mem_flatten_of_mem hfs hf

/-- A lookup of an element of the list of a qubit. -/
theorem decides_qubitFidelity (qubit place : Nat)
    {lookup : {β : Type} → [Scalar β] → CalibrationTable β → Except DeviceError β}
    (h : ∀ {β : Type} [Scalar β] (φ : α → β), lookup ((CalibrationTable.oqc t).map φ) =
      (t.map φ).qubitFidelity qubit place) :
    (CalibrationTable.oqc t).Decides lookup := by
  refine CalibrationTable.decides_of_fidelity s!"one-qubit fidelity #{place} of qubit {qubit}"
    ((t.qubits.get? (natText qubit)).bind (·[place]?)) ?_ fun φ => ?_
  · intro f hf
    obtain ⟨fs, hfs, hplace⟩ := Option.bind_eq_some_iff.1 hf
    exact fidelity_mem_entries (List.mem_of_getElem? hplace) (.inl (Dict.mem_values_of_get? hfs))
  · rw [h]
    simp only [map, qubitFidelity, Dict.get?_mapValues, Option.map_bind, Option.bind_map,
      Function.comp_def, List.getElem?_map]

/-- One entry decides the fidelity of a gate in a table of lists. -/
theorem decides_gateFidelity (gate : String) (qubits : List Nat) :
    (CalibrationTable.oqc t).Decides fun u => u.gateFidelity gate qubits := by
  match qubits with
  | [q] => exact decides_qubitFidelity t q 0 fun φ => rfl
  | [a, b] =>
    refine CalibrationTable.decides_of_fidelity
      s!"two-qubit fidelity of edge {IbmTable.qubitList [a, b]}"
      ((pairRecord? t.pairs a b).bind (·.head?)) ?_ fun φ => ?_
    · intro f hf
      obtain ⟨fs, hfs, hhead⟩ := Option.bind_eq_some_iff.1 hf
      exact fidelity_mem_entries (List.mem_of_head? hhead) (.inr (mem_values_of_pairRecord? hfs))
    · simp only [CalibrationTable.map, map, CalibrationTable.gateFidelity, gateFidelity,
        pairRecord?_mapValues, Option.map_bind, Option.bind_map, Function.comp_def, List.head?_map]
  | [] | _ :: _ :: _ :: _ => exact .missing _ fun φ => rfl

end OqcTable

namespace IonqTable

variable (t : IonqTable α)

/-- One mean decides the fidelity of a gate. -/
theorem decides_gateFidelity (gate : String) (qubits : List Nat) :
    (CalibrationTable.ionq t).Decides fun u => u.gateFidelity gate qubits := by
  match qubits with
  | [_] => exact .found (.fidelity t.one) (by simp [CalibrationTable.entries, entries]) fun φ => rfl
  | [_, _] =>
    exact .found (.fidelity t.two) (by simp [CalibrationTable.entries, entries]) fun φ => rfl
  | [] | _ :: _ :: _ :: _ => exact .missing _ fun φ => rfl

/-- One mean decides the fidelity of a readout. -/
theorem decides_readoutFidelity (qubit : Nat) :
    (CalibrationTable.ionq t).Decides fun u => u.readoutFidelity qubit := by
  refine .found (.fidelity (t.spam.getD t.one)) ?_ fun φ => ?_
  · cases hspam : t.spam <;> simp [CalibrationTable.entries, entries, hspam]
  · cases hspam : t.spam <;>
      simp [CalibrationTable.map, map, CalibrationTable.readoutFidelity, readoutFidelity, hspam,
        CalibrationEntry.map, CalibrationEntry.value]

end IonqTable

namespace CalibrationTable

variable (t : CalibrationTable α)

/-- One entry decides how likely a gate succeeds. -/
theorem decides_gateFidelity (gate : String) (qubits : List Nat) :
    t.Decides fun u => u.gateFidelity gate qubits := by
  cases t with
  | ibm t => exact t.decides_gateFidelity gate qubits
  | rigetti t => exact t.decides_gateFidelity gate qubits
  | oqc t => exact t.decides_gateFidelity gate qubits
  | ionq t => exact t.decides_gateFidelity gate qubits

/-- One entry decides how likely a readout is right. -/
theorem decides_readoutFidelity (qubit : Nat) :
    t.Decides fun u => u.readoutFidelity qubit := by
  cases t with
  | ibm t => exact t.decides_readoutFidelity qubit
  | rigetti t => exact t.decides_readoutFidelity qubit
  | oqc t => exact t.decides_qubitFidelity qubit 1 fun φ => rfl
  | ionq t => exact t.decides_readoutFidelity qubit

end CalibrationTable

end

end PathSelection
