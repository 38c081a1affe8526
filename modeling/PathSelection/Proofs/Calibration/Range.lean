import Mathlib.Algebra.Order.BigOperators.Group.List
import Mathlib.Algebra.Order.Field.Basic
import Mathlib.Algebra.Order.Field.Rat
import Mathlib.Tactic.Linarith
import PathSelection.Calibration.Store
import PathSelection.Proofs.Calibration.Entries

/-!
# Tables in range

A table is taken only if none of its values is out of range.  Read exactly, what such
a table answers is a probability, and so are its means.

Main results:

- Theorem `CalibrationTable.Decides.bounds`: the fidelities that are looked up.
- Theorem `CalibrationTable.averageFidelities_bounds`: the means.
- Theorem `CalibrationStore.inRange_loadDirectory`: all tables of a directory are in range.
-/

namespace PathSelection

/-! ## Exact numbers -/

namespace Scalar

@[simp]
theorem lt_rat {x y : Rat} : Scalar.lt x y = true ↔ x < y := decide_eq_true_iff

@[simp]
theorem le_rat {x y : Rat} : Scalar.le x y = true ↔ x ≤ y := decide_eq_true_iff

@[simp]
theorem zero_rat : (Scalar.zero : Rat) = 0 := rfl

@[simp]
theorem one_rat : (Scalar.one : Rat) = 1 := rfl

private theorem sum_rat (xs : List Rat) : Scalar.sum xs = xs.sum := List.sum_eq_foldl.symm

end Scalar

/-! ## Entries -/

/-- What an entry in range states is a probability, and a fidelity is not zero. -/
theorem CalibrationEntry.bounds_of_passes {entry : CalibrationEntry Rat}
    (h : entry.passes = true) :
    0 ≤ entry.value ∧ entry.value ≤ 1 ∧ ∀ f, entry = .fidelity f → entry.value ≠ 0 := by
  cases entry with
  | certain =>
    have hvalue : (CalibrationEntry.certain : CalibrationEntry Rat).value = 1 := rfl
    rw [hvalue]
    exact ⟨zero_le_one, le_rfl, fun f hf => one_ne_zero⟩
  | error e =>
    simp only [passes, IbmTable.isErrorRate, Bool.and_eq_true, Scalar.le_rat, Scalar.zero_rat,
      Scalar.one_rat] at h
    have hvalue : (CalibrationEntry.error e).value = 1 - e := rfl
    rw [hvalue]
    exact ⟨by linarith, by linarith, by rintro f ⟨⟩⟩
  | fidelity f =>
    simp only [passes, Bool.and_eq_true, Scalar.lt_rat, Scalar.le_rat, Scalar.zero_rat,
      Scalar.one_rat] at h
    exact ⟨h.1.le, h.2, fun _ _ => h.1.ne'⟩

namespace CalibrationTable

variable {t : CalibrationTable Rat} {f : Rat}

/-- What a lookup in a table in range answers is a probability, and zero only in a table of error
rates. -/
theorem Decides.bounds
    {lookup : {β : Type} → [Scalar β] → CalibrationTable β → Except DeviceError β}
    (hlookup : t.Decides lookup) (h : t.fault? = none) (hf : lookup t = .ok f) :
    0 ≤ f ∧ f ≤ 1 ∧ (f = 0 → t.schema = .ibmCsv) := by
  obtain ⟨entry, hmem, rfl⟩ := hlookup.exists_entry hf
  obtain ⟨hnonneg, hone, hpositive⟩ :=
    CalibrationEntry.bounds_of_passes (fault?_eq_none_iff.1 h entry hmem)
  refine ⟨hnonneg, hone, fun hzero => ?_⟩
  by_contra hschema
  obtain ⟨f, hf⟩ := exists_fidelity_of_mem hmem hschema
  exact hpositive f hf hzero

/-- The fidelities that means are taken of are those of entries. -/
theorem exists_entry_of_mem_fidelities (h : f ∈ t.fidelities.1 ∨ f ∈ t.fidelities.2) :
    ∃ entry ∈ t.entries, entry.value = f := by
  cases t with
  | ibm t =>
    simp only [fidelities, IbmTable.fidelities, List.mem_map] at h
    rcases h with ⟨e, he, rfl⟩ | ⟨e, he, rfl⟩ <;>
      exact ⟨.error e, IbmTable.error_mem_entries (by simp [he]), rfl⟩
  | rigetti t =>
    simp only [fidelities, RigettiTable.fidelities, List.mem_filterMap] at h
    rcases h with ⟨r, hr, hf⟩ | ⟨r, hr, hf⟩
    · exact ⟨.fidelity f, RigettiTable.fidelity_mem_entries (.inl ⟨r, hr, .inl hf⟩), rfl⟩
    · exact ⟨.fidelity f, RigettiTable.fidelity_mem_entries (.inr ⟨r, hr, hf⟩), rfl⟩
  | oqc t =>
    simp only [fidelities, OqcTable.fidelities, List.mem_filterMap] at h
    rcases h with ⟨fs, hfs, hf⟩ | ⟨fs, hfs, hf⟩
    · exact ⟨.fidelity f, OqcTable.fidelity_mem_entries (List.mem_of_head? hf) (.inl hfs), rfl⟩
    · exact ⟨.fidelity f, OqcTable.fidelity_mem_entries (List.mem_of_head? hf) (.inr hfs), rfl⟩
  | ionq t =>
    simp only [fidelities, IonqTable.fidelities, List.mem_singleton] at h
    rcases h with rfl | rfl
    · exact ⟨.fidelity t.one, by simp [entries, IonqTable.entries], rfl⟩
    · exact ⟨.fidelity t.two, by simp [entries, IonqTable.entries], rfl⟩

private theorem fidelities_bounds (h : t.fault? = none) :
    (∀ f ∈ t.fidelities.1, 0 ≤ f ∧ f ≤ 1) ∧ ∀ f ∈ t.fidelities.2, 0 ≤ f ∧ f ≤ 1 := by
  have hbounds {f : Rat} (hf : f ∈ t.fidelities.1 ∨ f ∈ t.fidelities.2) : 0 ≤ f ∧ f ≤ 1 := by
    obtain ⟨entry, hmem, rfl⟩ := exists_entry_of_mem_fidelities hf
    obtain ⟨hnonneg, hone, -⟩ :=
      CalibrationEntry.bounds_of_passes (fault?_eq_none_iff.1 h entry hmem)
    exact ⟨hnonneg, hone⟩
  exact ⟨fun f hf => hbounds (.inl hf), fun f hf => hbounds (.inr hf)⟩

/-- The mean of probabilities is a probability. -/
theorem mean?_bounds {xs : List Rat} (h : ∀ x ∈ xs, 0 ≤ x ∧ x ≤ 1) :
    ∀ m ∈ mean? xs, 0 ≤ m ∧ m ≤ 1 := by
  intro m hm
  unfold mean? at hm
  split at hm
  · simp at hm
  · rename_i hempty
    obtain rfl : Scalar.sum xs / (xs.length : Rat) = m := Option.some.inj hm
    have hlength : (0 : Rat) < xs.length := by
      rw [List.isEmpty_iff, ← ne_eq, ← List.length_pos_iff] at hempty
      exact Nat.cast_pos.2 hempty
    have hsum : xs.sum ≤ xs.length := by
      simpa using List.sum_le_card_nsmul xs 1 fun x hx => (h x hx).2
    rw [Scalar.sum_rat, div_le_one hlength]
    exact ⟨div_nonneg (List.sum_nonneg fun x hx => (h x hx).1) hlength.le, hsum⟩

/-- The mean fidelities are probabilities. -/
theorem averageFidelities_bounds {a b : Rat} (h : t.fault? = none)
    (hab : t.averageFidelities = some (a, b)) : (0 ≤ a ∧ a ≤ 1) ∧ 0 ≤ b ∧ b ≤ 1 := by
  rcases fidelities_bounds h with ⟨hone, htwo⟩
  rcases Option.bind_eq_some_iff.1 hab with ⟨x, hx, hrest⟩
  rcases Option.bind_eq_some_iff.1 hrest with ⟨y, hy, hpair⟩
  obtain ⟨rfl, rfl⟩ : x = a ∧ y = b := by simpa using hpair
  exact ⟨mean?_bounds hone x hx, mean?_bounds htwo y hy⟩

/-- Only tables in range are taken. -/
theorem fault?_of_parse {schema : CalibrationSchema} {source text : String}
    (h : parse schema source text = .ok t) : t.fault? = none := by
  unfold parse at h
  split at h
  · simp at h
  · split at h
    · simp at h
    · rename_i hfault
      exact Except.ok.inj h ▸ hfault

end CalibrationTable

/-! ## Stores -/

namespace CalibrationStore

/-- All tables of a store are in range. -/
def InRange (s : CalibrationStore Rat) : Prop := ∀ t ∈ s.values, t.fault? = none

/-- Storing one more table in range keeps a store in range. -/
theorem InRange.put {s : CalibrationStore Rat} (h : InRange s) {name : String}
    {t : CalibrationTable Rat} (ht : t.fault? = none) : InRange (Dict.put name t s) := by
  induction s with
  | nil => simpa [InRange, Dict.put, Dict.values] using ht
  | cons p s ih =>
    rcases List.forall_mem_cons.1 h with ⟨hhead, htail⟩
    unfold Dict.put
    split
    · exact List.forall_mem_cons.2 ⟨ht, htail⟩
    · exact List.forall_mem_cons.2 ⟨hhead, ih htail⟩

/-- The export of a device keeps a store in range. -/
theorem InRange.addExport {storage : Storage} {directory : String} {s s' : CalibrationStore Rat}
    {d : Descriptor Rat} (h : InRange s) (hadd : addExport storage directory s d = .ok s') :
    InRange s' := by
  unfold CalibrationStore.addExport at hadd
  split at hadd
  · exact Except.ok.inj hadd ▸ h
  · rename_i file _
    simp only at hadd
    split at hadd
    · split at hadd
      · simp at hadd
      · rename_i text _
        cases hparse : CalibrationTable.parse (α := Rat) d.provider.schema
            (PathName.join directory file) text with
        | error cause => simp [hparse, bind, Except.bind] at hadd
        | ok t =>
          have hput : Dict.put d.name t s = s' := by
            simpa [hparse, bind, Except.bind, pure, Except.pure] using hadd
          exact hput ▸ h.put (CalibrationTable.fault?_of_parse hparse)
    · exact Except.ok.inj hadd ▸ h

/-- The tables of a directory are in range. -/
theorem inRange_loadDirectory {storage : Storage} {directory : String} {registry : Registry Rat}
    {s : CalibrationStore Rat} (h : loadDirectory storage directory registry = .ok s) :
    InRange s := by
  -- Any store in range may be the start, not only the empty one.
  have hfold : ∀ (devices : List (Descriptor Rat)) (start : CalibrationStore Rat), InRange start →
      devices.foldlM (CalibrationStore.addExport storage directory) start = .ok s → InRange s := by
    intro devices
    induction devices with
    | nil => exact fun start hstart hs => Except.ok.inj hs ▸ hstart
    | cons d devices ih =>
      intro start hstart hs
      rw [List.foldlM_cons] at hs
      cases hadd : CalibrationStore.addExport storage directory start d with
      | error cause => simp [hadd, bind, Except.bind] at hs
      | ok next =>
        rw [hadd] at hs
        exact ih next (hstart.addExport hadd) hs
  refine hfold registry.devices [] ?_ h
  intro t ht
  simp [Dict.values] at ht

end CalibrationStore

end PathSelection
