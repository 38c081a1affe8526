import PathSelection.Device.Descriptor
import PathSelection.Proofs.Calibration.Range
import PathSelection.Proofs.Number.Order

/-!
# Valid devices

The check of a device looks at its times and fidelities one after another and stops at the
first fault, so a device passes exactly if nothing is wrong with any of them.  A device that
passes with the doubles as they are also passes with their exact values.

Main results:

- Theorem `Descriptor.validate_eq_ok_iff`: what the check of a device means.
- Theorem `Descriptor.Valid.exact`: read exactly, a valid device is valid.
- Theorem `Descriptor.pos_of_validate`: the times and fidelities of a valid device are positive.
-/

namespace PathSelection

namespace Descriptor

section

variable {α : Type} [Scalar α] {d : Descriptor α}

/-- A device with qubits, all of whose times and fidelities are in range. -/
structure Valid (d : Descriptor α) : Prop where
  qubits : d.numQubits ≠ 0
  times : ∀ entry ∈ d.times, isTime entry.2 = true
  fidelities : ∀ entry ∈ d.fidelities, isFidelity entry.2 = true

/-- Nothing is wrong with a device exactly if it is valid. -/
theorem fault?_eq_none_iff : d.fault? = none ↔ d.Valid := by
  have hall {l : List (String × α)} {p : α → Bool} :
      l.find? (fun entry => !p entry.2) = none ↔ ∀ entry ∈ l, p entry.2 = true := by
    simp [List.find?_eq_none]
  have hfault : d.fault? = none ↔ d.numQubits ≠ 0 ∧
      d.times.find? (fun entry => !isTime entry.2) = none ∧
      d.fidelities.find? (fun entry => !isFidelity entry.2) = none := by
    unfold fault?
    by_cases hqubits : d.numQubits = 0
    · rw [if_pos hqubits]
      exact iff_of_false nofun fun h => h.1 hqubits
    · rw [if_neg hqubits]
      cases d.times.find? (fun entry => !isTime entry.2) with
      | some entry => exact iff_of_false nofun fun h => nomatch h.2.1
      | none =>
        cases d.fidelities.find? (fun entry => !isFidelity entry.2) with
        | some entry => exact iff_of_false nofun fun h => nomatch h.2.2
        | none => exact iff_of_true rfl ⟨hqubits, rfl, rfl⟩
  rw [hfault, hall, hall]
  exact ⟨fun h => ⟨h.1, h.2.1, h.2.2⟩, fun h => ⟨h.qubits, h.times, h.fidelities⟩⟩

/-- A device passes the check exactly if it is valid. -/
theorem validate_eq_ok_iff : d.validate = .ok () ↔ d.Valid := by
  rw [← fault?_eq_none_iff]
  unfold validate
  cases d.fault? <;> simp

end

/-! ## Exact values -/

section

variable {x : Float}

/-- The exact value of a time is a time. -/
theorem isTime_exact (h : isTime x = true) : isTime (Float.exact x) = true := by
  rw [isTime, Bool.and_eq_true] at h
  obtain ⟨r, hr⟩ := Option.isSome_iff_exists.1 ((Float.isSome_value? x).trans h.1)
  have hpos : 0 < r := (lt_of_value? value?_zero hr).1 h.2
  simpa [isTime, Scalar.isFinite, Float.exact, hr] using hpos

/-- The exact value of a fidelity is a fidelity. -/
theorem isFidelity_exact (h : isFidelity x = true) : isFidelity (Float.exact x) = true := by
  rw [isFidelity, Bool.and_eq_true, lt_le_iff value?_zero value?_one] at h
  obtain ⟨r, hr, hpos, hone⟩ := h
  simp [isFidelity, Float.exact, hr, hpos, hone]

/-- The device with its times and fidelities read exactly. -/
def exact (d : Descriptor Float) : Descriptor Rat :=
  { d with
    t1 := Float.exact d.t1, t2 := Float.exact d.t2
    gateTime1 := Float.exact d.gateTime1, gateTime2 := Float.exact d.gateTime2
    fidelity1 := Float.exact d.fidelity1, fidelity2 := Float.exact d.fidelity2 }

/-- Read exactly, a valid device is valid. -/
theorem Valid.exact {d : Descriptor Float} (h : d.Valid) : d.exact.Valid where
  qubits := h.qubits
  times := by
    have htimes : d.exact.times = d.times.map fun entry => (entry.1, Float.exact entry.2) := rfl
    rw [htimes, List.forall_mem_map]
    exact fun entry hentry => isTime_exact (h.times entry hentry)
  fidelities := by
    have hfidelities :
        d.exact.fidelities = d.fidelities.map fun entry => (entry.1, Float.exact entry.2) := rfl
    rw [hfidelities, List.forall_mem_map]
    exact fun entry hentry => isFidelity_exact (h.fidelities entry hentry)

end

/-! ## Exact bounds -/

section

variable {d : Descriptor Rat}

/-- The times and fidelities of a valid device are positive. -/
theorem pos_of_validate (h : d.validate = .ok ()) :
    0 < d.t1 ∧ 0 < d.t2 ∧ 0 < d.gateTime1 ∧ 0 < d.gateTime2 ∧ 0 < d.fidelity1 ∧
      0 < d.fidelity2 := by
  obtain ⟨-, htimes, hfidelities⟩ := validate_eq_ok_iff.1 h
  simp [times, fidelities, isTime, isFidelity, Scalar.isFinite] at htimes hfidelities
  exact ⟨htimes.1, htimes.2.1, htimes.2.2.1, htimes.2.2.2, hfidelities.1.1, hfidelities.2.1⟩

/-- The fidelities of a valid device are at most one. -/
theorem fidelity_le_one_of_validate (h : d.validate = .ok ()) :
    d.fidelity1 ≤ 1 ∧ d.fidelity2 ≤ 1 := by
  have hfidelities := (validate_eq_ok_iff.1 h).fidelities
  simp [fidelities, isFidelity] at hfidelities
  exact ⟨hfidelities.1.2, hfidelities.2.2⟩

/-- The shorter coherence time is the minimum of both. -/
theorem minCoherence_eq_min : d.minCoherence = min d.t1 d.t2 := by
  unfold minCoherence Scalar.min
  have hnumber (x : Rat) : Scalar.isNumber x = true := Scalar.le_rat.2 le_rfl
  simp only [hnumber, Bool.not_true, Bool.false_eq_true, if_false, Scalar.lt_rat]
  rcases lt_or_ge d.t2 d.t1 with hlt | hle
  · rw [if_pos hlt, min_eq_right hlt.le]
  · rw [if_neg hle.not_gt, min_eq_left hle]

end

end Descriptor

end PathSelection
