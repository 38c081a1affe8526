import PathSelection.Proofs.Calibration.Admission

/-!
# Lookups of pairs

A pair of qubits may be recorded in either direction.  A lookup takes the record in the
direction of its operands if there is one, and else the other one; only then it asks
whether the record has a value.  So a record without a value hides one with a value in
the other direction, and then it matters in which order the qubits are named.

Main results:

- Theorem `CalibrationTable.isOk_gateFidelity_pair`: which gates on pairs have a fidelity.
- Theorem `CalibrationTable.isOk_gateFidelity_swap_iff`: when the order of the qubits does not
  matter.
- Theorem `CalibrationTable.gateFidelity_lopsidedExport`: an export for which it does.
-/

namespace PathSelection

variable {α : Type}

/-! ## Rules of lookups -/

/-- What decides whether a gate on a pair of qubits has a fidelity. -/
inductive PairRule (α : Type) where
  /-- it always has one -/
  | always
  /-- the error rates of single qubits, of which that of the first qubit is taken -/
  | first (rates : Dict Nat α)
  /-- the records of pairs -/
  | pair
  /-- it never has one -/
  | never

/-- The rule for a gate in a table of error rates. -/
def IbmTable.pairRule (t : IbmTable α) (gate : String) : PairRule α :=
  if gate = "rz" ∨ gate = "id" then .always
  else if gate = "sx" then .first t.sx
  else if gate = "x" then .first t.x
  else if gate = "cx" then .pair
  else .never

namespace CalibrationTable

/-- The rule for a gate; only tables of error rates tell gates apart. -/
def pairRule (t : CalibrationTable α) (gate : String) : PairRule α :=
  match t with
  | ibm t => t.pairRule gate
  | rigetti _ | oqc _ | ionq _ => .pair

/-- The record of a pair of qubits in this direction, if there is one, and its value, if it has one.
A mean is a record of every pair. -/
def pairEntry? (t : CalibrationTable α) (a b : Nat) : Option (Option α) :=
  match t with
  | ibm t => (t.cx.get? (a, b)).map some
  | rigetti t => (t.pairs.get? (natText a ++ "-" ++ natText b)).map (·.gate)
  | oqc t => (t.pairs.get? (natText a ++ "-" ++ natText b)).map (·.head?)
  | ionq t => some (some t.two)

end CalibrationTable

/-! ## Which lookups succeed -/

private theorem isOk_entryOr (entry : String) (a? : Option α) :
    (entryOr entry a?).isOk = a?.isSome := by
  cases a? <;> rfl

private theorem isSome_bind_or {β : Type} (x y : Option β) (f : β → Option α) :
    ((x.or y).bind f).isSome = ((x.map f).or (y.map f)).join.isSome := by
  cases x <;> cases y <;> rfl

section

variable [Scalar α]

namespace IbmTable

private theorem isOk_single (d : Dict Nat α) (gate : String) (a b : Nat) :
    (single d gate [a, b]).isOk = (d.get? a).isSome := by
  rw [single, List.head?_cons, Option.bind_some]
  cases d.get? a <;> rfl

private theorem isOk_cx (t : IbmTable α) (a b : Nat) :
    (t.gateFidelity "cx" [a, b]).isOk = ((t.cx.get? (a, b)).or (t.cx.get? (b, a))).isSome := by
  rw [gateFidelity, if_neg (by decide), if_neg (by decide), if_neg (by decide), if_pos rfl]
  cases (t.cx.get? (a, b)).or (t.cx.get? (b, a)) <;> rfl

end IbmTable

namespace CalibrationTable

omit [Scalar α] in
/-- Does a rule let a gate on a pair have a fidelity? -/
def permits (t : CalibrationTable α) (rule : PairRule α) (a b : Nat) : Bool :=
  match rule with
  | .always => true
  | .first rates => (rates.get? a).isSome
  | .pair => ((t.pairEntry? a b).or (t.pairEntry? b a)).join.isSome
  | .never => false

/-- A gate on a pair has a fidelity exactly if its rule permits it. -/
theorem isOk_gateFidelity_pair (t : CalibrationTable α) (gate : String) (a b : Nat) :
    (t.gateFidelity gate [a, b]).isOk = t.permits (t.pairRule gate) a b := by
  cases t with
  | ibm t =>
    rw [gateFidelity, pairRule, IbmTable.pairRule]
    by_cases hframe : gate = "rz" ∨ gate = "id"
    · rw [if_pos hframe, IbmTable.gateFidelity, if_pos hframe]
      rfl
    rw [if_neg hframe]
    by_cases hsx : gate = "sx"
    · rw [if_pos hsx, IbmTable.gateFidelity, if_neg hframe, if_pos hsx, IbmTable.isOk_single]
      rfl
    rw [if_neg hsx]
    by_cases hx : gate = "x"
    · rw [if_pos hx, IbmTable.gateFidelity, if_neg hframe, if_neg hsx, if_pos hx,
        IbmTable.isOk_single]
      rfl
    rw [if_neg hx]
    by_cases hcx : gate = "cx"
    · subst hcx
      rw [if_pos rfl, IbmTable.isOk_cx, ← Option.bind_fun_some ((t.cx.get? (a, b)).or _)]
      exact isSome_bind_or _ _ some
    · rw [if_neg hcx, IbmTable.gateFidelity, if_neg hframe, if_neg hsx, if_neg hx, if_neg hcx]
      rfl
  | rigetti t =>
    rw [gateFidelity, RigettiTable.gateFidelity, isOk_entryOr]
    exact isSome_bind_or _ _ _
  | oqc t =>
    rw [gateFidelity, OqcTable.gateFidelity, isOk_entryOr]
    exact isSome_bind_or _ _ _
  | ionq t => rfl

omit [Scalar α] in
/-- If a pair is recorded with a value in one direction, only the record in the other direction can
hide it. -/
theorem permits_pair_of_value {t : CalibrationTable α} {a b : Nat} {v : α}
    (h : t.pairEntry? a b = some (some v)) :
    t.permits .pair a b = true ∧ (t.permits .pair b a = true ↔ t.pairEntry? b a ≠ some none) := by
  rw [permits, permits, h]
  refine ⟨rfl, ?_⟩
  rcases t.pairEntry? b a with _ | _ | w <;> simp

omit [Scalar α] in
/-- The order of two qubits does not matter to the records of a pair exactly if records in both
directions agree on whether they have a value. -/
theorem permits_pair_swap_iff {t : CalibrationTable α} {a b : Nat} :
    t.permits .pair a b = t.permits .pair b a ↔
      ∀ e ∈ t.pairEntry? a b, ∀ e' ∈ t.pairEntry? b a, e.isSome = e'.isSome := by
  rw [permits, permits]
  rcases t.pairEntry? a b with _ | _ | v <;> rcases t.pairEntry? b a with _ | _ | w <;> simp

/-- When the order of two qubits does not matter to whether a gate on them has a fidelity.  If the
gate is looked up by its first qubit alone, both qubits or neither must have an error
rate; if it is looked up by records of pairs and the pair is recorded in both directions, both
records or neither must have a value.  So a value in one direction is always found in that
direction, and in the other one exactly if no record without a value stands there. -/
theorem isOk_gateFidelity_swap_iff (t : CalibrationTable α) (gate : String) (a b : Nat) :
    ((t.gateFidelity gate [a, b]).isOk = (t.gateFidelity gate [b, a]).isOk ↔
      (∀ rates, t.pairRule gate = .first rates →
        (rates.get? a).isSome = (rates.get? b).isSome) ∧
      (t.pairRule gate = .pair →
        ∀ e ∈ t.pairEntry? a b, ∀ e' ∈ t.pairEntry? b a, e.isSome = e'.isSome)) ∧
    (t.pairRule gate = .pair → ∀ v, t.pairEntry? a b = some (some v) →
      (t.gateFidelity gate [a, b]).isOk = true ∧
        ((t.gateFidelity gate [b, a]).isOk = true ↔ t.pairEntry? b a ≠ some none)) := by
  simp only [isOk_gateFidelity_pair]
  refine ⟨?_, fun hrule v hv => hrule ▸ permits_pair_of_value hv⟩
  cases hrule : t.pairRule gate with
  | always => simp [permits]
  | first rates => simp [permits]
  | pair => simp [permits_pair_swap_iff]
  | never => simp [permits]

end CalibrationTable

end

/-! ## A hidden value -/

/-- A pair that is recorded without a value in one direction and with one in the other. -/
def lopsidedExport : Json :=
  .record [("specs", .record [("2Q", .record [("0-1", .record []),
    ("1-0", .record [("fCZ", .number ⟨false, 0, [5], none⟩)])])])]

/-- What the export says. -/
def lopsidedContent : CalibrationContent Float :=
  .rigetti [] [("0-1", ⟨none⟩), ("1-0", ⟨some 0.5⟩)]

/-- The export is taken, and its one fidelity of a pair is found only if the qubits are named in the
direction of the record that holds it. -/
theorem CalibrationTable.gateFidelity_lopsidedExport :
    CalibrationTable.parse .rigettiSpecs "specs.json" lopsidedExport.compactText =
        .ok lopsidedContent.table ∧
      lopsidedContent.table.gateFidelity "cz" [1, 0] = .ok 0.5 ∧
      lopsidedContent.table.gateFidelity "cz" [0, 1] =
        .error (.missingEntry "fCZ of edge [0, 1]") := by
  have hdecode : CalibrationContent.rigettiDecoder lopsidedExport = .ok lopsidedContent := by
    with_unfolding_all rfl
  have hcontent : CalibrationContent.ofText .rigettiSpecs lopsidedExport.compactText =
      .ok lopsidedContent := by
    rw [CalibrationContent.ofText, document, Json.parse_compactText, hdecode]
    rfl
  have hpairs : sortedTable [("0-1", (⟨none⟩ : RigettiPair Float)), ("1-0", ⟨some 0.5⟩)] =
      [("0-1", ⟨none⟩), ("1-0", ⟨some 0.5⟩)] :=
    List.mergeSort_of_pairwise (by simp [Dict.ofEntries, Dict.put])
  have htable : lopsidedContent.table =
      .rigetti ⟨sortedTable [], [("0-1", ⟨none⟩), ("1-0", ⟨some 0.5⟩)]⟩ := by
    rw [lopsidedContent, CalibrationContent.table, hpairs]
  have hnames : natText 0 ++ "-" ++ natText 1 = "0-1" ∧ natText 1 ++ "-" ++ natText 0 = "1-0" := by
    decide +kernel
  refine ⟨parse_eq_ok_iff.2 ⟨lopsidedContent, hcontent, rfl, by decide +kernel⟩, ?_, ?_⟩
  · rw [htable, gateFidelity, RigettiTable.gateFidelity, pairRecord?, hnames.1, hnames.2]
    rfl
  · rw [htable, gateFidelity, RigettiTable.gateFidelity, pairRecord?, hnames.1, hnames.2]
    rfl

end PathSelection
