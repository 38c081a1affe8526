import PathSelection.Proofs.Calibration.Pairs
import PathSelection.Proofs.Circuit.Building
import PathSelection.Proofs.Scoring.Batch
import PathSelection.Proofs.Scoring.Probability

/-!
# Gaps in calibration data

The fidelity of a circuit is looked up entry by entry: one for each gate and one for each qubit
that is measured.  The first lookup without an answer ends them, and it has no other way to fail
than to say that an entry is missing.  So an engine that falls back to another strategy when the
calibrated one fails never hides another problem.

A lookup answers with the entry for exactly its operands, but for two kinds of lookups that go
astray.  A gate on one qubit that is put on several has the error rate of the first of them,
although there is no entry for all of them; and a record of a pair without a value hides the value
that is recorded in the other direction.

- Definitions `CalibrationTable.entryOfGate?` and `CalibrationTable.entryOfReadout?`: the entries of
  the four kinds of tables.
- Definitions `CalibrationTable.TakesFirst` and `CalibrationTable.Hides`: the lookups of gates that
  go astray.
- Definition `Circuit.lookups`: what a circuit asks of a table, in order.

Main results:

- Theorem `Lookup.forall_answer_iff`: exactly the lookups that do not go astray answer with their
  entries.
- Theorem `calibrationFidelity_eq`: the fidelity of a circuit is one traversal of its lookups.
- Theorem `calibrationFidelity_lookups`: when it fails and how, what it is otherwise, and that
  barriers, delays and resets do not matter to it.
- Theorem `calibrationFidelity_wideCircuit`: a circuit with a fidelity whose only gate has no entry.
-/

namespace PathSelection

variable {α : Type}

/-! ## Entries of tables -/

/-- What is recorded for a qubit that is named alone. -/
def ofOne? (recorded? : Nat → Option α) (qubits : List Nat) : Option α :=
  match qubits with
  | [q] => recorded? q
  | _ => none

namespace CalibrationTable

/-- The value that is recorded for a pair of qubits, in this direction or else in the other one. -/
def ofPair? (t : CalibrationTable α) (qubits : List Nat) : Option α :=
  match qubits with
  | [a, b] => (t.pairEntry? a b).join.or (t.pairEntry? b a).join
  | _ => none

/-- The entry for a gate on exactly these qubits.  In a table of error rates changes of frame are
certain, two gates have a rate for each qubit and one gate has a rate for each pair; the other
tables do not tell gates on as many qubits apart. -/
def entryOfGate? (t : CalibrationTable α) (gate : String) (qubits : List Nat) :
    Option (CalibrationEntry α) :=
  match t with
  | ibm rates =>
    if gate = "rz" ∨ gate = "id" then some .certain
    else if gate = "sx" then (ofOne? rates.sx.get? qubits).map .error
    else if gate = "x" then (ofOne? rates.x.get? qubits).map .error
    else if gate = "cx" then (t.ofPair? qubits).map .error
    else none
  | rigetti records =>
    ((ofOne? (fun q => (records.qubits.get? (natText q)).bind (·.gate)) qubits).or
      (t.ofPair? qubits)).map .fidelity
  | oqc lists =>
    ((ofOne? (fun q => (lists.qubits.get? (natText q)).bind (·[0]?)) qubits).or
      (t.ofPair? qubits)).map .fidelity
  | ionq means => ((ofOne? (fun _ => some means.one) qubits).or (t.ofPair? qubits)).map .fidelity

/-- The entry for the readout of a qubit. -/
def entryOfReadout? (t : CalibrationTable α) (qubit : Nat) : Option (CalibrationEntry α) :=
  match t with
  | ibm t => (t.readout.get? qubit).map .error
  | rigetti t => ((t.qubits.get? (natText qubit)).bind (·.readout)).map .fidelity
  | oqc t => ((t.qubits.get? (natText qubit)).bind (·[1]?)).map .fidelity
  | ionq t => some (.fidelity (t.spam.getD t.one))

/-! ## Lookups that go astray -/

/-- A gate on one qubit is put on several, and the first of them has an error rate. -/
def TakesFirst (t : CalibrationTable α) (gate : String) (qubits : List Nat) : Prop :=
  ∃ rates a b rest, t.pairRule gate = .first rates ∧ qubits = a :: b :: rest ∧
    (rates.get? a).isSome

/-- The record of a pair has no value, but the one in the other direction has. -/
def Hides (t : CalibrationTable α) (gate : String) (qubits : List Nat) : Prop :=
  t.pairRule gate = .pair ∧ ∃ a b v, qubits = [a, b] ∧ t.pairEntry? a b = some none ∧
    t.pairEntry? b a = some (some v)

end CalibrationTable

section

/-- A record without a value in front of one with a value is all that the order of looking matters
to. -/
theorem bind_or_eq {β : Type} {x y : Option β} {value? : β → Option α}
    (h : x.map value? = some none → ∀ v, y.map value? ≠ some (some v)) :
    (x.or y).bind value? = (x.map value?).join.or (y.map value?).join := by
  rcases x with _ | r
  · cases y <;> rfl
  · cases hr : value? r with
    | some v => simp [hr]
    | none =>
      have hnone := h (by rw [Option.map_some, hr])
      cases y with
      | none => simp [hr]
      | some r' => cases hr' : value? r' <;> simp_all

variable [Scalar α]

private theorem map_value_map_fidelity (f? : Option α) :
    (f?.map CalibrationEntry.fidelity).map (·.value) = f? := by
  cases f? <;> rfl

private theorem IbmTable.single_cons {rates : Dict Nat α} {a : Nat} {rate : α}
    (h : rates.get? a = some rate) (gate : String) (rest : List Nat) :
    single rates gate (a :: rest) = .ok (success rate) := by
  rw [single, List.head?_cons, Option.bind_some, h]

private theorem IbmTable.exists_single_eq {rates : Dict Nat α} {qubits : List Nat}
    (h : ∀ a b rest, qubits = a :: b :: rest → rates.get? a = none) (gate : String) :
    ∃ what, single rates gate qubits =
      entryOr what (((ofOne? rates.get? qubits).map CalibrationEntry.error).map (·.value)) := by
  refine ⟨s!"{gate} on {qubitList qubits}", ?_⟩
  rw [single]
  rcases qubits with _ | ⟨a, _ | ⟨b, rest⟩⟩
  · rfl
  · simp only [List.head?_cons, Option.bind_some, ofOne?]
    cases rates.get? a <;> rfl
  · rw [List.head?_cons, Option.bind_some, h a b rest rfl]
    rfl

namespace CalibrationTable

variable {t : CalibrationTable α} {gate : String} {qubits : List Nat}

omit [Scalar α] in
/-- Only two gates, and only in tables of error rates, are looked up by their first qubit. -/
theorem pairRule_eq_first_iff {rates : Dict Nat α} :
    t.pairRule gate = .first rates ↔
      ∃ table, t = .ibm table ∧
        (gate = "sx" ∧ table.sx = rates ∨ gate = "x" ∧ table.x = rates) := by
  cases t with
  | ibm table =>
    have hnames : "sx" ≠ "rz" ∧ "sx" ≠ "id" ∧ "x" ≠ "rz" ∧ "x" ≠ "id" ∧ "x" ≠ "sx" := by decide
    simp only [pairRule, IbmTable.pairRule, ibm.injEq, exists_eq_left']
    split_ifs with hframe hsx hx hcx
    · rcases hframe with rfl | rfl <;> simp
    · simp [hsx]
    · simp [hx]
    · simp [hcx]
    · simp [hsx, hx]
  | rigetti | oqc | ionq => simp [pairRule]

/-- A gate that is looked up by the first of several qubits has an answer but no entry. -/
theorem gateFidelity_of_takesFirst (h : t.TakesFirst gate qubits) :
    t.entryOfGate? gate qubits = none ∧ ∃ f, t.gateFidelity gate qubits = .ok f := by
  obtain ⟨rates, a, b, rest, hrule, rfl, hsome⟩ := h
  obtain ⟨rate, hrate⟩ := Option.isSome_iff_exists.1 hsome
  obtain ⟨table, rfl, ⟨rfl, rfl⟩ | ⟨rfl, rfl⟩⟩ := pairRule_eq_first_iff.1 hrule
  · exact ⟨rfl, _, IbmTable.single_cons hrate "sx" (b :: rest)⟩
  · exact ⟨rfl, _, IbmTable.single_cons hrate "x" (b :: rest)⟩

/-- A pair whose value is hidden has an entry but no answer. -/
theorem gateFidelity_of_hides (h : t.Hides gate qubits) :
    (t.entryOfGate? gate qubits).isSome = true ∧
      ∃ what, t.gateFidelity gate qubits = .error (.missingEntry what) := by
  obtain ⟨-, a, b, v, rfl, hhere, hthere⟩ := h
  have hpair : t.ofPair? [a, b] = some v := by
    rw [ofPair?, hhere, hthere]
    rfl
  cases t with
  | ibm rates =>
    unfold pairEntry? at hhere
    simp at hhere
  | ionq means =>
    unfold pairEntry? at hhere
    simp at hhere
  | rigetti records =>
    obtain ⟨r, hr, hnone⟩ := Option.map_eq_some_iff.1 hhere
    have hmissing : (rigetti records).gateFidelity gate [a, b] =
        entryOr s!"fCZ of edge {IbmTable.qubitList [a, b]}" none := by
      rw [gateFidelity, RigettiTable.gateFidelity, pairRecord?, hr, Option.some_or,
        Option.bind_some, hnone]
    exact ⟨by simp [entryOfGate?, ofOne?, hpair], _, hmissing⟩
  | oqc lists =>
    obtain ⟨r, hr, hnone⟩ := Option.map_eq_some_iff.1 hhere
    have hmissing : (oqc lists).gateFidelity gate [a, b] =
        entryOr s!"two-qubit fidelity of edge {IbmTable.qubitList [a, b]}" none := by
      rw [gateFidelity, OqcTable.gateFidelity, pairRecord?, hr, Option.some_or, Option.bind_some,
        hnone]
    exact ⟨by simp [entryOfGate?, ofOne?, hpair], _, hmissing⟩

private theorem exists_cx_eq (table : IbmTable α) (qubits : List Nat) :
    ∃ what, table.gateFidelity "cx" qubits =
      entryOr what ((((ibm table).ofPair? qubits).map CalibrationEntry.error).map (·.value)) := by
  match qubits with
  | [a, b] =>
    refine ⟨s!"cx on ({a}, {b})", ?_⟩
    dsimp only [ofPair?, pairEntry?]
    cases hhere : table.cx.get? (a, b) <;> cases hthere : table.cx.get? (b, a) <;>
      simp [IbmTable.gateFidelity, hhere, hthere] <;> rfl
  | [] | [_] | _ :: _ :: _ :: _ => exact ⟨_, rfl⟩

/-- A gate that is not looked up by the first of several qubits is looked up in its entry in a table
of error rates. -/
theorem exists_gateFidelity_ibm_eq {table : IbmTable α}
    (hfirst : ∀ rates a b rest, (ibm table).pairRule gate = .first rates →
      qubits = a :: b :: rest → rates.get? a = none) :
    ∃ what, table.gateFidelity gate qubits =
      entryOr what (((ibm table).entryOfGate? gate qubits).map (·.value)) := by
  by_cases hcx : gate = "cx"
  · subst hcx
    exact exists_cx_eq table qubits
  unfold IbmTable.gateFidelity entryOfGate?
  dsimp only
  by_cases hframe : gate = "rz" ∨ gate = "id"
  · rw [if_pos hframe, if_pos hframe]
    exact ⟨"", rfl⟩
  rw [if_neg hframe, if_neg hframe]
  by_cases hsx : gate = "sx"
  · rw [if_pos hsx, if_pos hsx]
    have hrule := pairRule_eq_first_iff.2 ⟨table, rfl, .inl ⟨hsx, rfl⟩⟩
    exact IbmTable.exists_single_eq (fun a b rest => hfirst table.sx a b rest hrule) gate
  rw [if_neg hsx, if_neg hsx]
  by_cases hx : gate = "x"
  · rw [if_pos hx, if_pos hx]
    have hrule := pairRule_eq_first_iff.2 ⟨table, rfl, .inr ⟨hx, rfl⟩⟩
    exact IbmTable.exists_single_eq (fun a b rest => hfirst table.x a b rest hrule) gate
  rw [if_neg hx, if_neg hx, if_neg hcx, if_neg hcx]
  exact ⟨_, rfl⟩

/-- Any other gate is looked up in its entry, and without one the lookup says that an entry is
missing. -/
theorem exists_gateFidelity_eq (hfirst : ¬t.TakesFirst gate qubits)
    (hhides : ¬t.Hides gate qubits) :
    ∃ what, t.gateFidelity gate qubits =
      entryOr what ((t.entryOfGate? gate qubits).map (·.value)) := by
  cases t with
  | ibm table =>
    refine exists_gateFidelity_ibm_eq fun rates a b rest hrule hqubits => ?_
    by_contra hrate
    exact hfirst ⟨rates, a, b, rest, hrule, hqubits, Option.isSome_iff_ne_none.2 hrate⟩
  | rigetti | oqc =>
    simp only [entryOfGate?, map_value_map_fidelity]
    match qubits with
    | [a, b] =>
      refine ⟨_, congrArg (entryOr _) (bind_or_eq fun hhere v hthere => hhides ?_)⟩
      exact ⟨rfl, a, b, v, rfl, hhere, hthere⟩
    | [q] =>
      refine ⟨_, congrArg (entryOr _) ?_⟩
      exact (Option.or_none).symm
    | [] | _ :: _ :: _ :: _ => exact ⟨_, rfl⟩
  | ionq =>
    simp only [entryOfGate?, map_value_map_fidelity]
    match qubits with
    | [_] | [_, _] => exact ⟨"", rfl⟩
    | [] | _ :: _ :: _ :: _ => exact ⟨_, rfl⟩

/-- A readout is looked up in its entry, and without one the lookup says that an entry is
missing. -/
theorem exists_readoutFidelity_eq (t : CalibrationTable α) (qubit : Nat) :
    ∃ what, t.readoutFidelity qubit =
      entryOr what ((t.entryOfReadout? qubit).map (·.value)) := by
  cases t with
  | ibm t =>
    refine ⟨s!"readout of qubit {qubit}", ?_⟩
    rw [readoutFidelity, IbmTable.readoutFidelity, entryOfReadout?]
    cases t.readout.get? qubit <;> rfl
  | rigetti t | oqc t =>
    simp only [entryOfReadout?, map_value_map_fidelity]
    exact ⟨_, rfl⟩
  | ionq t => exact ⟨"", rfl⟩

end CalibrationTable

end

/-! ## Lookups of circuits -/

/-- One question to a calibration table. -/
inductive Lookup where
  | gate (name : String) (qubits : List Nat)
  | readout (qubit : Nat)

namespace Lookup

/-- The entry that a question is about. -/
def entry? (t : CalibrationTable α) : Lookup → Option (CalibrationEntry α)
  | gate name qubits => t.entryOfGate? name qubits
  | readout qubit => t.entryOfReadout? qubit

/-- A question about a gate that is looked up by the first of several qubits. -/
def TakesFirst (t : CalibrationTable α) : Lookup → Prop
  | gate name qubits => t.TakesFirst name qubits
  | readout _ => False

/-- A question about a gate on a pair whose value is hidden. -/
def Hides (t : CalibrationTable α) : Lookup → Prop
  | gate name qubits => t.Hides name qubits
  | readout _ => False

/-- A question that the table does not answer with its entry. -/
def Strays (t : CalibrationTable α) (l : Lookup) : Prop := l.TakesFirst t ∨ l.Hides t

variable [Scalar α] {t : CalibrationTable α} {l : Lookup} {f : α}

/-- What the table answers. -/
def answer (t : CalibrationTable α) : Lookup → Except DeviceError α
  | gate name qubits => t.gateFidelity name qubits
  | readout qubit => t.readoutFidelity qubit

private theorem answer_of_takesFirst (h : l.TakesFirst t) :
    l.entry? t = none ∧ ∃ f, l.answer t = .ok f := by
  cases l with
  | gate name qubits => exact CalibrationTable.gateFidelity_of_takesFirst h
  | readout qubit => exact h.elim

private theorem answer_of_hides (h : l.Hides t) :
    (l.entry? t).isSome = true ∧ ∃ what, l.answer t = .error (.missingEntry what) := by
  cases l with
  | gate name qubits => exact CalibrationTable.gateFidelity_of_hides h
  | readout qubit => exact h.elim

/-- A table answers with the entry, or says that it is missing, unless the question goes astray. -/
theorem exists_answer_eq (h : ¬l.Strays t) :
    ∃ what, l.answer t = entryOr what ((l.entry? t).map (·.value)) := by
  obtain ⟨hfirst, hhides⟩ := not_or.1 h
  cases l with
  | gate name qubits => exact CalibrationTable.exists_gateFidelity_eq hfirst hhides
  | readout qubit => exact t.exists_readoutFidelity_eq qubit

/-- A question that does not go astray is answered with its entry. -/
theorem answer_eq_ok_iff (h : ¬l.Strays t) :
    l.answer t = .ok f ↔ ∃ entry, l.entry? t = some entry ∧ entry.value = f := by
  obtain ⟨what, hanswer⟩ := exists_answer_eq h
  rw [hanswer]
  cases l.entry? t <;> simp [entryOr]

/-- Exactly the questions that do not go astray are answered with their entries. -/
theorem forall_answer_iff :
    (∀ f, l.answer t = .ok f ↔ ∃ entry, l.entry? t = some entry ∧ entry.value = f) ↔
      ¬l.Strays t := by
  refine ⟨fun h => ?_, fun h f => answer_eq_ok_iff h⟩
  rintro (hfirst | hhides)
  · obtain ⟨hnone, f, hf⟩ := answer_of_takesFirst hfirst
    obtain ⟨entry, hentry, -⟩ := (h f).1 hf
    rw [hnone] at hentry
    cases hentry
  · obtain ⟨hsome, what, hfails⟩ := answer_of_hides hhides
    obtain ⟨entry, hentry⟩ := Option.isSome_iff_exists.1 hsome
    have hok := (h entry.value).2 ⟨entry, hentry, rfl⟩
    rw [hfails] at hok
    cases hok

/-- Which questions have no answer: those whose entry is missing or hidden, and for which no other
entry is taken. -/
theorem exists_answer_eq_error_iff :
    (∃ cause, l.answer t = .error cause) ↔
      ¬l.TakesFirst t ∧ (l.entry? t = none ∨ l.Hides t) := by
  by_cases hfirst : l.TakesFirst t
  · obtain ⟨f, hf⟩ := (answer_of_takesFirst hfirst).2
    simp [hfirst, hf]
  by_cases hhides : l.Hides t
  · obtain ⟨what, hwhat⟩ := (answer_of_hides hhides).2
    simp [hfirst, hhides, hwhat]
  obtain ⟨what, hanswer⟩ := exists_answer_eq (not_or.2 ⟨hfirst, hhides⟩)
  rw [hanswer]
  cases l.entry? t <;> simp [hfirst, hhides, entryOr]

/-- A question without an answer is one of which an entry is missing. -/
theorem exists_missingEntry_of_answer {cause : DeviceError} (h : l.answer t = .error cause) :
    ∃ what, cause = .missingEntry what := by
  by_cases hstrays : l.Strays t
  · rcases hstrays with hfirst | hhides
    · obtain ⟨f, hf⟩ := (answer_of_takesFirst hfirst).2
      rw [hf] at h
      cases h
    · obtain ⟨what, hwhat⟩ := (answer_of_hides hhides).2
      exact ⟨what, Except.error.inj (h.symm.trans hwhat)⟩
  · obtain ⟨what, hanswer⟩ := exists_answer_eq hstrays
    rw [hanswer] at h
    cases hentry : l.entry? t with
    | some entry =>
      rw [hentry] at h
      cases h
    | none =>
      rw [hentry] at h
      exact ⟨what, (Except.error.inj h).symm⟩

end Lookup

/-- What an instruction asks of a table: a gate by its operands, and a measurement by each of its
qubits in order. -/
def Instruction.lookups (i : Instruction) : List Lookup :=
  match i.operation with
  | .gate g => [.gate g.name i.qubits]
  | .measure => i.qubits.map .readout
  | .barrier | .delay _ | .reset => []

/-- What a circuit asks of a table, in the order of application. -/
def Circuit.lookups (c : Circuit) : List Lookup := c.instructions.flatMap Instruction.lookups

private theorem Circuit.exists_mem_lookups_iff {c : Circuit} {p : Lookup → Prop} :
    (∃ l ∈ c.lookups, p l) ↔
      (∃ i ∈ c.instructions, ∃ g, i.operation = .gate g ∧ p (.gate g.name i.qubits)) ∨
        ∃ i ∈ c.instructions, i.operation = .measure ∧ ∃ q ∈ i.qubits, p (.readout q) := by
  simp only [lookups, List.mem_flatMap, Instruction.lookups]
  constructor
  · rintro ⟨l, ⟨i, hi, hl⟩, hp⟩
    cases hop : i.operation with
    | gate g =>
      simp only [hop, List.mem_singleton] at hl
      exact .inl ⟨i, hi, g, hop, hl ▸ hp⟩
    | measure =>
      simp only [hop, List.mem_map] at hl
      obtain ⟨q, hq, rfl⟩ := hl
      exact .inr ⟨i, hi, hop, q, hq, hp⟩
    | barrier | delay | reset => simp [hop] at hl
  · rintro (⟨i, hi, g, hop, hp⟩ | ⟨i, hi, hop, q, hq, hp⟩)
    · exact ⟨_, ⟨i, hi, by rw [hop]; exact List.mem_singleton_self _⟩, hp⟩
    · exact ⟨_, ⟨i, hi, by rw [hop]; exact List.mem_map_of_mem hq⟩, hp⟩

/-! ## Idle instructions -/

namespace Instruction

/-- Does an instruction ask nothing of a table: is it a barrier, a delay or a reset? -/
def isIdle (i : Instruction) : Bool := !i.isGate && !i.isMeasure

private theorem isIdle_iff {i : Instruction} :
    i.isIdle = true ↔
      i.operation = .barrier ∨ (∃ d, i.operation = .delay d) ∨ i.operation = .reset := by
  unfold isIdle isGate isMeasure gate?
  cases i.operation <;> simp

private theorem lookups_eq_nil {i : Instruction} (h : i.isIdle = true) : i.lookups = [] := by
  obtain h | ⟨d, h⟩ | h := isIdle_iff.1 h <;>
  · rw [lookups, h]

/-- The same gates and measurements in the same order, with any barriers, delays and resets
between them. -/
def SameWork (is js : List Instruction) : Prop := is.filter (!·.isIdle) = js.filter (!·.isIdle)

private theorem flatMap_lookups_filter (is : List Instruction) :
    (is.filter (!·.isIdle)).flatMap lookups = is.flatMap lookups := by
  induction is with
  | nil => rfl
  | cons i is ih =>
    rw [List.filter_cons, List.flatMap_cons, ← ih]
    cases hidle : i.isIdle with
    | true => simp [lookups_eq_nil hidle]
    | false => simp

private theorem SameWork.flatMap_lookups_eq {is js : List Instruction} (h : SameWork is js) :
    is.flatMap lookups = js.flatMap lookups := by
  rw [← flatMap_lookups_filter is, h, flatMap_lookups_filter]

/-- An instruction that is not idle is in every list that has the same work. -/
theorem SameWork.mem {is js : List Instruction} (h : SameWork is js) {i : Instruction}
    (hi : i ∈ js) (hidle : i.isIdle = false) : i ∈ is := by
  have hwork : i ∈ js.filter (!·.isIdle) := List.mem_filter.2 ⟨hi, by rw [hidle]; rfl⟩
  rw [← h] at hwork
  exact List.mem_of_mem_filter hwork

end Instruction

/-! ## Fidelities of circuits -/

section

variable [Scalar α] {t : CalibrationTable α} {c c' : Circuit} {f : α} {e : ScoringError}

private theorem instructionFidelities_eq (t : CalibrationTable α) (i : Instruction) :
    instructionFidelities t i = i.lookups.mapM (·.answer t) := by
  unfold instructionFidelities Instruction.lookups
  cases i.operation with
  | gate g =>
    dsimp only
    rw [List.mapM_cons, List.mapM_nil, Lookup.answer]
    cases t.gateFidelity g.name i.qubits <;> rfl
  | measure =>
    dsimp only
    rw [List.mapM_map]
    rfl
  | barrier | delay | reset => rfl

/-- The fidelity of a circuit is one traversal of its lookups. -/
theorem calibrationFidelity_eq (c : Circuit) (t : CalibrationTable α) :
    calibrationFidelity c t =
      match c.lookups.mapM (·.answer t) with
      | .ok fidelities => .ok (fidelities.foldl (· * ·) Scalar.one)
      | .error cause => .error (.ofDevice cause) := by
  have hinstructions : instructionFidelities t = fun i => i.lookups.mapM (·.answer t) := by
    funext i
    exact instructionFidelities_eq t i
  rw [calibrationFidelity, hinstructions, Circuit.lookups, ← mapM_flatMap]
  cases c.instructions.mapM fun i => i.lookups.mapM (·.answer t) <;> rfl

/-- With all answers the fidelity is their product, from left to right. -/
theorem calibrationFidelity_eq_ok_iff_answers :
    calibrationFidelity c t = .ok f ↔ ∃ answers,
      List.Forall₂ (fun l answer => Lookup.answer t l = .ok answer) c.lookups answers ∧
        answers.foldl (· * ·) Scalar.one = f := by
  simp only [calibrationFidelity_eq, ← mapM_eq_ok_iff]
  cases c.lookups.mapM (·.answer t) <;> simp

/-- The fidelity fails as the first lookup without an answer. -/
theorem calibrationFidelity_eq_error_iff :
    calibrationFidelity c t = .error e ↔ ∃ before l behind cause,
      c.lookups = before ++ l :: behind ∧ (∀ m ∈ before, ∃ answer, m.answer t = .ok answer) ∧
        l.answer t = .error cause ∧ e = .ofDevice cause := by
  have herror : calibrationFidelity c t = .error e ↔
      ∃ cause, c.lookups.mapM (·.answer t) = .error cause ∧ e = .ofDevice cause := by
    rw [calibrationFidelity_eq]
    cases c.lookups.mapM (·.answer t) <;> simp [eq_comm]
  rw [herror]
  simp only [mapM_eq_error_iff]
  constructor
  · rintro ⟨cause, ⟨before, l, behind, hlookups, hbefore, hl⟩, he⟩
    exact ⟨before, l, behind, cause, hlookups, hbefore, hl, he⟩
  · rintro ⟨before, l, behind, cause, hlookups, hbefore, hl, he⟩
    exact ⟨cause, ⟨before, l, behind, hlookups, hbefore, hl⟩, he⟩

/-- The fidelity fails exactly if some lookup has no answer. -/
theorem exists_calibrationFidelity_eq_error_iff :
    (∃ e, calibrationFidelity c t = .error e) ↔
      ∃ l ∈ c.lookups, ∃ cause, l.answer t = .error cause := by
  constructor
  · rintro ⟨e, he⟩
    obtain ⟨before, l, behind, cause, hlookups, -, hl, -⟩ := calibrationFidelity_eq_error_iff.1 he
    exact ⟨l, by simp [hlookups], cause, hl⟩
  · rintro ⟨l, hmem, cause, hl⟩
    rw [calibrationFidelity_eq]
    cases hresult : c.lookups.mapM (·.answer t) with
    | error cause => exact ⟨_, rfl⟩
    | ok fs =>
      obtain ⟨f, -, hf⟩ := exists_of_mapM_eq_ok hresult hmem
      rw [hl] at hf
      cases hf

section Exact

variable (h : ∀ l ∈ c.lookups, ¬l.Strays t)

include h

/-- If no lookup goes astray and all entries are there, the fidelity is the product of what they
state, from left to right. -/
theorem calibrationFidelity_eq_ok_iff_entries :
    calibrationFidelity c t = .ok f ↔ ∃ entries,
      List.Forall₂ (fun l entry => Lookup.entry? t l = some entry) c.lookups entries ∧
        (entries.map CalibrationEntry.value).foldl (· * ·) Scalar.one = f := by
  have hanswers (fs : List α) :
      List.Forall₂ (fun l answer => Lookup.answer t l = .ok answer) c.lookups fs ↔ ∃ entries,
        List.Forall₂ (fun l entry => Lookup.entry? t l = some entry) c.lookups entries ∧
          entries.map CalibrationEntry.value = fs := by
    rw [forall₂_congr_of_mem fun l hl _ => Lookup.answer_eq_ok_iff (h l hl), forall₂_exists_iff]
    simp only [← List.forall₂_map_left_iff (f := CalibrationEntry.value), List.forall₂_eq_eq_eq]
  simp only [calibrationFidelity_eq_ok_iff_answers, hanswers]
  constructor
  · rintro ⟨_, ⟨entries, hentries, rfl⟩, hf⟩
    exact ⟨entries, hentries, hf⟩
  · rintro ⟨entries, hentries, hf⟩
    exact ⟨_, ⟨entries, hentries, rfl⟩, hf⟩

/-- If no lookup goes astray, the fidelity fails as the first lookup whose entry is missing. -/
theorem calibrationFidelity_eq_error_iff_entries :
    calibrationFidelity c t = .error e ↔ ∃ before l behind cause,
      c.lookups = before ++ l :: behind ∧ (∀ m ∈ before, (m.entry? t).isSome = true) ∧
        l.entry? t = none ∧ l.answer t = .error cause ∧ e = .ofDevice cause := by
  have hmissing {l : Lookup} (hl : l ∈ c.lookups) :
      (∃ cause, l.answer t = .error cause) ↔ l.entry? t = none := by
    obtain ⟨hfirst, hhides⟩ := not_or.1 (h l hl)
    simp [Lookup.exists_answer_eq_error_iff, hfirst, hhides]
  have hanswered {l : Lookup} (hl : l ∈ c.lookups) :
      (∃ answer, l.answer t = .ok answer) ↔ (l.entry? t).isSome = true := by
    rw [← Option.ne_none_iff_isSome, ne_eq, ← hmissing hl]
    cases l.answer t <;> simp
  rw [calibrationFidelity_eq_error_iff]
  constructor
  · rintro ⟨before, l, behind, cause, hlookups, hbefore, hl, he⟩
    have hmem : ∀ m ∈ before, m ∈ c.lookups := fun m hm => by simp [hlookups, hm]
    exact ⟨before, l, behind, cause, hlookups, fun m hm => (hanswered (hmem m hm)).1 (hbefore m hm),
      (hmissing (by simp [hlookups])).1 ⟨cause, hl⟩, hl, he⟩
  · rintro ⟨before, l, behind, cause, hlookups, hbefore, -, hl, he⟩
    have hmem : ∀ m ∈ before, m ∈ c.lookups := fun m hm => by simp [hlookups, hm]
    exact ⟨before, l, behind, cause, hlookups, fun m hm => (hanswered (hmem m hm)).2 (hbefore m hm),
      hl, he⟩

end Exact

/-- The fidelity fails only for want of an entry. -/
theorem exists_missingEntry_of_calibrationFidelity (h : calibrationFidelity c t = .error e) :
    ∃ what, e = .missingEntry what := by
  obtain ⟨-, l, -, cause, -, -, hl, rfl⟩ := calibrationFidelity_eq_error_iff.1 h
  obtain ⟨what, rfl⟩ := Lookup.exists_missingEntry_of_answer hl
  exact ⟨what, rfl⟩

private theorem calibrationFidelity_congr
    (h : Instruction.SameWork c.instructions c'.instructions) (t : CalibrationTable α) :
    calibrationFidelity c' t = calibrationFidelity c t := by
  rw [calibrationFidelity_eq, calibrationFidelity_eq, Circuit.lookups, Circuit.lookups,
    h.flatMap_lookups_eq]

/-- Barriers, delays and resets that fit can be put into a circuit that is built, and any of them
left out. -/
theorem Circuit.exists_calibrationFidelity_eq {name : String} {numQubits numClbits : Nat}
    {is js : List Instruction} (hwork : Instruction.SameWork is js)
    (hidle : ∀ j ∈ js, j.isIdle = true → j.Fits numQubits numClbits)
    (hrun : (is.forM Circuit.apply) (withSize name numQubits numClbits) = .ok () c)
    (t : CalibrationTable α) :
    ∃ c', (js.forM Circuit.apply) (withSize name numQubits numClbits) = .ok () c' ∧
      calibrationFidelity c' t = calibrationFidelity c t := by
  have hc : (CircuitRecord.mk name numQubits numClbits is).toCircuit = .ok c :=
    toCircuit_eq_ok_iff.2 hrun
  have hfits := CircuitRecord.exists_toCircuit_iff.1 ⟨c, hc⟩
  obtain ⟨c', hc'⟩ : ∃ c', (CircuitRecord.mk name numQubits numClbits js).toCircuit = .ok c' := by
    refine CircuitRecord.exists_toCircuit_iff.2 fun j hj => ?_
    cases hj' : j.isIdle with
    | true => exact hidle j hj hj'
    | false => exact hfits j (hwork.mem hj hj')
  obtain ⟨-, hrecord⟩ := CircuitRecord.sound_of_toCircuit hc
  obtain ⟨-, hrecord'⟩ := CircuitRecord.sound_of_toCircuit hc'
  obtain ⟨-, -, -, rfl⟩ := CircuitRecord.mk.inj hrecord
  obtain ⟨-, -, -, rfl⟩ := CircuitRecord.mk.inj hrecord'
  exact ⟨c', toCircuit_eq_ok_iff.1 hc', calibrationFidelity_congr hwork t⟩

/-! ## Calibrated scores -/

/-- The calibrated strategy of an engine fails only for want of calibration data. -/
theorem ScoringEngine.isCalibrationGap_of_calibrated {engine : ScoringEngine α}
    {candidate : Candidate α} (h : engine.calibrated candidate = .error e) :
    e.isCalibrationGap = true := by
  unfold calibrated CalibrationStore.get at h
  cases htable : Dict.get? engine.calibrations candidate.device.name with
  | none =>
    simp only [htable, Except.error.injEq] at h
    rw [← h]
    rfl
  | some t =>
    simp only [htable] at h
    cases hfidelity : calibrationFidelity candidate.circuit t with
    | ok f =>
      rw [hfidelity] at h
      cases h
    | error cause =>
      obtain ⟨what, rfl⟩ := exists_missingEntry_of_calibrationFidelity hfidelity
      rw [hfidelity] at h
      obtain rfl := Except.error.inj h
      rfl

end

/-- When the fidelity of a circuit is known, and what it is.  It is the product of the answers to
all lookups, from left to right, if none is without one; otherwise it fails as the first lookup
without an answer does, and says that an entry is missing.  No answer has a lookup whose entry is
missing or hidden, unless it takes that of its first qubit; all other answers are the entries.  So
if no lookup goes astray, the fidelity fails exactly if some gate has no entry for its exact
operands or some measured qubit none for its readout, as the first of these lookups, and it is the
product of the entries otherwise.  Barriers, delays and resets can be put in and left out anywhere,
and the calibrated strategy of an engine fails only for want of calibration data. -/
theorem calibrationFidelity_lookups [Scalar α] (c : Circuit) (t : CalibrationTable α) :
    (∀ f, calibrationFidelity c t = .ok f ↔ ∃ answers,
      List.Forall₂ (fun l answer => Lookup.answer t l = .ok answer) c.lookups answers ∧
        answers.foldl (· * ·) Scalar.one = f) ∧
    (∀ e, calibrationFidelity c t = .error e ↔ ∃ before l behind cause,
      c.lookups = before ++ l :: behind ∧ (∀ m ∈ before, ∃ answer, m.answer t = .ok answer) ∧
        l.answer t = .error cause ∧ e = .ofDevice cause) ∧
    ((∃ e, calibrationFidelity c t = .error e) ↔
      ∃ l ∈ c.lookups, ¬l.TakesFirst t ∧ (l.entry? t = none ∨ l.Hides t)) ∧
    (∀ l : Lookup,
      (∀ f, l.answer t = .ok f ↔ ∃ entry, l.entry? t = some entry ∧ entry.value = f) ↔
        ¬l.Strays t) ∧
    ((∀ l ∈ c.lookups, ¬l.Strays t) →
      (∀ f, calibrationFidelity c t = .ok f ↔ ∃ entries,
        List.Forall₂ (fun l entry => Lookup.entry? t l = some entry) c.lookups entries ∧
          (entries.map CalibrationEntry.value).foldl (· * ·) Scalar.one = f) ∧
      (∀ e, calibrationFidelity c t = .error e ↔ ∃ before l behind cause,
        c.lookups = before ++ l :: behind ∧ (∀ m ∈ before, (m.entry? t).isSome = true) ∧
          l.entry? t = none ∧ l.answer t = .error cause ∧ e = .ofDevice cause) ∧
      ((∃ e, calibrationFidelity c t = .error e) ↔
        (∃ i ∈ c.instructions, ∃ g, i.operation = .gate g ∧
          t.entryOfGate? g.name i.qubits = none) ∨
        ∃ i ∈ c.instructions, i.operation = .measure ∧
          ∃ q ∈ i.qubits, t.entryOfReadout? q = none)) ∧
    (∀ e, calibrationFidelity c t = .error e →
      (∃ what, e = .missingEntry what) ∧ e.isCalibrationGap = true) ∧
    (∀ c' : Circuit, Instruction.SameWork c.instructions c'.instructions →
      calibrationFidelity c' t = calibrationFidelity c t) ∧
    (∀ name numQubits numClbits is js,
      (is.forM Circuit.apply) (Circuit.withSize name numQubits numClbits) = .ok () c →
      Instruction.SameWork is js →
      (∀ j ∈ js, j.isIdle = true → j.Fits numQubits numClbits) →
      ∃ c', (js.forM Circuit.apply) (Circuit.withSize name numQubits numClbits) = .ok () c' ∧
        calibrationFidelity c' t = calibrationFidelity c t) ∧
    ∀ (engine : ScoringEngine α) (candidate : Candidate α) (e : ScoringError),
      engine.calibrated candidate = .error e → e.isCalibrationGap = true := by
  have hfails : (∃ e, calibrationFidelity c t = .error e) ↔
      ∃ l ∈ c.lookups, ¬l.TakesFirst t ∧ (l.entry? t = none ∨ l.Hides t) := by
    simp only [exists_calibrationFidelity_eq_error_iff, Lookup.exists_answer_eq_error_iff]
  refine ⟨fun f => calibrationFidelity_eq_ok_iff_answers, fun e => calibrationFidelity_eq_error_iff,
    hfails, fun l => Lookup.forall_answer_iff, fun h => ⟨fun f =>
      calibrationFidelity_eq_ok_iff_entries h, fun e => calibrationFidelity_eq_error_iff_entries h,
      ?_⟩, ?_, fun c' hwork => calibrationFidelity_congr hwork t,
    fun name numQubits numClbits is js hrun hwork hidle =>
      Circuit.exists_calibrationFidelity_eq hwork hidle hrun t,
    fun engine candidate e he => ScoringEngine.isCalibrationGap_of_calibrated he⟩
  · have hentries : (∃ l ∈ c.lookups, ¬l.TakesFirst t ∧ (l.entry? t = none ∨ l.Hides t)) ↔
        ∃ l ∈ c.lookups, l.entry? t = none := by
      refine exists_congr fun l => and_congr_right fun hl => ?_
      obtain ⟨hfirst, hhides⟩ := not_or.1 (h l hl)
      simp [hfirst, hhides]
    rw [hfails, hentries, Circuit.exists_mem_lookups_iff]
    rfl
  · intro e he
    obtain ⟨what, rfl⟩ := exists_missingEntry_of_calibrationFidelity he
    exact ⟨⟨what, rfl⟩, rfl⟩

/-- The lookup of a gate on its one qubit does not go astray; its entry is there, so the circuit has
a fidelity. -/
theorem calibrationFidelity_lookups_rootCircuit :
    let t : CalibrationTable Float := (CalibrationContent.ibm evenRows).table
    (∀ l ∈ rootCircuit.lookups, ¬l.Strays t) ∧
      (∀ i ∈ rootCircuit.instructions, ∀ g, i.operation = .gate g →
        t.entryOfGate? g.name i.qubits ≠ none) ∧
      ¬∃ e, calibrationFidelity rootCircuit t = .error e := by
  intro t
  have hlookups : rootCircuit.lookups = [.gate "sx" [0]] := rfl
  have hinstructions : rootCircuit.instructions = [.ofGate (.zeroed .sx) [0]] := rfl
  have hstrays : ∀ l ∈ rootCircuit.lookups, ¬l.Strays t := by
    rw [hlookups, List.forall_mem_singleton]
    rintro (⟨rates, a, b, rest, -, hqubits, -⟩ | ⟨-, a, b, v, hqubits, -⟩)
    · simp at hqubits
    · simp at hqubits
  have hentry : ∀ i ∈ rootCircuit.instructions, ∀ g, i.operation = .gate g →
      t.entryOfGate? g.name i.qubits ≠ none := by
    rw [hinstructions, List.forall_mem_singleton]
    rintro g hg
    obtain rfl := Operation.gate.inj hg
    exact Option.isSome_iff_ne_none.1 rfl
  obtain ⟨-, -, hfails⟩ := (calibrationFidelity_lookups rootCircuit t).2.2.2.2.1 hstrays
  refine ⟨hstrays, hentry, fun herror => ?_⟩
  rcases hfails.1 herror with ⟨i, hi, g, hg, hnone⟩ | ⟨i, hi, hmeasure, -⟩
  · exact hentry i hi g hg hnone
  · rw [hinstructions, List.mem_singleton] at hi
    subst hi
    cases hmeasure

/-- A circuit of one gate of its own on two qubits, with the name of a gate on one. -/
def wideCircuit : Circuit :=
  match Circuit.apply (.ofGate (.custom "sx" 2 []) [0, 1]) (Circuit.withSize "wide" 2 0) with
  | .ok _ c => c
  | .error _ c => c

/-- The circuit has a fidelity, that of the first qubit, although the export says nothing of the
other one and there is no entry for the gate on both. -/
theorem calibrationFidelity_wideCircuit :
    let t : CalibrationTable Float := (CalibrationContent.ibm evenRows).table
    Circuit.apply (.ofGate (.custom "sx" 2 []) [0, 1]) (.withSize "wide" 2 0) =
        .ok () wideCircuit ∧
      CalibrationTable.parse .ibmCsv "export.csv" evenExport = .ok t ∧
      (∃ i ∈ wideCircuit.instructions, ∃ g, i.operation = .gate g ∧
        t.entryOfGate? g.name i.qubits = none) ∧
      calibrationFidelity wideCircuit t = .ok (Scalar.one * IbmTable.success 0.5) := by
  intro t
  refine ⟨rfl, CalibrationTable.parse_eq_ok_iff.2 ⟨.ibm evenRows,
    CalibrationContent.ofText_ibm (by decide +kernel), rfl, by decide +kernel⟩, ?_, rfl⟩
  have hgate : Instruction.ofGate (.custom "sx" 2 []) [0, 1] ∈ wideCircuit.instructions := by
    have hinstructions : wideCircuit.instructions = [.ofGate (.custom "sx" 2 []) [0, 1]] := rfl
    rw [hinstructions]
    exact List.mem_singleton_self _
  exact ⟨_, hgate, _, rfl, rfl⟩

end PathSelection
