import PathSelection.Proofs.Circuit.Acceptance
import PathSelection.Proofs.Circuit.Insertion
import PathSelection.Proofs.Circuit.Tallies
import PathSelection.Proofs.Number.Order

/-!
# Features of circuits

The features are counts, and counts of 53 bits are doubles of the same value.  The gates of the
vocabulary are standard gates, so in the circuit of a document those on `k` qubits are among the
operations on `k` qubits, and no operation is counted by two names.  A barrier is neither in the
vocabulary nor counted by its qubits.

Main results:

- Theorem `sum_countP_name`: operations that are counted by different names are different.
- Theorem `FeatureVector.values_of_insert`: a barrier changes the depth only.
- Theorem `features_of_ofText`: the features of the circuit of a document.
-/

namespace PathSelection

variable {c c' : Circuit} {is before behind : List Instruction} {i : Instruction}

/-! ## Counts by name -/

/-- Operations that are counted by different names are different. -/
theorem sum_countP_name {names : List String} (h : names.Nodup) (is : List Instruction) :
    (names.map fun name => is.countP (·.name == name)).sum =
      is.countP fun i => decide (i.name ∈ names) := by
  induction names with
  | nil => simp
  | cons name names ih =>
    obtain ⟨hname, hnames⟩ := List.nodup_cons.1 h
    rw [List.map_cons, List.sum_cons, ih hnames]
    clear ih
    induction is with
    | nil => rfl
    | cons i is ih =>
      simp only [List.countP_cons, ← ih]
      by_cases hi : i.name = name
      · subst hi
        simp [hname]
        omega
      · simp [hi]
        omega

/-- The gates of the vocabulary on so many qubits. -/
def gatesOn (k : Nat) : List String :=
  gateVocabulary.filter fun name => (StandardGate.ofName? name).map StandardGate.numQubits == some k

/-- In the circuit of a document the gates of the vocabulary on `k` qubits are among the operations
other than barriers on `k` qubits. -/
theorem sum_gatesOn_le {text : String} (hc : Circuit.ofText text = .ok c) (k : Nat) :
    ((gatesOn k).map fun name => c.instructions.countP (·.name == name)).sum ≤
      FeatureVector.interactions c k := by
  have hnodup : (gatesOn k).Nodup := List.Nodup.filter _ (by decide)
  rw [sum_countP_name hnodup, FeatureVector.interactions]
  refine List.countP_mono_left fun i hi hname => ?_
  obtain ⟨-, hgate⟩ := List.mem_filter.1 (of_decide_eq_true hname)
  obtain ⟨g, hg, hk⟩ := Option.map_eq_some_iff.1 (beq_iff_eq.1 hgate)
  have hqubits := Circuit.length_qubits_of_ofText hc hi hg
  have hbarrier : i.isBarrier = false := by
    cases hbarrier : i.isBarrier with
    | false => rfl
    | true =>
      rw [Instruction.name_of_isBarrier hbarrier] at hg
      cases hg
  simp [hbarrier, Instruction.numQubits, hqubits, hk]

/-! ## Values of features -/

/-- What stands under a name in a list of names and their values. -/
theorem lookup_map_mk {β : Type} {names : List String} {name : String} (h : name ∈ names)
    (f : String → β) : (names.map fun name => (name, f name)).lookup name = some (f name) := by
  induction names with
  | nil => cases h
  | cons other names ih =>
    rw [List.map_cons, List.lookup_cons]
    by_cases hname : name = other
    · simp [hname]
    · rw [beq_false_of_ne hname]
      exact ih ((List.mem_cons.1 h).resolve_left hname)

namespace FeatureVector

variable {α : Type} [Scalar α]

/-- The value of a feature, if it is a number. -/
def valueOf? (v : FeatureVector Float) (name : String) : Option Rat :=
  (v.get? name).bind Float.value?

private theorem get?_of_mem_gateVocabulary (c : Circuit) {name : String}
    (h : name ∈ gateVocabulary) :
    (ofCircuit c : FeatureVector α).get? name = some (Scalar.ofNat (c.countOps.count name)) := by
  have hlist : (ofCircuit c : FeatureVector α).toList =
      (gateVocabulary.map fun name => (name, Scalar.ofNat (c.countOps.count name))) ++
        (["num_qubits", "depth"] ++ interactionWidths.map fun k => s!"{k}_max_interactions").zip
          (([c.numQubits, c.depth] ++ interactionWidths.map (interactions c)).map Scalar.ofNat) :=
    rfl
  change (ofCircuit c : FeatureVector α).toList.lookup name = _
  rw [hlist, List.lookup_append, lookup_map_mk h]
  rfl

private theorem get?_of_mem_interactionWidths (c : Circuit) {k : Nat} (h : k ∈ interactionWidths) :
    (ofCircuit c : FeatureVector α).get? s!"{k}_max_interactions" =
      some (Scalar.ofNat (interactions c k)) := by
  have hwidths : interactionWidths = [1, 2, 3, 4, 5] := rfl
  simp only [hwidths, List.mem_cons, List.not_mem_nil, or_false] at h
  rcases h with rfl | rfl | rfl | rfl | rfl <;> rfl

private theorem get?_depth (c : Circuit) :
    (ofCircuit c : FeatureVector α).get? "depth" = some (Scalar.ofNat c.depth) := rfl

/-! ## Barriers -/

/-- The place of the depth. -/
def depthPlace : Nat := gateVocabulary.length + 1

/-- A barrier at any place changes the depth only. -/
theorem values_of_insert (hi : i.isBarrier = true) (hqubits : c'.numQubits = c.numQubits)
    (hc : c.instructions = before ++ behind) (hc' : c'.instructions = before ++ i :: behind) :
    (ofCircuit c' : FeatureVector α).values =
      (ofCircuit c : FeatureVector α).values.set depthPlace (Scalar.ofNat c'.depth) := by
  have hgates : gateVocabulary.map c'.countOps.count = gateVocabulary.map c.countOps.count := by
    refine List.map_congr_left fun name hname => ?_
    have hne : i.name ≠ name := by
      rw [Instruction.name_of_isBarrier hi]
      rintro rfl
      exact absurd hname (by decide)
    simp [Circuit.count_countOps, hc, hc', hne]
  have hinteractions : interactions c' = interactions c := by
    funext k
    simp [interactions, hc, hc', hi]
  simp only [ofCircuit, counts, hgates, hinteractions, hqubits]
  rfl

end FeatureVector

/-! ## Documents -/

/-- A form with one more record at any place, which is a barrier. -/
structure CircuitForm.InsertsBarrier (f f' : CircuitForm) (barrier : InstructionRecord) : Prop where
  numQubits : f'.numQubits = f.numQubits
  numClbits : f'.numClbits = f.numClbits
  records : ∃ before behind, f.records = before ++ behind ∧ f'.records = before ++ barrier :: behind
  op : barrier.op = "barrier"

/-- A form with one more barrier is accepted exactly if the barrier fits. -/
theorem CircuitForm.InsertsBarrier.exists_ofText_iff {f f' : CircuitForm}
    {barrier : InstructionRecord} {text text' : String} (h : f.InsertsBarrier f' barrier)
    (hparse : Json.parse CircuitForm.decoder text = .ok f)
    (hparse' : Json.parse CircuitForm.decoder text' = .ok f') (hc : Circuit.ofText text = .ok c) :
    (∃ c', Circuit.ofText text' = .ok c') ↔ barrier.Fits f.numQubits f.numClbits := by
  obtain ⟨before, behind, hrecords, hrecords'⟩ := h.records
  have hfits := (Circuit.exists_ofText_iff hparse).1 ⟨c, hc⟩
  rw [hrecords, List.forall_mem_append] at hfits
  rw [Circuit.exists_ofText_iff hparse', hrecords', h.numQubits, h.numClbits,
    List.forall_mem_append, List.forall_mem_cons]
  exact ⟨fun hall => hall.2.1, fun hbarrier => ⟨hfits.1, hbarrier, hfits.2⟩⟩

/-- The circuit of a form with one more barrier has one more instruction, a barrier. -/
theorem CircuitForm.InsertsBarrier.exists_instructions {f f' : CircuitForm}
    {barrier : InstructionRecord} {text text' : String} (h : f.InsertsBarrier f' barrier)
    (hparse : Json.parse CircuitForm.decoder text = .ok f)
    (hparse' : Json.parse CircuitForm.decoder text' = .ok f') (hc : Circuit.ofText text = .ok c)
    (hc' : Circuit.ofText text' = .ok c') :
    c'.numQubits = c.numQubits ∧ ∃ before i behind, c.instructions = before ++ behind ∧
      c'.instructions = before ++ i :: behind ∧ i.isBarrier = true := by
  obtain ⟨before, behind, hrecords, hrecords'⟩ := h.records
  obtain ⟨-, hqubits, -, -, hall⟩ := Circuit.of_ofText hparse hc
  obtain ⟨-, hqubits', -, -, hall'⟩ := Circuit.of_ofText hparse' hc'
  rw [hrecords] at hall
  rw [hrecords'] at hall'
  obtain ⟨front, i, rest, hi, hi', hread⟩ :=
    exists_of_mapM_insert (mapM_eq_ok_iff.2 hall) (mapM_eq_ok_iff.2 hall')
  refine ⟨hqubits'.trans (h.numQubits.trans hqubits.symm), front, i, rest, hi, hi', ?_⟩
  exact InstructionRecord.isBarrier_of_toInstruction hread h.op

/-- The features of the circuit of a document, read as exact numbers.  There is one for each name;
those of the vocabulary are the numbers of operations of these names, and those of interactions
the numbers of operations other than barriers on so many qubits, among which are the gates of the
vocabulary on so many.  A document with one more barrier at any place is accepted exactly if the
barrier fits.  Then all features but the depth are the same, and the depth is not lower. -/
theorem features_of_ofText {text : String} (hc : Circuit.ofText text = .ok c)
    (hops : c.numOps < 2 ^ 53) :
    let v : FeatureVector Float := .ofCircuit c
    v.size = featureCount ∧
    (∀ name ∈ gateVocabulary,
      v.valueOf? name = some ((c.instructions.countP (·.name == name) : Nat) : Rat)) ∧
    (∀ k ∈ interactionWidths,
      v.valueOf? s!"{k}_max_interactions" =
        some ((c.instructions.countP fun i => !i.isBarrier && i.qubits.length == k : Nat) : Rat) ∧
      ((gatesOn k).map fun name => (v.valueOf? name).getD 0).sum ≤
        (v.valueOf? s!"{k}_max_interactions").getD 0) ∧
    ∀ f, Json.parse CircuitForm.decoder text = .ok f → ∀ text' f' barrier,
      Json.parse CircuitForm.decoder text' = .ok f' → f.InsertsBarrier f' barrier →
      ((∃ c', Circuit.ofText text' = .ok c') ↔ barrier.Fits f.numQubits f.numClbits) ∧
      ∀ c', Circuit.ofText text' = .ok c' →
        let v' : FeatureVector Float := .ofCircuit c'
        (∀ place : Nat, featureNames[place]? ≠ some "depth" → v'.values[place]? = v.values[place]?) ∧
        v.valueOf? "depth" = some (c.depth : Rat) ∧ v'.valueOf? "depth" = some (c'.depth : Rat) ∧
        c.depth ≤ c'.depth := by
  intro v
  have hsound := Circuit.sound_of_ofText hc
  have hbound (p : Instruction → Bool) : c.instructions.countP p < 2 ^ 53 :=
    List.countP_le_length.trans_lt (hsound.numOps_eq ▸ hops)
  have hgates : ∀ name ∈ gateVocabulary,
      v.valueOf? name = some ((c.instructions.countP (·.name == name) : Nat) : Rat) := by
    intro name hname
    rw [FeatureVector.valueOf?, FeatureVector.get?_of_mem_gateVocabulary c hname, Option.bind_some,
      c.count_countOps, value?_ofNat (hbound _)]
  have hinteractions : ∀ k ∈ interactionWidths, v.valueOf? s!"{k}_max_interactions" =
      some ((FeatureVector.interactions c k : Nat) : Rat) := by
    intro k hk
    rw [FeatureVector.valueOf?, FeatureVector.get?_of_mem_interactionWidths c hk, Option.bind_some]
    exact value?_ofNat (hbound _)
  refine ⟨FeatureVector.size_ofCircuit c, hgates, fun k hk => ⟨hinteractions k hk, ?_⟩, ?_⟩
  · have hsum : ((gatesOn k).map fun name => (v.valueOf? name).getD 0) =
        ((gatesOn k).map fun name => c.instructions.countP (·.name == name)).map Nat.cast := by
      rw [List.map_map]
      refine List.map_congr_left fun name hname => ?_
      rw [hgates name (List.mem_filter.1 hname).1]
      rfl
    rw [hsum, hinteractions k hk, ← Nat.cast_list_sum, Option.getD_some]
    exact_mod_cast sum_gatesOn_le hc k
  · intro f hparse text' f' barrier hparse' hinserts
    refine ⟨hinserts.exists_ofText_iff hparse hparse' hc, ?_⟩
    intro c' hc' v'
    obtain ⟨hqubits, before, i, behind, hi, hi', hbarrier⟩ :=
      hinserts.exists_instructions hparse hparse' hc hc'
    have hsound' := Circuit.sound_of_ofText hc'
    have hdepth' : c'.depth < 2 ^ 53 := by
      refine hsound'.depth_le.trans_lt (lt_of_eq_of_lt ?_ (hbound fun i => !i.isBarrier))
      simp [hi, hi', hbarrier]
    have hdepth : c.depth ≤ c'.depth := hsound.depth_le_of_insert hsound' hi hi'
    refine ⟨fun place hplace => ?_, ?_, ?_, hdepth⟩
    · have hne : FeatureVector.depthPlace ≠ place := by
        rintro rfl
        exact hplace rfl
      rw [FeatureVector.values_of_insert hbarrier hqubits hi hi', List.getElem?_set_ne hne]
    · rw [FeatureVector.valueOf?, FeatureVector.get?_depth, Option.bind_some,
        value?_ofNat (hdepth.trans_lt hdepth')]
    · rw [FeatureVector.valueOf?, FeatureVector.get?_depth, Option.bind_some,
        value?_ofNat hdepth']

/-- A barrier between the gates of a Bell pair. -/
theorem features_of_ofText_pair :
    let h : InstructionRecord := ⟨"h", [0], [], [], none⟩
    let barrier : InstructionRecord := ⟨"barrier", [0, 1], [], [], none⟩
    let cx : InstructionRecord := ⟨"cx", [0, 1], [], [], none⟩
    ∃ c c', Circuit.ofText (Circuit.pairText [h, cx]) = .ok c ∧ c.numOps < 2 ^ 53 ∧
      Circuit.ofText (Circuit.pairText [h, barrier, cx]) = .ok c' ∧
      (FeatureVector.ofCircuit c : FeatureVector Float).valueOf? "cx" = some 1 ∧
      c.depth ≤ c'.depth := by
  intro h barrier cx
  have hparse : Json.parse CircuitForm.decoder (Circuit.pairText [h, cx]) =
      .ok ⟨"", 2, 0, [h, cx]⟩ := by
    rw [Circuit.pairText, Json.parse_compactText]
    rfl
  have hparse' : Json.parse CircuitForm.decoder (Circuit.pairText [h, barrier, cx]) =
      .ok ⟨"", 2, 0, [h, barrier, cx]⟩ := by
    rw [Circuit.pairText, Json.parse_compactText]
    rfl
  have hfits : ∀ r ∈ [h, cx], r.Fits 2 0 := of_decide_eq_true rfl
  have hbarrier : barrier.Fits 2 0 := of_decide_eq_true rfl
  obtain ⟨c, hc⟩ := (Circuit.exists_ofText_iff hparse).2 hfits
  obtain ⟨-, -, -, hops, hall⟩ := Circuit.of_ofText hparse hc
  have hsmall : c.numOps < 2 ^ 53 := by
    rw [hops]
    decide
  have hcount : c.instructions.countP (·.name == "cx") = 1 := by
    generalize c.instructions = is at hall
    obtain _ | ⟨hi, _ | ⟨hj, _ | _⟩⟩ := hall
    simp [InstructionRecord.name_of_toInstruction hi, InstructionRecord.name_of_toInstruction hj, h,
      cx]
  have hinserts : CircuitForm.InsertsBarrier ⟨"", 2, 0, [h, cx]⟩ ⟨"", 2, 0, [h, barrier, cx]⟩
      barrier := ⟨rfl, rfl, ⟨[h], [cx], rfl, rfl⟩, rfl⟩
  obtain ⟨-, hgates, -, hdocuments⟩ := features_of_ofText hc hsmall
  obtain ⟨haccepted, hchanged⟩ := hdocuments _ hparse _ _ _ hparse' hinserts
  obtain ⟨c', hc'⟩ := haccepted.2 hbarrier
  obtain ⟨-, -, -, hdepth⟩ := hchanged c' hc'
  have hcxgate := hgates "cx" (by decide)
  rw [hcount] at hcxgate
  exact ⟨c, c', hc, hsmall, hc', hcxgate.trans (by simp), hdepth⟩

end PathSelection
