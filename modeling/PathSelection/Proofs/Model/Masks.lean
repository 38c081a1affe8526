import PathSelection.Proofs.Model.Prediction
import PathSelection.Proofs.Number.Sum

/-!
# Masks of examples

The mask of a dataset keeps the features that some example has.  Where no value is negative, the sum
of a feature over the examples is positive exactly if one of its values is.  So a feature that is not
kept is zero in all examples, and what is kept of an example determines all of it.

- Structure `Uniform`: vectors of one length without negative values.
- Structure `ColumnSums`: what the sums of the features tell about the examples.

Main results:

- Theorem `columnSums_of_uniform`: the sums of a dataset.
- Theorem `FeatureMask.mem_ofExamples_iff`: a feature is kept if it is positive in some example.
- Theorem `FeatureMask.ofExamples_lossless`: the mask of a dataset keeps all that tells its examples
  apart.
-/

namespace PathSelection

variable {examples : List (TrainingExample Float)} {e e' : TrainingExample Float} {n i : Nat}

/-! ## Sums of features -/

/-- Examples with as many features each, none of which is negative. -/
structure Uniform (examples : List (TrainingExample Float)) (n : Nat) : Prop where
  size : ∀ e ∈ examples, e.features.size = n
  nonneg : ∀ e ∈ examples, ∀ x ∈ e.features.values, Scalar.le Scalar.zero x = true

/-- Is a feature of an example positive? -/
def TrainingExample.HasFeature (e : TrainingExample Float) (i : Nat) : Prop :=
  ∃ x, e.features.values[i]? = some x ∧ Scalar.lt Scalar.zero x = true

/-- A sum for each feature, which is positive if the feature is positive in some example. -/
structure ColumnSums (examples : List (TrainingExample Float)) (n : Nat) (sums : List Float) :
    Prop where
  length : sums.length = n
  nonneg : ∀ s ∈ sums, Scalar.le Scalar.zero s = true
  pos_iff : ∀ i s, sums[i]? = some s →
    (Scalar.lt Scalar.zero s = true ↔ ∃ e ∈ examples, e.HasFeature i)

private theorem columnSums_nil (n : Nat) : ColumnSums [] n (List.replicate n Scalar.zero) where
  length := List.length_replicate
  nonneg := fun s hs => by
    rw [List.eq_of_mem_replicate hs]
    decide
  pos_iff := fun i s hs => by
    rw [List.eq_of_mem_replicate (List.mem_of_getElem? hs)]
    simp only [List.not_mem_nil, false_and, exists_false, iff_false]
    decide

/-- To as many sums as there are values, the values are added place by place. -/
theorem addValues_eq {sums values : List Float} (h : values.length = sums.length) :
    FeatureMask.addValues sums values = List.zipWith (· + ·) sums values := by
  induction sums generalizing values with
  | nil =>
    obtain rfl := List.length_eq_zero_iff.1 h
    rfl
  | cons s sums ih =>
    cases values with
    | nil => cases h
    | cons v values => rw [FeatureMask.addValues, List.zipWith, ih (Nat.succ.inj h)]

/-- The values of one more example are added. -/
theorem ColumnSums.addValues {sums : List Float} (h : ColumnSums examples n sums)
    (hsize : e.features.size = n)
    (hnonneg : ∀ x ∈ e.features.values, Scalar.le Scalar.zero x = true) :
    ColumnSums (examples ++ [e]) n (FeatureMask.addValues sums e.features.values) := by
  have hlength : e.features.values.length = sums.length := hsize.trans h.length.symm
  rw [addValues_eq hlength]
  have hparts {i : Nat} {s : Float}
      (hs : (List.zipWith (· + ·) sums e.features.values)[i]? = some s) :
      ∃ t x, sums[i]? = some t ∧ e.features.values[i]? = some x ∧ t + x = s ∧
        Scalar.le Scalar.zero t = true ∧ Scalar.le Scalar.zero x = true := by
    obtain ⟨t, x, ht, hx, hsum⟩ := List.getElem?_zipWith_eq_some.1 hs
    exact ⟨t, x, ht, hx, hsum, h.nonneg t (List.mem_of_getElem? ht),
      hnonneg x (List.mem_of_getElem? hx)⟩
  refine ⟨?_, ?_, ?_⟩
  · rw [List.length_zipWith, hlength, h.length, min_self]
  · intro s hs
    obtain ⟨i, hi⟩ := List.mem_iff_getElem?.1 hs
    obtain ⟨t, x, -, -, rfl, ht, hx⟩ := hparts hi
    exact le_zero_add ht hx
  · intro i s hs
    obtain ⟨t, x, hsum, hvalue, rfl, ht, hx⟩ := hparts hs
    rw [lt_zero_add_iff ht hx, h.pos_iff i t hsum]
    simp only [List.mem_append, List.mem_singleton, or_and_right, exists_or, exists_eq_left,
      TrainingExample.HasFeature, hvalue, Option.some.injEq, exists_eq_left']

/-- The sums of a dataset. -/
theorem columnSums_of_uniform (h : Uniform examples n) :
    ColumnSums examples n (FeatureMask.columnSums n examples) := by
  induction examples using List.reverseRecOn with
  | nil => exact columnSums_nil n
  | append_singleton examples e ih =>
    have hmem : e ∈ examples ++ [e] := List.mem_append_right _ (List.mem_singleton_self e)
    have hbefore : Uniform examples n :=
      ⟨fun e he => h.size e (List.mem_append_left _ he),
        fun e he => h.nonneg e (List.mem_append_left _ he)⟩
    unfold FeatureMask.columnSums
    rw [List.foldl_append]
    exact (ih hbefore).addValues (h.size e hmem) (h.nonneg e hmem)

/-! ## The mask of a dataset -/

namespace FeatureMask

private theorem ofExamples_eq (hne : examples ≠ []) (h : Uniform examples n) :
    ofExamples examples = ⟨n, (columnSums n examples).zipIdx.filterMap fun (sum, i) =>
      if Scalar.lt Scalar.zero sum then some i else none⟩ := by
  cases examples with
  | nil => exact absurd rfl hne
  | cons e rest =>
    have hsize := h.size e List.mem_cons_self
    simp only [ofExamples, hsize]

/-- A feature is kept if it is positive in some example. -/
theorem mem_ofExamples_iff (hne : examples ≠ []) (h : Uniform examples n) :
    i ∈ (ofExamples examples).indices ↔ ∃ e ∈ examples, e.HasFeature i := by
  have hsums := columnSums_of_uniform h
  rw [ofExamples_eq hne h]
  simp only [List.mem_filterMap, Option.ite_none_right_eq_some, Option.some.injEq, Prod.exists]
  constructor
  · rintro ⟨s, j, hmem, hpos, rfl⟩
    exact (hsums.pos_iff j s (List.mk_mem_zipIdx_iff_getElem?.1 hmem)).1 hpos
  · rintro ⟨e, he, hfeature⟩
    have hi : i < (columnSums n examples).length := by
      obtain ⟨x, hx, -⟩ := hfeature
      rw [hsums.length, ← h.size e he]
      exact (List.getElem?_eq_some_iff.1 hx).1
    have hsum : (columnSums n examples)[i]? = some ((columnSums n examples).get ⟨i, hi⟩) :=
      List.getElem?_eq_getElem hi
    exact ⟨_, i, List.mk_mem_zipIdx_iff_getElem?.2 hsum,
      (hsums.pos_iff i _ hsum).2 ⟨e, he, hfeature⟩, rfl⟩

/-- The places that are kept are among those of the features, in their order. -/
theorem sublist_ofExamples (hne : examples ≠ []) (h : Uniform examples n) :
    (ofExamples examples).indices.Sublist (List.range n) := by
  have hplaces : (columnSums n examples).zipIdx.map Prod.snd = List.range n := by
    rw [List.zipIdx_map_snd, (columnSums_of_uniform h).length, List.range_eq_range']
  rw [ofExamples_eq hne h, ← hplaces]
  generalize (columnSums n examples).zipIdx = entries
  induction entries with
  | nil => exact .slnil
  | cons entry entries ih =>
    dsimp only at ih ⊢
    rw [List.map_cons, List.filterMap_cons]
    split
    · exact ih.cons _
    · rename_i hkept
      obtain ⟨-, hplace⟩ := Option.ite_none_right_eq_some.1 hkept
      obtain rfl := Option.some.inj hplace
      exact ih.cons_cons _

/-! ## What is kept -/

/-- Lists are equal if they are equal place by place. -/
theorem beq_iff_forall₂ {xs ys : List Float} :
    (xs == ys) = true ↔ List.Forall₂ (fun x y => (x == y) = true) xs ys := by
  induction xs generalizing ys with
  | nil => cases ys <;> simp
  | cons x xs ih => cases ys <;> simp [ih]

/-- What is selected is equal place by place if it is equal at the places that are selected. -/
theorem exists_beq_of_forall₂ {v v' : FeatureVector Float} {places : List Nat}
    {values values' : List Float}
    (h : List.Forall₂ (fun i x => v.values[i]? = some x) places values)
    (h' : List.Forall₂ (fun i x => v'.values[i]? = some x) places values')
    (hequal : List.Forall₂ (fun x x' => (x == x') = true) values values') (hi : i ∈ places) :
    ∃ x x', v.values[i]? = some x ∧ v'.values[i]? = some x' ∧ (x == x') = true := by
  induction h generalizing values' with
  | nil => cases hi
  | cons hx _ ih =>
    cases h' with
    | cons hx' hrest' =>
      obtain ⟨heq, hequal⟩ := List.forall₂_cons.1 hequal
      rcases List.mem_cons.1 hi with rfl | hi
      · exact ⟨_, _, hx, hx', heq⟩
      · exact ih hrest' hequal hi

/-- Two examples that agree where some example is positive agree everywhere. -/
theorem beq_of_agree (h : Uniform examples n) (he : e ∈ examples) (he' : e' ∈ examples)
    (hagree : ∀ i, (∃ e ∈ examples, e.HasFeature i) →
      ∃ x x', e.features.values[i]? = some x ∧ e'.features.values[i]? = some x' ∧
        (x == x') = true) :
    (e.features.values == e'.features.values) = true := by
  refine beq_iff_forall₂.2 (List.forall₂_iff_get.2 ⟨(h.size e he).trans (h.size e' he').symm, ?_⟩)
  intro i hi hi'
  have hvalue : e.features.values[i]? = some (e.features.values.get ⟨i, hi⟩) :=
    List.getElem?_eq_getElem hi
  have hvalue' : e'.features.values[i]? = some (e'.features.values.get ⟨i, hi'⟩) :=
    List.getElem?_eq_getElem hi'
  by_cases hkept : ∃ e ∈ examples, e.HasFeature i
  · obtain ⟨x, x', hx, hx', heq⟩ := hagree i hkept
    rw [hvalue, Option.some.injEq] at hx
    rw [hvalue', Option.some.injEq] at hx'
    rwa [hx, hx']
  · -- A feature that no example has is zero in both.
    exact beq_of_not_lt_zero (h.nonneg e he _ (List.get_mem _ _))
      (h.nonneg e' he' _ (List.get_mem _ _))
      (fun hpos => hkept ⟨e, he, _, hvalue, hpos⟩)
      fun hpos => hkept ⟨e', he', _, hvalue', hpos⟩

/-- The mask of a dataset keeps all that tells its examples apart.  Its places ascend, and a place
is kept exactly if some example is positive there.  It takes every example, and two examples of
which it keeps the same are the same.  If the examples are features of circuits, the mask makes a
model with every tree over as many features as it keeps. -/
theorem ofExamples_lossless (hne : examples ≠ []) (h : Uniform examples n) :
    (ofExamples examples).featureCount = n ∧
    (ofExamples examples).indices.Pairwise (· < ·) ∧
    (∀ i ∈ (ofExamples examples).indices, i < n) ∧
    (∀ i, i ∈ (ofExamples examples).indices ↔ ∃ e ∈ examples, ∃ x,
      e.features.values[i]? = some x ∧ Scalar.lt Scalar.zero x = true) ∧
    (∀ e ∈ examples, ∃ values, (ofExamples examples).apply e.features = .ok values ∧
      List.Forall₂ (fun i x => e.features.values[i]? = some x)
        (ofExamples examples).indices values) ∧
    (∀ e ∈ examples, ∀ e' ∈ examples, ∀ values values',
      (ofExamples examples).apply e.features = .ok values →
      (ofExamples examples).apply e'.features = .ok values' →
      (values == values') = true → (e.features.values == e'.features.values) = true) ∧
    ((∀ e ∈ examples, ∃ c, e.features = .ofCircuit c) → ∀ tree : DecisionTree Float,
      tree.numFeatures = (ofExamples examples).size →
      Model.ofParts tree (ofExamples examples) = .ok ⟨tree, ofExamples examples⟩) := by
  have hsublist := sublist_ofExamples hne h
  have hcount : (ofExamples examples).featureCount = n := by rw [ofExamples_eq hne h]
  have hbound : ∀ i ∈ (ofExamples examples).indices, i < n := fun i hi =>
    List.mem_range.1 (hsublist.subset hi)
  have happly : ∀ e ∈ examples, ∃ values, (ofExamples examples).apply e.features = .ok values ∧
      List.Forall₂ (fun i x => e.features.values[i]? = some x)
        (ofExamples examples).indices values := fun e he =>
    exists_apply ((h.size e he).trans hcount.symm) fun i hi => hcount.symm ▸ hbound i hi
  refine ⟨hcount, List.pairwise_lt_range.sublist hsublist, hbound,
    fun i => mem_ofExamples_iff hne h, happly, ?_, ?_⟩
  · intro e he e' he' kept kept' hkept hkept' hequal
    obtain ⟨values, hvalues, hplaces⟩ := happly e he
    obtain ⟨values', hvalues', hplaces'⟩ := happly e' he'
    obtain rfl := Except.ok.inj (hvalues.symm.trans hkept)
    obtain rfl := Except.ok.inj (hvalues'.symm.trans hkept')
    exact beq_of_agree h he he' fun i hi => exists_beq_of_forall₂ hplaces hplaces'
      (beq_iff_forall₂.1 hequal) ((mem_ofExamples_iff hne h).2 hi)
  · intro hcircuits tree htree
    obtain ⟨e, he⟩ := List.exists_mem_of_ne_nil examples hne
    obtain ⟨c, hc⟩ := hcircuits e he
    obtain rfl : n = PathSelection.featureCount := by
      rw [← h.size e he, hc, FeatureVector.size_ofCircuit]
    exact Model.ofParts_eq_ok_iff.2 ⟨rfl, ⟨hcount, hbound⟩, htree.symm⟩

/-- No feature of a circuit whose counts have 53 bits is negative. -/
theorem le_zero_of_mem_ofCircuit {c : Circuit} (h : ∀ k ∈ FeatureVector.counts c, k < 2 ^ 53)
    {x : Float} (hx : x ∈ (FeatureVector.ofCircuit c).values) :
    Scalar.le Scalar.zero x = true := by
  obtain ⟨k, hk, rfl⟩ := List.mem_map.1 hx
  exact (le_of_value? value?_zero (value?_ofNat (h k hk))).2 (Nat.cast_nonneg k)

/-- A circuit without instructions as an example. -/
def idleExample (numQubits : Nat) : TrainingExample Float :=
  ⟨"idle", .ofCircuit (.withSize "idle" numQubits 0), 0, ⟨[]⟩, none⟩

private theorem uniform_idleExamples :
    Uniform ([1, 2].map idleExample) PathSelection.featureCount := by
  have hcounts : ∀ numQubits ∈ [1, 2],
      ∀ k ∈ FeatureVector.counts (.withSize "idle" numQubits 0), k < 2 ^ 53 := by decide
  constructor
  · intro e he
    obtain ⟨numQubits, -, rfl⟩ := List.mem_map.1 he
    exact FeatureVector.size_ofCircuit _
  · intro e he x hx
    obtain ⟨numQubits, hmem, rfl⟩ := List.mem_map.1 he
    exact le_zero_of_mem_ofCircuit (hcounts numQubits hmem) hx

/-- The mask of two circuits of different sizes makes a model with a tree of its size. -/
theorem ofExamples_lossless_idleExamples :
    (ofExamples ([1, 2].map idleExample)).featureCount = PathSelection.featureCount ∧
      (ofExamples ([1, 2].map idleExample)).indices.Pairwise (· < ·) ∧
      ∃ m : Model Float, Model.ofParts (.constant (ofExamples ([1, 2].map idleExample)).size 0)
        (ofExamples ([1, 2].map idleExample)) = .ok m := by
  obtain ⟨hcount, hascending, -, -, -, -, hmodel⟩ :=
    ofExamples_lossless (by simp) uniform_idleExamples
  refine ⟨hcount, hascending, _, hmodel ?_ _ rfl⟩
  intro e he
  obtain ⟨numQubits, -, rfl⟩ := List.mem_map.1 he
  exact ⟨_, rfl⟩

end FeatureMask

end PathSelection
