import Mathlib.Data.List.Forall2
import PathSelection.Predictor
import PathSelection.Proofs.Json.Records
import PathSelection.Proofs.Storage.Edits

/-!
# Predictions of a loaded model

A model is checked once, when it is loaded: the nodes of the tree, the places
that the mask keeps, and the widths of the two.  What was checked is collected
as the validity of the tree and the fit of the mask, and these are all that a
prediction for any circuit needs.

Main results:

- Theorem `DecisionTree.validate_eq_ok_iff`: what the check of a tree means.
- Theorem `DecisionTree.Valid.exists_walk`: in a valid tree every walk from a
  node, with as many steps as there are nodes behind it, ends in a leaf.
- Theorem `Model.load_eq_ok_iff`: what a stored model must satisfy to be loaded.
- Theorem `Predictor.predict_of_load`: a loaded model has a path for every
  circuit.
-/

namespace PathSelection

/-! ## Trees -/

namespace DecisionTree

variable {α : Type} {t : DecisionTree α} {numLabels : Nat}

/-- A node at a place of a tree whose feature or label exists and whose children exist and come
after it. -/
def NodeFits (t : DecisionTree α) (numLabels place : Nat) : TreeNode α → Prop
  | .split feature _ left right =>
    feature < t.numFeatures ∧ place < left ∧ place < right ∧
      left < t.nodes.length ∧ right < t.nodes.length
  | .leaf label => label < numLabels

/-- A tree with nodes all of which fit. -/
structure Valid (t : DecisionTree α) (numLabels : Nat) : Prop where
  nonempty : 0 < t.nodes.length
  fits : ∀ place node, t.nodes[place]? = some node → t.NodeFits numLabels place node

private theorem nodeFault?_eq_none_iff {node : TreeNode α} {place : Nat} :
    t.nodeFault? numLabels (node, place) = none ↔ t.NodeFits numLabels place node := by
  cases node with
  | split feature threshold left right =>
    simp only [nodeFault?, NodeFits]
    split_ifs with hfeature hchildren
    · simp; omega
    · simp; omega
    · simp; omega
  | leaf label =>
    simp only [nodeFault?, NodeFits]
    split_ifs with hlabel
    · simp; omega
    · simp; omega

/-- The check of a tree means that it is valid. -/
theorem validate_eq_ok_iff : t.validate numLabels = .ok () ↔ t.Valid numLabels := by
  have hnodes : t.nodes.zipIdx.findSome? (t.nodeFault? numLabels) = none ↔
      ∀ place node, t.nodes[place]? = some node → t.NodeFits numLabels place node := by
    rw [List.findSome?_eq_none_iff]
    constructor
    · intro h place node hnode
      exact nodeFault?_eq_none_iff.1 (h (node, place) (List.mk_mem_zipIdx_iff_getElem?.2 hnode))
    · rintro h ⟨node, place⟩ hmem
      exact nodeFault?_eq_none_iff.2 (h place node (List.mk_mem_zipIdx_iff_getElem?.1 hmem))
  unfold validate
  split_ifs with hempty
  · have hlength : t.nodes.length = 0 := by simpa using hempty
    constructor
    · intro h
      cases h
    · intro hvalid
      exact absurd hvalid.nonempty (by omega)
  · have hlength : 0 < t.nodes.length := List.length_pos_iff.2 (by simpa using hempty)
    split
    · rename_i fault hfault
      constructor
      · intro h
        cases h
      · intro hvalid
        exact absurd (hnodes.2 hvalid.fits) (by simp [hfault])
    · rename_i hnone
      simpa using ⟨hlength, hnodes.1 hnone⟩

variable [Scalar α]

/-- The leaf to which the features lead from a node, where each split looks at a feature that is
there. -/
inductive Leads (t : DecisionTree α) (features : List α) : (place label : Nat) → Prop
  | leaf {place label : Nat} (here : t.nodes[place]? = some (.leaf label)) :
      Leads t features place label
  | split {place feature left right label : Nat} {threshold value : α}
      (here : t.nodes[place]? = some (.split feature threshold left right))
      (found : features[feature]? = some value)
      (onward : Leads t features (if Scalar.le value threshold then left else right) label) :
      Leads t features place label

/-- In a valid tree a walk that may take as many steps as there are nodes from its start on ends in
a leaf. -/
theorem Valid.exists_walk (hvalid : t.Valid numLabels) {features : List α}
    (hfeatures : features.length = t.numFeatures) {steps place : Nat}
    (hplace : place < t.nodes.length) (hsteps : t.nodes.length ≤ place + steps) :
    ∃ label, label < numLabels ∧ t.Leads features place label ∧
      t.walk features steps place = .ok label := by
  -- children come after their parents, so each step leaves fewer nodes ahead
  induction steps generalizing place with
  | zero => omega
  | succ steps ih =>
    have hnode : t.nodes[place]? = some t.nodes[place] := List.getElem?_eq_getElem hplace
    have hfits := hvalid.fits place _ hnode
    cases hkind : t.nodes[place] with
    | leaf label =>
      rw [hkind] at hnode hfits
      exact ⟨label, hfits, .leaf hnode, by simp only [walk, hnode]⟩
    | split feature threshold left right =>
      rw [hkind] at hnode hfits
      obtain ⟨hfeature, hleft, hright, hleft', hright'⟩ := hfits
      obtain ⟨value, hvalue⟩ : ∃ value, features[feature]? = some value :=
        ⟨_, List.getElem?_eq_getElem (by omega)⟩
      obtain ⟨next, hnext⟩ : ∃ next, next = if Scalar.le value threshold then left else right :=
        ⟨_, rfl⟩
      obtain ⟨label, hlabel, hleads, hwalk⟩ : ∃ label, label < numLabels ∧
          t.Leads features next label ∧ t.walk features steps next = .ok label :=
        ih (by rw [hnext]; split_ifs <;> omega) (by rw [hnext]; split_ifs <;> omega)
      subst hnext
      refine ⟨label, hlabel, .split hnode hvalue hleads, ?_⟩
      simpa only [walk, hnode, hvalue, Option.getD_some] using hwalk

/-- A valid tree has a label for features of its width. -/
theorem Valid.exists_predict (hvalid : t.Valid numLabels) {features : List α}
    (hfeatures : features.length = t.numFeatures) :
    ∃ label, label < numLabels ∧ t.Leads features 0 label ∧ t.predict features = .ok label := by
  obtain ⟨label, hlabel, hleads, hwalk⟩ :=
    hvalid.exists_walk hfeatures hvalid.nonempty (Nat.le_of_eq (Nat.zero_add _).symm)
  exact ⟨label, hlabel, hleads, by simp [predict, hfeatures, hwalk]⟩

end DecisionTree

/-! ## Masks -/

/-- Places at all of which there is a value select these values. -/
theorem FeatureVector.exists_select {α : Type} {v : FeatureVector α} {places : List Nat}
    (h : ∀ i ∈ places, i < v.size) :
    ∃ values, v.select places = some values ∧
      List.Forall₂ (fun i x => v.values[i]? = some x) places values := by
  induction places with
  | nil => exact ⟨[], rfl, .nil⟩
  | cons i places ih =>
    obtain ⟨values, hselect, hvalues⟩ := ih fun j hj => h j (List.mem_cons_of_mem i hj)
    have hi : v.values[i]? = some (v.values.get ⟨i, h i List.mem_cons_self⟩) :=
      List.getElem?_eq_getElem (h i List.mem_cons_self)
    refine ⟨_, ?_, .cons hi hvalues⟩
    unfold select at hselect ⊢
    rw [List.mapM_cons, hi, hselect]
    rfl

/-- A mask takes a vector of its width that has a value at each place. -/
theorem FeatureMask.exists_apply {α : Type} [Scalar α] {m : FeatureMask} {v : FeatureVector α}
    (hsize : v.size = m.featureCount) (hplaces : ∀ i ∈ m.indices, i < m.featureCount) :
    ∃ values, m.apply v = .ok values ∧
      List.Forall₂ (fun i x => v.values[i]? = some x) m.indices values := by
  obtain ⟨values, hselect, hvalues⟩ :=
    FeatureVector.exists_select (v := v) fun i hi => hsize.symm ▸ hplaces i hi
  refine ⟨values, ?_, hvalues⟩
  simp only [apply, hsize, hselect, ne_eq, not_true_eq_false, if_false]

/-- A mask over all features that keeps only places which exist. -/
structure FeatureMask.Fits (m : FeatureMask) : Prop where
  width : m.featureCount = PathSelection.featureCount
  places : ∀ i ∈ m.indices, i < PathSelection.featureCount

/-- A mask that fits keeps the features of a circuit at its places, in their order. -/
theorem FeatureMask.Fits.exists_apply {α : Type} [Scalar α] {m : FeatureMask} (h : m.Fits)
    (c : Circuit) :
    ∃ values : List α, m.apply (.ofCircuit c) = .ok values ∧
      List.Forall₂ (fun i x => (FeatureVector.ofCircuit c).values[i]? = some x)
        m.indices values :=
  FeatureMask.exists_apply ((FeatureVector.size_ofCircuit c).trans h.width.symm)
    fun i hi => h.width.symm ▸ h.places i hi

/-! ## Models -/

namespace Model

variable {α : Type} {tree : DecisionTree α} {mask : FeatureMask} {m : Model α}

/-- A model whose tree is valid, whose mask fits, and whose mask keeps as many features as the tree
looks at. -/
structure Valid (m : Model α) : Prop where
  tree : m.tree.Valid CompilationPath.count
  mask : m.mask.Fits
  width : m.mask.size = m.tree.numFeatures

private theorem fault?_eq_none_iff :
    fault? tree mask = none ↔ mask.Fits ∧ mask.size = tree.numFeatures := by
  unfold fault?
  split_ifs with hwidth hsize hplaces
  · simp only [false_iff]
    exact fun h => hwidth h.1.width
  · simp only [false_iff]
    exact fun h => hsize h.2
  · obtain ⟨i, hi, hle⟩ := List.any_eq_true.1 hplaces
    simp only [false_iff]
    intro h
    have hlt := h.1.places i hi
    have hwide := of_decide_eq_true hle
    omega
  · simp only [true_iff]
    have hmask : mask.featureCount = featureCount := Decidable.not_not.1 hwidth
    refine ⟨⟨hmask, fun i hi => ?_⟩, Decidable.not_not.1 hsize⟩
    have hnot : ¬ mask.featureCount ≤ i := fun hle =>
      hplaces (List.any_eq_true.2 ⟨i, hi, decide_eq_true hle⟩)
    omega

/-- A model is made of a tree and a mask that fit together. -/
theorem ofParts_eq_ok_iff :
    ofParts tree mask = .ok m ↔ m = ⟨tree, mask⟩ ∧ mask.Fits ∧ mask.size = tree.numFeatures := by
  rw [← fault?_eq_none_iff]
  unfold ofParts
  cases fault? tree mask with
  | some e => simp
  | none => simpa using eq_comm

variable [Scalar α] {storage : Storage} {directory : String}

/-- A file whose text is that of a document holds the value of the document. -/
theorem readDocument_eq_ok {β : Type} {decoder : Json.Decoder β} {path text : String} {b : β}
    (hread : storage.read path = .ok text) (hparse : Json.parse decoder text = .ok b) :
    readDocument storage path decoder = .ok b := by
  simp only [readDocument, hread, hparse, Except.mapError, bind, Except.bind]

/-- A model is loaded exactly if both files are there and hold a tree and a mask which together are
a valid model. -/
theorem load_eq_ok_iff :
    load storage directory = .ok m ↔ isStored storage directory = true ∧
      readDocument storage (classifierPath directory) DecisionTree.decoder = .ok m.tree ∧
      readDocument storage (maskPath directory) FeatureMask.decoder = .ok m.mask ∧ m.Valid := by
  unfold load
  cases hstored : isStored storage directory with
  | false => simp [bind, Except.bind, throw, throwThe, MonadExceptOf.throw]
  | true =>
    cases htree : readDocument storage (classifierPath directory)
        (DecisionTree.decoder : Json.Decoder (DecisionTree α)) with
    | error e => simp [bind, Except.bind]
    | ok tree =>
      cases hmask : readDocument storage (maskPath directory) FeatureMask.decoder with
      | error e => simp [bind, Except.bind]
      | ok mask =>
        cases hvalid : tree.validate CompilationPath.count with
        | error e =>
          simp only [bind, Except.bind, hvalid, reduceCtorEq, Except.ok.injEq,
            Bool.not_true, Bool.false_eq_true, if_false, true_and, false_iff]
          rintro ⟨rfl, -, h⟩
          simp [DecisionTree.validate_eq_ok_iff.2 h.tree] at hvalid
        | ok _ =>
          have htree' := DecisionTree.validate_eq_ok_iff.1 hvalid
          simp only [bind, Except.bind, hvalid, Except.ok.injEq, Bool.not_true,
            Bool.false_eq_true, if_false, true_and, ofParts_eq_ok_iff]
          constructor
          · rintro ⟨rfl, hfits, hwidth⟩
            exact ⟨rfl, rfl, htree', hfits, hwidth⟩
          · rintro ⟨rfl, rfl, h⟩
            exact ⟨rfl, h.mask, h.width⟩

/-- A valid model keeps as many features of every circuit as its tree looks at, and they lead to a
label of a path. -/
theorem Valid.exists_predict (h : m.Valid) (c : Circuit) :
    ∃ values label, m.mask.apply (.ofCircuit c) = .ok values ∧
      List.Forall₂ (fun i x => (FeatureVector.ofCircuit c).values[i]? = some x)
        m.mask.indices values ∧
      values.length = m.tree.numFeatures ∧ label < CompilationPath.count ∧
      m.tree.Leads values 0 label ∧ m.predict (.ofCircuit c) = .ok label := by
  obtain ⟨values, happly, hvalues⟩ := h.mask.exists_apply (α := α) c
  have hlength : values.length = m.tree.numFeatures := hvalues.length_eq.symm.trans h.width
  obtain ⟨label, hlabel, hleads, hpredict⟩ := h.tree.exists_predict hlength
  refine ⟨values, label, happly, hvalues, hlength, hlabel, hleads, ?_⟩
  simp only [predict, happly, bind, Except.bind, hpredict]

end Model

/-! ## Predictors -/

namespace Predictor

variable {α : Type} [Scalar α] {p : Predictor} {s : PredictorState α} {m : Model α}

/-- A predictor that holds a model, or can load it, works with that model and holds
it afterwards. -/
theorem load_eq_ok (h : s.model = some m ∨
    s.model = none ∧ Model.load s.session.storage p.directory = .ok m) :
    p.load s = .ok m { s with model := some m } := by
  rcases h with hheld | ⟨hnone, hload⟩
  · cases s with
    | mk session model =>
      obtain rfl : model = some m := hheld
      rfl
  · simp only [load, hnone, install, hload]

/-- A prediction is the path of the label that the loaded model gives. -/
theorem predict_eq_ok {c : Circuit} {label : Nat} {path : CompilationPath}
    {s' : PredictorState α} (hload : p.load s = .ok m s')
    (hlabel : m.predict (.ofCircuit c) = .ok label)
    (hpath : CompilationPath.catalog[label]? = some path) : p.predict c s = .ok path s' := by
  simp only [predict, bind, EStateM.bind, hload, hlabel, Selecting.predicting, Selecting.ofExcept,
    pure, EStateM.pure, CompilationPath.ofIndex, hpath]

/-- A model that loads has a path for every circuit: the mask keeps the features at its places,
which are as many as the tree looks at, the walk leads to a leaf, and the label of the leaf is that
of a path in the catalog.  A predictor that holds the model, or has yet to load it, predicts this
path and only comes to hold the model. -/
theorem predict_of_load {storage : Storage} {directory : String}
    (hload : Model.load storage directory = .ok m) (c : Circuit) :
    ∃ values label path, m.mask.apply (.ofCircuit c) = .ok values ∧
      List.Forall₂ (fun i x => (FeatureVector.ofCircuit c).values[i]? = some x)
        m.mask.indices values ∧
      values.length = m.tree.numFeatures ∧ m.tree.Leads values 0 label ∧
      m.predict (.ofCircuit c) = .ok label ∧ CompilationPath.catalog[label]? = some path ∧
      ∀ (p : Predictor) (s : PredictorState α),
        s.model = some m ∨
          s.model = none ∧ s.session.storage = storage ∧ p.directory = directory →
        p.predict c s = .ok path { s with model := some m } := by
  obtain ⟨-, -, -, hvalid⟩ := Model.load_eq_ok_iff.1 hload
  obtain ⟨values, label, happly, hvalues, hlength, hlabel, hleads, hpredict⟩ :=
    hvalid.exists_predict c
  obtain ⟨path, hpath⟩ : ∃ path, CompilationPath.catalog[label]? = some path :=
    ⟨_, List.getElem?_eq_getElem hlabel⟩
  refine ⟨values, label, path, happly, hvalues, hlength, hleads, hpredict, hpath, ?_⟩
  rintro p s (hheld | ⟨hnone, rfl, rfl⟩)
  · exact predict_eq_ok (load_eq_ok (.inl hheld)) hpredict hpath
  · exact predict_eq_ok (load_eq_ok (.inr ⟨hnone, hload⟩)) hpredict hpath

/-- The storage in which the files of a model hold these texts. -/
def storageOf (classifier mask : String) : Storage :=
  ⟨"/", [(["models"], .directory), (["models", Model.classifierFile], .file classifier),
    (["models", Model.maskFile], .file mask)]⟩

/-- A model that looks at the number of qubits, and whose mask keeps the depth twice. -/
def splitModel : Model Float :=
  ⟨⟨3, [.split 1 0.5 1 2, .leaf 3, .leaf 18]⟩, ⟨featureCount, [43, 42, 43]⟩⟩

/-- The directory of a storage with a model in it is open. -/
theorem opens_storageOf (classifier mask : String) :
    (storageOf classifier mask).Opens "models" ["models"] := by
  refine ⟨["models"], ?_, ?_, rfl⟩
  · change (Storage.empty "/").below? "models" = some ["models"]
    decide
  · rw [Storage.follow_cons_eq_ok_iff]
    exact ⟨rfl, fun _ => by decide, rfl⟩

private theorem load_splitModel :
    Model.load (storageOf splitModel.tree.toJson.indentedText
      splitModel.mask.toJson.indentedText) "models" = .ok splitModel := by
  have hplain : PathName.IsPlain Model.classifierFile := by unfold PathName.IsPlain; decide
  have hplain' : PathName.IsPlain Model.maskFile := by unfold PathName.IsPlain; decide
  have hhome : PathName.isAbsolute "/" = true := by decide
  have hclassifier (classifier mask : String) :
      (storageOf classifier mask).locate (Model.classifierPath "models") =
        .ok ["models", Model.classifierFile] := by
    rw [Model.classifierPath, Storage.locate_join (opens_storageOf classifier mask) hplain hhome]
    rfl
  have hmask (classifier mask : String) :
      (storageOf classifier mask).locate (Model.maskPath "models") =
        .ok ["models", Model.maskFile] := by
    rw [Model.maskPath, Storage.locate_join (opens_storageOf classifier mask) hplain' hhome]
    rfl
  have hentry (classifier mask : String) : (storageOf classifier mask).entryAt?
      ["models", Model.classifierFile] = some (.file classifier) := rfl
  have hentry' (classifier mask : String) : (storageOf classifier mask).entryAt?
      ["models", Model.maskFile] = some (.file mask) := rfl
  have hnames : PathName.namesDirectory (Model.classifierPath "models") = false := by decide
  have hnames' : PathName.namesDirectory (Model.maskPath "models") = false := by decide
  have htree : DecisionTree.decoder splitModel.tree.toJson = .ok splitModel.tree := by
    with_unfolding_all rfl
  have hkept : FeatureMask.decoder splitModel.mask.toJson = .ok splitModel.mask := rfl
  refine Model.load_eq_ok_iff.2 ⟨?_, ?_, ?_, ?_⟩
  · simp [Model.isStored, Model.isThere, Storage.exists?, hclassifier, hmask, hentry, hentry',
      hnames, hnames']
  · exact Model.readDocument_eq_ok (Storage.read_eq_ok_iff.2 ⟨_, hclassifier _ _, hentry _ _, hnames⟩)
      ((Json.parse_indentedText _).trans htree)
  · exact Model.readDocument_eq_ok (Storage.read_eq_ok_iff.2 ⟨_, hmask _ _, hentry' _ _, hnames'⟩)
      ((Json.parse_indentedText _).trans hkept)
  · exact ⟨DecisionTree.validate_eq_ok_iff.1 rfl, ⟨rfl, by decide⟩, rfl⟩

/-- This model has a path for every circuit, although its mask is out of order. -/
theorem predict_of_load_splitModel :
    ∃ storage, Model.load storage "models" = .ok splitModel ∧
      ∀ c, ∃ path ∈ CompilationPath.catalog, ∀ (p : Predictor) (session : Session),
        session.storage = storage → p.directory = "models" →
        p.predict c (.unloaded session) = .ok path ⟨session, some splitModel⟩ := by
  refine ⟨_, load_splitModel, fun c => ?_⟩
  obtain ⟨_, _, path, -, -, -, -, -, hpath, hpredict⟩ := predict_of_load load_splitModel c
  exact ⟨path, List.mem_of_getElem? hpath, fun p session hstorage hdirectory =>
    hpredict p (.unloaded session) (.inr ⟨rfl, hstorage, hdirectory⟩)⟩

end Predictor

end PathSelection
