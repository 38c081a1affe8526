import PathSelection.Proofs.Generation.Storing
import PathSelection.Proofs.Json.Choices
import PathSelection.Proofs.Model.Prediction
import PathSelection.Proofs.Storage.Parents

/-!
# Models that are saved and loaded

A tree and a mask are written into two files of a directory, whatever the directory held
before.  What is loaded afterwards is this tree with this mask, if the checks let them pass.

- Definitions `DecisionTree.Writable` and `FeatureMask.Writable`: what documents can hold.

Main results:

- Theorem `DecisionTree.decoder_toJson`: a tree with finite thresholds is read back.
- Theorem `Model.exists_save`: what saving a model changes in a directory.
- Theorem `Model.load_of_saved`: what is loaded depends on what was saved only.
- Theorem `Model.load_eq_notTrained_iff`: when a directory holds no model.
- Theorem `Model.load_of_save`: saved models load back.
-/

namespace PathSelection

/-! ## Trees and masks that are read back -/

/-- A node whose numbers are words and whose threshold is finite. -/
def TreeNode.Writable : TreeNode Float → Prop
  | .split feature threshold left right =>
    feature < wordValues 64 ∧ Float.finite threshold = true ∧ left < wordValues 64 ∧
      right < wordValues 64
  | .leaf label => label < wordValues 64

/-- A tree that a document can hold. -/
structure DecisionTree.Writable (tree : DecisionTree Float) : Prop where
  numFeatures : tree.numFeatures < wordValues 64
  nodes : ∀ node ∈ tree.nodes, node.Writable

/-- A mask that a document can hold. -/
structure FeatureMask.Writable (mask : FeatureMask) : Prop where
  featureCount : mask.featureCount < wordValues 64
  indices : ∀ i ∈ mask.indices, i < wordValues 64

namespace DecisionTree

/-- The document of a split starts with its tag, and no other field is at fault. -/
theorem exists_splitRecord {feature left right : Nat} {threshold : Float} {levels : Nat}
    (h : (TreeNode.split feature threshold left right).Writable) :
    ∃ fields, nodeToJson (.split feature threshold left right) =
        .record (("type", .text "split") :: fields) ∧
      (nodeChoice (α := Float)).PlainFields levels fields ∧ (fields.map (·.1)).Nodup ∧
      fields.lookup "feature" = some (.nat feature) ∧
      fields.lookup "threshold" = some (.scalar threshold) ∧
      fields.lookup "left" = some (.nat left) ∧ fields.lookup "right" = some (.nat right) := by
  obtain ⟨hfeature, hthreshold, hleft, hright⟩ := h
  refine ⟨_, rfl, ?_, by simp, rfl, rfl, rfl, rfl⟩
  simp only [Json.Tagged.PlainFields, List.forall_mem_cons]
  exact ⟨⟨by decide, Json.written_nat hfeature⟩, ⟨by decide, Json.written_scalar hthreshold⟩,
    ⟨by decide, Json.written_nat hleft⟩, ⟨by decide, Json.written_nat hright⟩, by simp⟩

/-- The document of a leaf starts with its tag, and its other field is not at fault. -/
theorem exists_leafRecord {label levels : Nat} (h : label < wordValues 64) :
    ∃ fields, nodeToJson (.leaf label : TreeNode Float) =
        .record (("type", .text "leaf") :: fields) ∧
      (nodeChoice (α := Float)).PlainFields levels fields ∧ (fields.map (·.1)).Nodup ∧
      fields.lookup "label" = some (.nat label) := by
  refine ⟨_, rfl, ?_, by simp, rfl⟩
  simp only [Json.Tagged.PlainFields, List.forall_mem_cons]
  exact ⟨⟨by decide, Json.written_nat h⟩, by simp⟩

/-- A node is read back. -/
theorem taggedOf_nodeToJson {node : TreeNode Float} (h : node.Writable) :
    Json.taggedOf nodeChoice 2 (nodeToJson node) = .ok node := by
  cases node with
  | split feature threshold left right =>
    obtain ⟨fields, hrecord, hplain, hnodup, hfeature, hthreshold, hleft, hright⟩ :=
      exists_splitRecord h
    rw [hrecord]
    refine (Json.taggedOf_record_eq_ok_iff rfl hplain).2 (Json.Fields.read_seq₄_eq_ok_iff.2
      ⟨feature, threshold, left, right, ?_, ?_, ?_, ?_, rfl⟩)
    · exact (Json.Fields.read_field_written_eq_ok_iff hnodup hfeature).2
        (Json.Decoder.usize_nat h.1)
    · exact (Json.Fields.read_field_written_eq_ok_iff hnodup hthreshold).2
        (Json.Decoder.number_scalar_eq_ok_iff.2 ⟨h.2.1, rfl⟩)
    · exact (Json.Fields.read_field_written_eq_ok_iff hnodup hleft).2
        (Json.Decoder.usize_nat h.2.2.1)
    · exact (Json.Fields.read_field_written_eq_ok_iff hnodup hright).2
        (Json.Decoder.usize_nat h.2.2.2)
  | leaf label =>
    obtain ⟨fields, hrecord, hplain, hnodup, hlabel⟩ := exists_leafRecord h
    rw [hrecord]
    refine (Json.taggedOf_record_eq_ok_iff rfl hplain).2
      (Json.Fields.read_map_eq_ok_iff.2 ⟨label, ?_, rfl⟩)
    exact (Json.Fields.read_field_written_eq_ok_iff hnodup hlabel).2 (Json.Decoder.usize_nat h)

private theorem exists_record {α : Type} [Scalar α] (tree : DecisionTree α) :
    ∃ fields, tree.toJson = .record fields ∧ (fields.map (·.1)).Nodup ∧
      fields.lookup "num_features" = some (.nat tree.numFeatures) ∧
      fields.lookup "nodes" = some (.list nodeToJson tree.nodes) :=
  ⟨_, rfl, by simp, rfl, rfl⟩

/-- A tree with finite thresholds is read back. -/
theorem decoder_toJson {tree : DecisionTree Float} (h : tree.Writable) :
    decoder tree.toJson = .ok tree := by
  obtain ⟨fields, hfields, hnodup, hnumFeatures, hnodes⟩ := tree.exists_record
  rw [hfields]
  refine Json.recordOf_record_eq_ok_iff.2 (Json.Fields.read_seq_eq_ok_iff.2
    ⟨_, Json.Fields.read_map_eq_ok_iff.2 ⟨tree.numFeatures, ?_, rfl⟩, tree.nodes, ?_, rfl⟩)
  · exact (Json.Fields.read_field_written_eq_ok_iff hnodup hnumFeatures).2
      (Json.Decoder.usize_nat h.numFeatures)
  · refine (Json.Fields.read_field_written_eq_ok_iff hnodup hnodes).2 ?_
    rw [Json.Decoder.listOf_list_eq_ok_iff, List.forall₂_same]
    exact fun node hnode => taggedOf_nodeToJson (h.nodes node hnode)

end DecisionTree

namespace FeatureMask

private theorem exists_record (mask : FeatureMask) :
    ∃ fields, mask.toJson = .record fields ∧ (fields.map (·.1)).Nodup ∧
      fields.lookup "feature_len" = some (.nat mask.featureCount) ∧
      fields.lookup "indices" = some (.list .nat mask.indices) :=
  ⟨_, rfl, by simp, rfl, rfl⟩

/-- A mask is read back. -/
theorem decoder_toJson {mask : FeatureMask} (h : mask.Writable) :
    decoder mask.toJson = .ok mask := by
  obtain ⟨fields, hfields, hnodup, hfeatureCount, hindices⟩ := mask.exists_record
  rw [hfields]
  refine Json.recordOf_record_eq_ok_iff.2 (Json.Fields.read_seq_eq_ok_iff.2
    ⟨_, Json.Fields.read_map_eq_ok_iff.2 ⟨mask.featureCount, ?_, rfl⟩, mask.indices, ?_, rfl⟩)
  · exact (Json.Fields.read_field_written_eq_ok_iff hnodup hfeatureCount).2
      (Json.Decoder.usize_nat h.featureCount)
  · refine (Json.Fields.read_field_written_eq_ok_iff hnodup hindices).2 ?_
    rw [Json.Decoder.listOf_list_eq_ok_iff, List.forall₂_same]
    exact fun i hi => Json.Decoder.usize_nat (h.indices i hi)

end FeatureMask

namespace Model

variable {s t made : Storage} {directory path text : String}

/-! ## The two files -/

private theorem isPlain_classifierFile : PathName.IsPlain classifierFile :=
  PathName.isPlain_of_length (by decide) (by decide)

private theorem isPlain_maskFile : PathName.IsPlain maskFile :=
  PathName.isPlain_of_length (by decide) (by decide)

private theorem isPlain_draft {name : String} (h : PathName.IsPlain name) :
    PathName.IsPlain (draft name) :=
  PathName.isPlain_of_length (by simpa [draft] using h.1) (by simp [draft])

/-- The draft of a file stands beside it. -/
theorem draft_join {name : String} (h : PathName.IsPlain name) :
    draft (PathName.join directory name) = PathName.join directory (draft name) := by
  have hhead : (draft name).toList.head? = name.toList.head? := by
    have hne : name.toList ≠ [] := by simpa using h.2.1
    rw [draft, String.toList_append, List.head?_append_of_ne_nil _ hne]
  have habsolute : PathName.isAbsolute (draft name) = PathName.isAbsolute name := by
    simp only [PathName.isAbsolute, hhead]
  unfold PathName.join
  rw [habsolute]
  split_ifs <;> simp only [draft, String.append_assoc]

/-! ## Saving -/

/-- The texts in a directory after one of them was replaced. -/
def withText (texts : String → Option String) (name text other : String) : Option String :=
  if other = name then some text else if other = draft name then none else texts other

/-- In a directory of files a text is put by way of the draft beside its file. -/
theorem exists_put {texts : String → Option String} {name : String} (h : s.Contents directory texts)
    (hname : PathName.IsPlain name) (hshort : (draft name).utf8ByteSize ≤ Storage.nameLimit)
    (text : String) :
    ∃ t, s.replace (draft (PathName.join directory name)) (PathName.join directory name) text =
        (.ok (), t) ∧ t.Contents directory (withText texts name text) := by
  have hlonger : (draft name).utf8ByteSize = name.utf8ByteSize + 4 := by
    rw [draft, String.utf8ByteSize_append]
    rfl
  have hne : draft name ≠ name := by
    intro heq
    rw [heq] at hlonger
    omega
  rw [draft_join hname]
  exact h.exists_replace hname (isPlain_draft hname) hne (by omega) hshort text

/-- The texts in a directory after a model was saved. -/
def savedTexts {α : Type} [Scalar α] (texts : String → Option String) (tree : DecisionTree α)
    (mask : FeatureMask) : String → Option String :=
  withText (withText texts maskFile mask.toJson.indentedText) classifierFile
    tree.toJson.indentedText

section

variable {α : Type} [Scalar α] {tree : DecisionTree α} {mask : FeatureMask}

private theorem save_eq_ok_iff :
    save s directory tree mask = (.ok (), t) ↔
      ∃ made masked, s.createDirectories directory = .ok made ∧
        made.replace (draft (maskPath directory)) (maskPath directory) mask.toJson.indentedText =
          (.ok (), masked) ∧
        masked.replace (draft (classifierPath directory)) (classifierPath directory)
          tree.toJson.indentedText = (.ok (), t) := by
  unfold save
  cases s.createDirectories directory with
  | error fault => simp
  | ok made =>
    rcases hmask : made.replace (draft (maskPath directory)) (maskPath directory)
      mask.toJson.indentedText with ⟨result, masked⟩
    cases result with
    | error fault => simp [hmask]
    | ok done =>
      rcases htree : masked.replace (draft (classifierPath directory)) (classifierPath directory)
        tree.toJson.indentedText with ⟨result, stored⟩
      cases result <;> simp [hmask, htree, Except.mapError]

/-- A model can be saved in a directory of files that is there or can be made.  Nothing but its two
files changes, and no draft is left. -/
theorem exists_save {texts : String → Option String}
    (hmade : s.createDirectories directory = .ok made) (h : made.Contents directory texts) :
    ∃ t, save s directory tree mask = (.ok (), t) ∧
      t.Contents directory (savedTexts texts tree mask) := by
  obtain ⟨masked, hmask, hcontents⟩ :=
    exists_put h isPlain_maskFile (by decide) mask.toJson.indentedText
  obtain ⟨t, htree, hcontents'⟩ :=
    exists_put hcontents isPlain_classifierFile (by decide) tree.toJson.indentedText
  exact ⟨t, save_eq_ok_iff.2 ⟨made, masked, hmade, hmask, htree⟩, hcontents'⟩

/-- After a model was saved its two files have its texts. -/
theorem read_of_save (h : save s directory tree mask = (.ok (), t)) :
    t.read (classifierPath directory) = .ok tree.toJson.indentedText ∧
      t.read (maskPath directory) = .ok mask.toJson.indentedText := by
  obtain ⟨made, masked, -, hmask, htree⟩ := save_eq_ok_iff.1 h
  refine ⟨Storage.read_of_replace htree, ?_⟩
  have hdraft : PathName.components (draft (classifierPath directory)) =
      PathName.components directory ++ [draft classifierFile] := by
    rw [classifierPath, draft_join isPlain_classifierFile,
      PathName.components_join (isPlain_draft isPlain_classifierFile)]
  have hsame : Storage.SameText (maskPath directory) masked (masked.replace
      (draft (classifierPath directory)) (classifierPath directory) tree.toJson.indentedText).2 :=
    Storage.sameText_replace (PathName.components_join isPlain_maskFile) (by decide)
      ⟨_, _, hdraft, by decide, by decide⟩
      ⟨_, _, PathName.components_join isPlain_classifierFile, by decide, by decide⟩ masked _
  rw [htree] at hsame
  exact hsame.read_eq_ok (Storage.read_of_replace hmask)

private theorem isThere_eq_true_iff (hnames : PathName.namesDirectory path = false) :
    isThere s path = true ↔ s.lookup? path ≠ none := by
  unfold isThere Storage.exists? Storage.lookup?
  cases s.locate path with
  | error fault => cases fault <;> simp
  | ok l =>
    cases hentry : s.entryAt? l with
    | none => simp [hentry]
    | some e => cases e <;> simp [hentry, hnames]

/-- A model is stored where there is something under the names of both files. -/
theorem isStored_eq_true_iff :
    isStored s directory = true ↔
      s.lookup? (classifierPath directory) ≠ none ∧ s.lookup? (maskPath directory) ≠ none := by
  rw [isStored, Bool.and_eq_true, classifierPath, maskPath,
    isThere_eq_true_iff (PathName.namesDirectory_join isPlain_classifierFile directory),
    isThere_eq_true_iff (PathName.namesDirectory_join isPlain_maskFile directory)]

private theorem lookup?_ne_none_of_read (h : s.read path = .ok text) : s.lookup? path ≠ none := by
  obtain ⟨l, hlocate, hentry, hnames⟩ := Storage.read_eq_ok_iff.1 h
  simp [Storage.lookup?, hlocate, hentry, hnames]

end

/-- What is loaded depends on what was saved only: the tree is checked, then whether it agrees with
the mask. -/
theorem load_of_saved {tree : DecisionTree Float} {mask : FeatureMask} (htree : tree.Writable)
    (hmask : mask.Writable) (h : save s directory tree mask = (.ok (), t)) :
    load t directory = (do tree.validate CompilationPath.count; ofParts tree mask) := by
  obtain ⟨hclassifier, hkept⟩ := read_of_save h
  have hstored : isStored t directory = true :=
    isStored_eq_true_iff.2 ⟨lookup?_ne_none_of_read hclassifier, lookup?_ne_none_of_read hkept⟩
  have htree' : readDocument t (classifierPath directory) DecisionTree.decoder = .ok tree :=
    readDocument_eq_ok hclassifier
      ((Json.parse_indentedText _).trans (DecisionTree.decoder_toJson htree))
  have hmask' : readDocument t (maskPath directory) FeatureMask.decoder = .ok mask :=
    readDocument_eq_ok hkept ((Json.parse_indentedText _).trans (FeatureMask.decoder_toJson hmask))
  simp only [load, hstored, htree', hmask', Bool.not_true, Bool.false_eq_true, if_false, bind,
    Except.bind]

/-! ## Directories without a model -/

section

variable {α : Type} {tree : DecisionTree α} {mask : FeatureMask} {d : String}

private theorem validate_ne_notTrained {numLabels : Nat} :
    tree.validate numLabels ≠ .error (.notTrained d) := by
  unfold DecisionTree.validate
  split_ifs
  · simp
  · split <;> simp

private theorem ofParts_ne_notTrained : ofParts tree mask ≠ .error (.notTrained d) := by
  unfold ofParts fault?
  split_ifs <;> simp

private theorem readDocument_ne_notTrained {decoder : Json.Decoder α} :
    readDocument s path decoder ≠ .error (.notTrained d) := by
  unfold readDocument
  cases s.read path with
  | error fault => simp [Except.mapError, bind, Except.bind]
  | ok text =>
    cases hparse : Json.parse decoder text <;> simp [hparse, Except.mapError, bind, Except.bind]

/-- There is no model to load exactly if one of its two files is absent. -/
theorem load_eq_notTrained_iff [Scalar α] :
    (load s directory : Except SelectionError (Model α)) = .error (.notTrained d) ↔
      d = directory ∧
        (s.lookup? (classifierPath directory) = none ∨ s.lookup? (maskPath directory) = none) := by
  have hstored : isStored s directory = false ↔
      s.lookup? (classifierPath directory) = none ∨ s.lookup? (maskPath directory) = none := by
    rw [← Bool.not_eq_true, isStored_eq_true_iff, not_and_or, not_not, not_not]
  rw [← hstored]
  unfold load
  cases isStored s directory with
  | false => simp [throw, throwThe, MonadExceptOf.throw, bind, Except.bind, eq_comm]
  | true =>
    simp only [Bool.not_true, Bool.false_eq_true, if_false, reduceCtorEq, and_false, iff_false]
    exact bind_ne_error readDocument_ne_notTrained fun tree =>
      bind_ne_error readDocument_ne_notTrained fun mask =>
        bind_ne_error validate_ne_notTrained fun _ => ofParts_ne_notTrained

end

/-! ## Saved models load back -/

/-- Saved models load back.  In a directory of files that is there or can be made, any tree and mask
can be saved.  After a tree with finite thresholds and a mask were saved, whatever was there before,
a model is loaded exactly if the tree is valid and agrees with the mask; it is the model of this
tree and this mask, so that its label for any features is that of the tree for the features that the
mask keeps.  That there is no trained model is said exactly where one of the two files is absent. -/
theorem load_of_save {tree : DecisionTree Float} {mask : FeatureMask} (htree : tree.Writable)
    (hmask : mask.Writable) (directory : String) :
    (∀ (s made : Storage) (texts : String → Option String),
      s.createDirectories directory = .ok made → made.Contents directory texts →
        ∃ t, save s directory tree mask = (.ok (), t) ∧
          t.Contents directory (savedTexts texts tree mask)) ∧
    (∀ s t : Storage, save s directory tree mask = (.ok (), t) →
      load t directory = (do tree.validate CompilationPath.count; ofParts tree mask) ∧
      ((∃ m : Model Float, load t directory = .ok m) ↔
        tree.validate CompilationPath.count = .ok () ∧ ∃ m, ofParts tree mask = .ok m) ∧
      ∀ m : Model Float, load t directory = .ok m →
        ∀ v, m.predict v = (do tree.predict (← mask.apply v))) ∧
    (∀ (s : Storage) (d : String),
      (load s directory : Except SelectionError (Model Float)) = .error (.notTrained d) ↔
        d = directory ∧
          (s.lookup? (classifierPath directory) = none ∨ s.lookup? (maskPath directory) = none)) ∧
    ∀ (s : Storage) (texts : String → Option String), s.Contents directory texts →
      ((load s directory : Except SelectionError (Model Float)) = .error (.notTrained directory) ↔
        texts classifierFile = none ∨ texts maskFile = none) := by
  refine ⟨fun s made texts hmade hcontents => exists_save hmade hcontents, fun s t hsave => ?_,
    fun s d => load_eq_notTrained_iff, fun s texts hcontents => ?_⟩
  · have hload := load_of_saved htree hmask hsave
    have hok (m : Model Float) : load t directory = .ok m ↔
        tree.validate CompilationPath.count = .ok () ∧ ofParts tree mask = .ok m := by
      rw [hload]
      cases tree.validate CompilationPath.count <;> simp [bind, Except.bind]
    refine ⟨hload, by simp only [hok, exists_and_left], fun m hm v => ?_⟩
    obtain ⟨rfl, -⟩ := ofParts_eq_ok_iff.1 ((hok m).1 hm).2
    rfl
  · rw [load_eq_notTrained_iff, classifierPath, maskPath,
      hcontents.lookup?_join isPlain_classifierFile (by decide),
      hcontents.lookup?_join isPlain_maskFile (by decide)]
    simp

private theorem contents_storageOf (classifier mask : String) :
    (Predictor.storageOf classifier mask).Contents "models" fun name =>
      if name = classifierFile then some classifier
      else if name = maskFile then some mask else none := by
  have hhome : PathName.isAbsolute "/" = true := by decide
  refine ⟨hhome, ["models"], Predictor.opens_storageOf _ _, fun name => ?_⟩
  simp only [Predictor.storageOf, Storage.entryAt?, List.lookup]
  by_cases hclassifier : name = classifierFile
  · simp [hclassifier]
  · have hother := beq_false_of_ne hclassifier
    by_cases hmask : name = maskFile
    · subst hmask
      simp [hclassifier, hother]
    · simp [hclassifier, hmask, hother, beq_false_of_ne hmask]

/-- A model that takes the place of two files which hold no model is loaded. -/
theorem load_of_save_splitModel :
    ∃ t, save (Predictor.storageOf "earlier" "text") "models" Predictor.splitModel.tree
        Predictor.splitModel.mask = (.ok (), t) ∧ load t "models" = .ok Predictor.splitModel := by
  have htree : Predictor.splitModel.tree.Writable := by
    refine ⟨by decide, fun node hnode => ?_⟩
    simp only [Predictor.splitModel, List.mem_cons, List.not_mem_nil, or_false] at hnode
    rcases hnode with rfl | rfl | rfl
    · exact ⟨by decide, rfl, by decide, by decide⟩
    · exact Nat.lt_of_lt_of_le (by decide : 3 < 2 ^ 5) (by decide)
    · exact Nat.lt_of_lt_of_le (by decide : 18 < 2 ^ 5) (by decide)
  have hmask : Predictor.splitModel.mask.Writable := ⟨by decide, by decide⟩
  obtain ⟨hsaves, hloads, -⟩ := load_of_save htree hmask "models"
  obtain ⟨t, hsave, -⟩ := hsaves _ _ _
    (Storage.createDirectories_of_opens (Predictor.opens_storageOf _ _)) (contents_storageOf _ _)
  exact ⟨t, hsave, (hloads _ t hsave).1.trans rfl⟩

end Model

end PathSelection
