import PathSelection.Config.File
import PathSelection.Proofs.Yaml.Fields

/-!
# Precedence of configuration layers

A field of a configuration may be set by a flag, by a variable of the
environment and by the file.  The fields are values of their own here, so that
one statement says for all of them what a layer says and what is left of it under
the next one.

Main results:

- Theorem `Config.value_overlay`: what one more layer makes of a field.
- Theorem `ConfigLayer.reads_of_ofNode`: what a document says about every field.
- Theorem `ConfigLayer.ofEnvironment_without`: a value that cannot be read
  counts as absent.
- Theorem `Config.resolve_precedence`: every field has the value of the highest
  layer that sets it.
-/

namespace PathSelection

open Yaml (Decoder Node field? field?_of_fields)

/-! ## Fields -/

/-- A field of a configuration. -/
inductive ConfigField where
  | corpus
  | compiled
  | calibration
  | model
  | dataset
  | timeout
  | scoring
  | countMode
  | qiskitProgram
  | qiskitArguments
  | tketProgram
  | tketArguments
  deriving DecidableEq, Repr

namespace ConfigField

/-- What a field holds. -/
abbrev Value : ConfigField → Type
  | corpus | compiled | calibration | model | dataset | qiskitProgram | tketProgram => String
  | timeout => Nat
  | scoring => ScoringPolicy
  | countMode => CountMode
  | qiskitArguments | tketArguments => List String

/-- The section of a file in which a field stands. -/
def sectionName : ConfigField → String
  | corpus | compiled | calibration | model | dataset => "paths"
  | timeout | scoring | countMode => "generation"
  | qiskitProgram | qiskitArguments | tketProgram | tketArguments => "toolchains"

/-- The keys that lead to a field inside its section. -/
def keys : ConfigField → List String
  | corpus => ["corpus_dir"]
  | compiled => ["compiled_dir"]
  | calibration => ["calibration_dir"]
  | model => ["model_dir"]
  | dataset => ["dataset_path"]
  | timeout => ["timeout_seconds"]
  | scoring => ["scoring"]
  | countMode => ["count_mode"]
  | qiskitProgram => ["qiskit", "program"]
  | qiskitArguments => ["qiskit", "args"]
  | tketProgram => ["tket", "program"]
  | tketArguments => ["tket", "args"]

/-- The keys that lead to a field from the root of a document. -/
def place (f : ConfigField) : List String := f.sectionName :: f.keys

/-- How a field is read from a document. -/
def decoder : (f : ConfigField) → Decoder f.Value
  | corpus | compiled | calibration | model | dataset | qiskitProgram | tketProgram => Decoder.text
  | timeout => Decoder.unsigned
  | scoring => Decoder.name ScoringPolicy.names
  | countMode => Decoder.name CountMode.names
  | qiskitArguments | tketArguments => Decoder.list Decoder.text

/-- The variable that sets a field. -/
def variableName? : ConfigField → Option String
  | corpus => some "QPATH_CORPUS_DIR"
  | compiled => some "QPATH_COMPILED_DIR"
  | calibration => some "QPATH_CALIBRATION_DIR"
  | model => some "QPATH_MODEL_DIR"
  | dataset => some "QPATH_DATASET"
  | timeout => some "QPATH_TIMEOUT"
  | scoring => some "QPATH_SCORING"
  | countMode => some "QPATH_COUNT_MODE"
  | qiskitProgram => some "QPATH_QISKIT_PROGRAM"
  | tketProgram => some "QPATH_TKET_PROGRAM"
  | qiskitArguments | tketArguments => none

/-- How a field is read from the text of its variable. -/
def parse? : (f : ConfigField) → String → Option f.Value
  | corpus | compiled | calibration | model | dataset | qiskitProgram | tketProgram => some
  | timeout => ConfigLayer.secondsOf?
  | scoring => ConfigLayer.scoringOf?
  | countMode => ConfigLayer.countModeOf?
  | qiskitArguments | tketArguments => fun _ => none

/-- What the variable of a field says, if it can be read. -/
def ofEnvironment? (f : ConfigField) (e : Environment) : Option f.Value :=
  (f.variableName?.bind e).bind f.parse?

end ConfigField

/-- What a layer says about a field. -/
def ConfigLayer.value? (l : ConfigLayer) : (f : ConfigField) → Option f.Value
  | .corpus => l.corpus
  | .compiled => l.compiled
  | .calibration => l.calibration
  | .model => l.model
  | .dataset => l.dataset
  | .timeout => l.timeout
  | .scoring => l.scoring
  | .countMode => l.countMode
  | .qiskitProgram => l.qiskitProgram
  | .qiskitArguments => l.qiskitArguments
  | .tketProgram => l.tketProgram
  | .tketArguments => l.tketArguments

/-- The value of a field. -/
def Config.value (c : Config) : (f : ConfigField) → f.Value
  | .corpus => c.corpus
  | .compiled => c.compiled
  | .calibration => c.calibration
  | .model => c.model
  | .dataset => c.dataset
  | .timeout => c.timeout
  | .scoring => c.scoring
  | .countMode => c.countMode
  | .qiskitProgram => c.qiskit.program
  | .qiskitArguments => c.qiskit.arguments
  | .tketProgram => c.tket.program
  | .tketArguments => c.tket.arguments

/-- What one more layer makes of a field. -/
theorem Config.value_overlay (c : Config) (l : ConfigLayer) (f : ConfigField) :
    (c.overlay l).value f = (l.value? f).getD (c.value f) := by
  cases f <;> rfl

/-- A layer is what it says about the fields. -/
theorem ConfigLayer.eq_of_value? {l l' : ConfigLayer} (h : ∀ f, l.value? f = l'.value? f) :
    l = l' := by
  obtain ⟨_, _, _, _, _, _, _, _, _, _, _, _⟩ := l
  obtain ⟨_, _, _, _, _, _, _, _, _, _, _, _⟩ := l'
  simp only [ConfigLayer.mk.injEq]
  exact ⟨h .corpus, h .compiled, h .calibration, h .model, h .dataset, h .timeout, h .scoring,
    h .countMode, h .qiskitProgram, h .qiskitArguments, h .tketProgram, h .tketArguments⟩

/-! ## Variables -/

namespace Environment

/-- The environment in which some variables are not set. -/
def without (e : Environment) (names : List String) : Environment := fun name =>
  if name ∈ names then none else e name

end Environment

namespace ConfigLayer

variable {e : Environment}

private theorem value?_ofEnvironment (e : Environment) (f : ConfigField) :
    (ofEnvironment e).value? f = f.ofEnvironment? e := by
  have hsome (name : String) : e name = (e name).bind some := (Option.bind_fun_some (e name)).symm
  cases f <;> first | rfl | exact hsome _

/-- Only these variables are reported, each once and in this order. -/
theorem rejected_sublist (e : Environment) :
    (rejected e).Sublist ["QPATH_TIMEOUT", "QPATH_SCORING", "QPATH_COUNT_MODE"] := by
  rw [rejected_eq]
  exact List.filter_sublist

private theorem isRejected_iff {β : Type} {read : String → Option β} {value : Option String} :
    isRejected read value = true ↔ ∃ text, value = some text ∧ read text = none := by
  cases value <;> simp [isRejected]

/-- A variable is reported if it has a value that cannot be read as that of its field. -/
theorem mem_rejected_iff {f : ConfigField} {name : String} (h : f.variableName? = some name) :
    name ∈ rejected e ↔ ∃ text, e name = some text ∧ f.parse? text = none := by
  cases f with
  | qiskitArguments | tketArguments => cases h
  | _ =>
    obtain rfl := Option.some.inj h
    simp [rejected_eq, isRejected_iff, ConfigField.parse?, timeoutVariable, scoringVariable,
      countModeVariable]

/-- A value that cannot be read counts as absent. -/
theorem ofEnvironment_without {names : List String} (h : names ⊆ rejected e) :
    ofEnvironment (e.without names) = ofEnvironment e := by
  refine eq_of_value? fun f => ?_
  simp only [value?_ofEnvironment, ConfigField.ofEnvironment?]
  cases hvariable : f.variableName? with
  | none => rfl
  | some name =>
    simp only [Option.bind_some, Environment.without]
    split_ifs with hmem
    · obtain ⟨text, htext, hparse⟩ := (mem_rejected_iff hvariable).1 (h hmem)
      simp [htext, hparse]
    · rfl

end ConfigLayer

/-! ## Documents -/

/-- The value that a document gives a field, by what stands at its place: that, if there is
something, and else the value of the configuration without any layer. -/
def ConfigField.Reads (f : ConfigField) (node? : Option Node) (value : f.Value) : Prop :=
  ∃ written, node?.mapM f.decoder = .ok written ∧ value = written.getD (Config.default.value f)

namespace ConfigLayer

/-- A reader of a section sets the fields of the section as the section has them, and no others. -/
def Fills (name : String) (read : ConfigLayer → Node → Except String ConfigLayer) : Prop :=
  ∀ ⦃l l' : ConfigLayer⦄ ⦃node : Node⦄, read l node = .ok l' → ∀ f : ConfigField,
    (f.sectionName = name ∧
        f.Reads (node.at? f.keys) ((l'.value? f).getD (Config.default.value f))) ∨
      (f.sectionName ≠ name ∧ l'.value? f = l.value? f)

private theorem fills_withPaths : Fills "paths" withPaths := by
  intro l l' node h f
  obtain ⟨fs, hfs, h⟩ := bind_eq_ok_iff.1 h
  obtain ⟨corpus, hcorpus, h⟩ := bind_eq_ok_iff.1 h
  obtain ⟨compiled, hcompiled, h⟩ := bind_eq_ok_iff.1 h
  obtain ⟨calibration, hcalibration, h⟩ := bind_eq_ok_iff.1 h
  obtain ⟨model, hmodel, h⟩ := bind_eq_ok_iff.1 h
  obtain ⟨dataset, hdataset, h⟩ := bind_eq_ok_iff.1 h
  obtain rfl := Except.ok.inj h
  rw [field?_of_fields hfs _ (by simp)] at hcorpus hcompiled hcalibration hmodel hdataset
  cases f with
  | corpus => exact .inl ⟨rfl, corpus, hcorpus, rfl⟩
  | compiled => exact .inl ⟨rfl, compiled, hcompiled, rfl⟩
  | calibration => exact .inl ⟨rfl, calibration, hcalibration, rfl⟩
  | model => exact .inl ⟨rfl, model, hmodel, rfl⟩
  | dataset => exact .inl ⟨rfl, dataset, hdataset, rfl⟩
  | _ => exact .inr ⟨by decide, rfl⟩

private theorem fills_withGeneration : Fills "generation" withGeneration := by
  intro l l' node h f
  obtain ⟨fs, hfs, h⟩ := bind_eq_ok_iff.1 h
  obtain ⟨timeout, htimeout, h⟩ := bind_eq_ok_iff.1 h
  obtain ⟨scoring, hscoring, h⟩ := bind_eq_ok_iff.1 h
  obtain ⟨countMode, hcountMode, h⟩ := bind_eq_ok_iff.1 h
  obtain rfl := Except.ok.inj h
  rw [field?_of_fields hfs _ (by simp)] at htimeout hscoring hcountMode
  cases f with
  | timeout => exact .inl ⟨rfl, timeout, htimeout, rfl⟩
  | scoring => exact .inl ⟨rfl, scoring, hscoring, rfl⟩
  | countMode => exact .inl ⟨rfl, countMode, hcountMode, rfl⟩
  | _ => exact .inr ⟨by decide, rfl⟩

/-- A command has a program, and the arguments that are written or else none. -/
theorem command_eq_ok {node : Node} {t : ToolchainCommand} (h : command node = .ok t) :
    (node.at? ["program"]).mapM Decoder.text = .ok (some t.program) ∧
      ∃ written, (node.at? ["args"]).mapM (Decoder.list Decoder.text) = .ok written ∧
        t.arguments = written.getD [] := by
  obtain ⟨fs, hfs, h⟩ := bind_eq_ok_iff.1 h
  obtain ⟨arguments, harguments, h⟩ := bind_eq_ok_iff.1 h
  obtain ⟨program, hprogram, h⟩ := bind_eq_ok_iff.1 h
  rw [field?_of_fields hfs _ (by simp)] at harguments hprogram
  cases program with
  | none => cases h
  | some program =>
    obtain rfl := Except.ok.inj h
    exact ⟨hprogram, arguments, harguments, rfl⟩

/-- What stands under the key of a command says of the command, if there is one. -/
theorem exists_written_command {node : Node} {key : String} {command? : Option ToolchainCommand}
    (h : (node.at? [key]).mapM command = .ok command?) :
    (node.at? [key, "program"]).mapM Decoder.text = .ok (command?.map (·.program)) ∧
      ∃ written, (node.at? [key, "args"]).mapM (Decoder.list Decoder.text) = .ok written ∧
        (command?.map (·.arguments)).getD [] = written.getD [] := by
  rw [Node.at?_singleton] at h
  cases hentry : node.entry? key with
  | none =>
    obtain rfl : none = command? := by simpa [hentry, pure, Except.pure] using h
    simp [Node.at?_cons, hentry, pure, Except.pure]
  | some n =>
    rw [hentry] at h
    obtain ⟨t, ht, h⟩ := bind_eq_ok_iff.1 h
    obtain rfl := Except.ok.inj h
    simpa [Node.at?_cons, hentry] using command_eq_ok ht

private theorem fills_withToolchains : Fills "toolchains" withToolchains := by
  intro l l' node h f
  obtain ⟨fs, hfs, h⟩ := bind_eq_ok_iff.1 h
  obtain ⟨qiskit, hqiskit, h⟩ := bind_eq_ok_iff.1 h
  obtain ⟨tket, htket, h⟩ := bind_eq_ok_iff.1 h
  obtain rfl := Except.ok.inj h
  rw [field?_of_fields hfs _ (by simp)] at hqiskit htket
  -- a command without arguments has none, and neither has that of the default
  obtain ⟨hqiskitProgram, hqiskitArguments⟩ := exists_written_command hqiskit
  obtain ⟨htketProgram, htketArguments⟩ := exists_written_command htket
  cases f with
  | qiskitProgram => exact .inl ⟨rfl, _, hqiskitProgram, rfl⟩
  | qiskitArguments => exact .inl ⟨rfl, hqiskitArguments⟩
  | tketProgram => exact .inl ⟨rfl, _, htketProgram, rfl⟩
  | tketArguments => exact .inl ⟨rfl, htketArguments⟩
  | _ => exact .inr ⟨by decide, rfl⟩

/-- A layer with what a section says, if it is there. -/
def withSection (read : ConfigLayer → Node → Except String ConfigLayer) (l : ConfigLayer)
    (section? : Option Node) : Except String ConfigLayer :=
  match section? with
  | some node => read l node
  | none => pure l

namespace Fills

variable {name : String} {read : ConfigLayer → Node → Except String ConfigLayer}
  {l l' : ConfigLayer} {section? : Option Node}

private theorem reads_withSection (hread : Fills name read)
    (h : withSection read l section? = .ok l')
    {f : ConfigField} (hf : f.sectionName = name) (hnone : l.value? f = none) :
    f.Reads (section?.bind fun n => n.at? f.keys)
      ((l'.value? f).getD (Config.default.value f)) := by
  cases section? with
  | some node =>
    obtain ⟨-, hreads⟩ := (hread h f).resolve_right fun hother => hother.1 hf
    exact hreads
  | none =>
    obtain rfl : l = l' := Except.ok.inj h
    exact ⟨none, rfl, by rw [hnone]⟩

private theorem value?_withSection (hread : Fills name read)
    (h : withSection read l section? = .ok l')
    {f : ConfigField} (hf : f.sectionName ≠ name) : l'.value? f = l.value? f := by
  cases section? with
  | some node =>
    obtain ⟨-, hkeeps⟩ := (hread h f).resolve_left fun hown => hf hown.1
    exact hkeeps
  | none =>
    obtain rfl : l = l' := Except.ok.inj h
    rfl

end Fills

/-- The sections of a document are read one after the other. -/
theorem ofNode_eq (node : Node) :
    ofNode node = (do
      let fs ← Decoder.fields sections node
      let l ← withSection withPaths {} (Dict.get? fs "paths")
      let l ← withSection withGeneration l (Dict.get? fs "generation")
      withSection withToolchains l (Dict.get? fs "toolchains")) := by
  unfold ofNode
  congr 1
  funext fs
  cases Dict.get? fs "paths" <;> cases Dict.get? fs "generation" <;> rfl

private theorem ofNode_eq_ok {node : Node} {l : ConfigLayer} (h : ofNode node = .ok l) :
    ∃ l₁ l₂, withSection withPaths {} (node.entry? "paths") = .ok l₁ ∧
      withSection withGeneration l₁ (node.entry? "generation") = .ok l₂ ∧
      withSection withToolchains l₂ (node.entry? "toolchains") = .ok l := by
  rw [ofNode_eq] at h
  obtain ⟨fs, hfs, h⟩ := bind_eq_ok_iff.1 h
  have hentry {key : String} (hkey : key ∈ sections) := Decoder.get?_of_fields hfs hkey
  rw [hentry (by simp [sections]), hentry (by simp [sections]), hentry (by simp [sections])] at h
  obtain ⟨l₁, hpaths, h⟩ := bind_eq_ok_iff.1 h
  obtain ⟨l₂, hgeneration, h⟩ := bind_eq_ok_iff.1 h
  exact ⟨l₁, l₂, hpaths, hgeneration, h⟩

/-- What a document says about every field is what it has at the place of the field. -/
theorem reads_of_ofNode {node : Node} {l : ConfigLayer} (h : ofNode node = .ok l)
    (f : ConfigField) : f.Reads (node.at? f.place) ((Config.default.overlay l).value f) := by
  obtain ⟨l₁, l₂, hpaths, hgeneration, htoolchains⟩ := ofNode_eq_ok h
  rw [Config.value_overlay, ConfigField.place, Node.at?_cons]
  have hempty : ({} : ConfigLayer).value? f = none := by cases f <;> rfl
  have hsection : f.sectionName ∈ sections := by cases f <;> decide
  simp only [sections, List.mem_cons, List.not_mem_nil, or_false] at hsection
  -- the sections before that of the field leave it unset, and those after it leave it alone
  rcases hsection with hf | hf | hf
  · have hother : f.sectionName ≠ "generation" ∧ f.sectionName ≠ "toolchains" := by simp [hf]
    rw [fills_withToolchains.value?_withSection htoolchains hother.2,
      fills_withGeneration.value?_withSection hgeneration hother.1, hf]
    exact fills_withPaths.reads_withSection hpaths hf hempty
  · have hother : f.sectionName ≠ "paths" ∧ f.sectionName ≠ "toolchains" := by simp [hf]
    have hnone := (fills_withPaths.value?_withSection hpaths hother.1).trans hempty
    rw [fills_withToolchains.value?_withSection htoolchains hother.2, hf]
    exact fills_withGeneration.reads_withSection hgeneration hf hnone
  · have hother : f.sectionName ≠ "paths" ∧ f.sectionName ≠ "generation" := by simp [hf]
    have hnone := (fills_withGeneration.value?_withSection hgeneration hother.2).trans
      ((fills_withPaths.value?_withSection hpaths hother.1).trans hempty)
    rw [hf]
    exact fills_withToolchains.reads_withSection htoolchains hf hnone

/-- A text is read by way of its document. -/
theorem ofYaml_eq_ok_iff {text : String} {l : ConfigLayer} :
    ofYaml text = .ok l ↔ ∃ node, Yaml.parse text = .ok node ∧ ofNode node = .ok l := by
  rw [← bind_eq_ok_iff, ofYaml]
  cases Yaml.parse text >>= ofNode <;> simp

end ConfigLayer

/-! ## Resolution -/

namespace Config

variable {s : Storage} {e : Environment} {home given : Option String} {c c' : Config}

/-- The path name of the file that is read: the given one, or else the standard one if it is
there. -/
def file? (s : Storage) (home given : Option String) : Option String :=
  given.or ((standardFile? home).filter s.isFile)

/-- The document of the file that is read, if one is. -/
inductive HasDocument (s : Storage) (home given : Option String) : Option Node → Prop
  | read {path text : String} {node : Node} (hfile : file? s home given = some path)
    (htext : s.read path = .ok text) (hnode : Yaml.parse text = .ok node) :
    HasDocument s home given (some node)
  | absent (hfile : file? s home given = none) : HasDocument s home given none

private theorem checkedOverlay_eq_ok_iff {l : ConfigLayer} :
    c.checkedOverlay l = .ok c' ↔ c.overlay l = c' ∧ c'.validate = .ok () := by
  rw [checkedOverlay, bind_eq_ok_iff]
  constructor
  · rintro ⟨⟨⟩, hvalid, h⟩
    obtain rfl := Except.ok.inj h
    exact ⟨rfl, hvalid⟩
  · rintro ⟨rfl, hvalid⟩
    exact ⟨(), hvalid, rfl⟩

/-- A file that is read has a text, and the text a document. -/
theorem ofFile_eq_ok {path : String} (h : ofFile s path = .ok c) :
    ∃ text node l, s.read path = .ok text ∧ Yaml.parse text = .ok node ∧
      ConfigLayer.ofNode node = .ok l ∧ default.overlay l = c := by
  unfold ofFile at h
  split at h
  next text htext =>
    obtain ⟨l, hl, h⟩ := bind_eq_ok_iff.1 h
    obtain ⟨node, hnode, hl⟩ := ConfigLayer.ofYaml_eq_ok_iff.1 hl
    exact ⟨text, node, l, htext, hnode, hl, (checkedOverlay_eq_ok_iff.1 h).1⟩
  next => cases h

private theorem ofFiles_eq (s : Storage) (home given : Option String) :
    ofFiles s home given =
      match file? s home given with
      | some path => ofFile s path
      | none => .ok default := by
  cases given <;> rfl

/-- The configuration of a file has what the document of the file says. -/
theorem exists_reads_of_ofFiles (h : ofFiles s home given = .ok c) :
    ∃ document, HasDocument s home given document ∧
      ∀ f : ConfigField, f.Reads (document.bind fun node => node.at? f.place) (c.value f) := by
  rw [ofFiles_eq] at h
  cases hfile : file? s home given with
  | none =>
    simp only [hfile] at h
    obtain rfl := Except.ok.inj h
    exact ⟨none, .absent hfile, fun f => ⟨none, rfl, rfl⟩⟩
  | some path =>
    simp only [hfile] at h
    obtain ⟨text, node, l, htext, hnode, hl, rfl⟩ := ofFile_eq_ok h
    exact ⟨some node, .read hfile htext hnode, ConfigLayer.reads_of_ofNode hl⟩

private theorem resolve_eq_ok_iff {flags : ConfigLayer} :
    resolve s home e given flags = .ok c ↔
      ∃ base, ofFiles s home given = .ok base ∧
        (base.overlay (ConfigLayer.ofEnvironment e)).validate = .ok () ∧
        (base.overlay (ConfigLayer.ofEnvironment e)).overlay flags = c ∧ c.validate = .ok () := by
  simp only [resolve, bind_eq_ok_iff, checkedOverlay_eq_ok_iff]
  constructor
  · rintro ⟨base, hbase, _, ⟨rfl, hvalid⟩, hflags⟩
    exact ⟨base, hbase, hvalid, hflags⟩
  · rintro ⟨base, hbase, hvalid, hflags⟩
    exact ⟨base, hbase, _, ⟨rfl, hvalid⟩, hflags⟩

private theorem resolve_without {names : List String} (h : names ⊆ ConfigLayer.rejected e)
    (flags : ConfigLayer) :
    resolve s home (e.without names) given flags = resolve s home e given flags := by
  simp only [resolve, ConfigLayer.ofEnvironment_without h]

/-- **Precedence.**  A resolved configuration is valid, and each of its fields has the value that
the flags give it, or else that of its variable if it can be read, or else what the document of the
file has at its place, or else the value of the configuration without any layer.  What is at the
place of a field in the document can always be read.  Whichever of the reported variables are not
set, the resolution ends in the same way; the reported variables are, in a fixed order and each
once, those with a value that cannot be read.  All this is so wherever the home directory is, with
the standard file in it, and if there is none. -/
theorem resolve_precedence (s : Storage) (home : Option String) (e : Environment)
    (given : Option String) (flags : ConfigLayer) :
    (∀ c, resolve s home e given flags = .ok c →
      c.validate = .ok () ∧
      ∃ document, HasDocument s home given document ∧
        ∀ f : ConfigField, ∃ written,
          (document.bind fun node => node.at? f.place).mapM f.decoder = .ok written ∧
          c.value f = (flags.value? f).getD
            ((f.ofEnvironment? e).getD (written.getD (default.value f)))) ∧
    (∀ names, names ⊆ ConfigLayer.rejected e →
      resolve s home (e.without names) given flags = resolve s home e given flags) ∧
    (ConfigLayer.rejected e).Sublist ["QPATH_TIMEOUT", "QPATH_SCORING", "QPATH_COUNT_MODE"] ∧
    ∀ (f : ConfigField) (name : String), f.variableName? = some name →
      (name ∈ ConfigLayer.rejected e ↔ ∃ text, e name = some text ∧ f.parse? text = none) := by
  refine ⟨fun c hc => ?_, fun names hnames => resolve_without hnames flags,
    ConfigLayer.rejected_sublist e, fun f name hname => ConfigLayer.mem_rejected_iff hname⟩
  obtain ⟨base, hbase, -, rfl, hvalid⟩ := resolve_eq_ok_iff.1 hc
  obtain ⟨document, hdocument, hreads⟩ := exists_reads_of_ofFiles hbase
  refine ⟨hvalid, document, hdocument, fun f => ?_⟩
  obtain ⟨written, hwritten, hvalue⟩ := hreads f
  refine ⟨written, hwritten, ?_⟩
  rw [value_overlay, value_overlay, ConfigLayer.value?_ofEnvironment, hvalue]

/-- A file that sets fields of two sections. -/
def layeredText : String :=
  "paths:\n  corpus_dir: file\n  model_dir: file\n" ++
    "generation:\n  timeout_seconds: 30\n  scoring: analytical\n"

/-- The storage in which the standard file below a home directory holds this text. -/
def layeredStorage : Storage :=
  ⟨"/", [(["home"], .directory), (["home", ".qpath"], .directory),
    (["home", ".qpath", "config.yaml"], .file layeredText)]⟩

/-- Variables that set fields of the file once more, one of which cannot be read. -/
def layeredEnvironment : Environment :=
  .ofList [("QPATH_CORPUS_DIR", "variable"), ("QPATH_TIMEOUT", "soon"),
    ("QPATH_SCORING", "average-fidelity")]

/-- A flag over all of these. -/
def layeredFlags : ConfigLayer := { corpus := some "flag" }

/-- What is resolved of them: a field of each layer, and the time of the file. -/
def layeredConfig : Config :=
  { default with
    corpus := "flag"
    model := "file"
    timeout := 30
    scoring := .averageFidelity }

private theorem resolve_layered : resolve layeredStorage (some "/home") layeredEnvironment none
    layeredFlags = .ok layeredConfig :=
  toOption_eq_some_iff.1 (by decide +kernel)

/-- The layers are resolved, with the variable that cannot be read and without it.  The file is
found in the home directory; without one its fields have the values of the default. -/
theorem resolve_precedence_layered :
    (layeredConfig.validate = .ok () ∧
      ∃ document, HasDocument layeredStorage (some "/home") none document ∧
        ∀ f : ConfigField, ∃ written,
          (document.bind fun node => node.at? f.place).mapM f.decoder = .ok written ∧
          layeredConfig.value f = (layeredFlags.value? f).getD
            ((f.ofEnvironment? layeredEnvironment).getD (written.getD (default.value f)))) ∧
    resolve layeredStorage (some "/home") (layeredEnvironment.without ["QPATH_TIMEOUT"]) none
      layeredFlags = .ok layeredConfig ∧
    (∃ c, resolve layeredStorage none layeredEnvironment none layeredFlags = .ok c ∧
      c.model = Config.default.model) ∧
    "QPATH_TIMEOUT" ∈ ConfigLayer.rejected layeredEnvironment ∧
    "QPATH_SCORING" ∉ ConfigLayer.rejected layeredEnvironment := by
  obtain ⟨hlayers, hwithout, -, hrejected⟩ := resolve_precedence layeredStorage (some "/home")
    layeredEnvironment none layeredFlags
  have htimeout : "QPATH_TIMEOUT" ∈ ConfigLayer.rejected layeredEnvironment :=
    (hrejected .timeout "QPATH_TIMEOUT" rfl).2 ⟨"soon", rfl, by decide⟩
  refine ⟨hlayers layeredConfig resolve_layered, ?_, ?_, htimeout, fun hmem => ?_⟩
  · rw [hwithout ["QPATH_TIMEOUT"] (by simpa using htimeout), resolve_layered]
  · have hsome : (resolve layeredStorage none layeredEnvironment none
        layeredFlags).toOption.isSome := by
      decide +kernel
    obtain ⟨c, hc⟩ := Option.isSome_iff_exists.1 hsome
    rw [toOption_eq_some_iff] at hc
    obtain ⟨-, document, hdocument, hfields⟩ :=
      (resolve_precedence layeredStorage none layeredEnvironment none layeredFlags).1 c hc
    obtain rfl : document = none := by
      cases hdocument with
      | read hfile => cases hfile
      | absent => rfl
    obtain ⟨written, hwritten, hvalue⟩ := hfields .model
    obtain rfl : none = written := Except.ok.inj hwritten
    exact ⟨c, hc, hvalue⟩
  · obtain ⟨text, htext, hparse⟩ := (hrejected .scoring "QPATH_SCORING" rfl).1 hmem
    obtain rfl : "average-fidelity" = text := Option.some.inj htext
    exact absurd hparse (by decide)

end Config

end PathSelection
