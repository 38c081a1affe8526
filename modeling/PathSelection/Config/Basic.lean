import PathSelection.Error
import PathSelection.Scoring.GateCount
import PathSelection.Text.Blank

/-!
# Configurations

A configuration says where things lie, how circuits are scored and which
programs compile.  It is made of layers, each of which may say something about
each field; a later layer wins.

Main results:

- Theorem `Config.overlay_empty`: a layer that says nothing changes nothing.
- Theorem `Config.validate_default`: the configuration without any layer is valid.
-/

namespace PathSelection

/-- The program of a toolchain and its first arguments. -/
structure ToolchainCommand where
  program : String
  arguments : List String
  deriving DecidableEq, Repr

/-- A configuration. -/
structure Config where
  /-- the directory of circuits -/
  corpus : String
  /-- the directory of compiled circuits -/
  compiled : String
  /-- the directory of calibration exports -/
  calibration : String
  /-- the directory of the model -/
  model : String
  /-- the dataset -/
  dataset : String
  /-- the seconds that a compiler may take -/
  timeout : Nat
  scoring : ScoringPolicy
  countMode : CountMode
  qiskit : ToolchainCommand
  tket : ToolchainCommand
  deriving DecidableEq, Repr

/-- What one source says about a configuration. -/
structure ConfigLayer where
  corpus : Option String := none
  compiled : Option String := none
  calibration : Option String := none
  model : Option String := none
  dataset : Option String := none
  timeout : Option Nat := none
  scoring : Option ScoringPolicy := none
  countMode : Option CountMode := none
  qiskitProgram : Option String := none
  qiskitArguments : Option (List String) := none
  tketProgram : Option String := none
  tketArguments : Option (List String) := none
  deriving DecidableEq, Repr

namespace Config

/-- The configuration without any layer. -/
def default : Config where
  corpus := "circuits"
  compiled := "compiled"
  calibration := "calibration"
  model := "model"
  dataset := "training_data.jsonl"
  timeout := 10
  scoring := .calibrated
  countMode := .wholeCircuit
  qiskit := ⟨"qpath-qiskit-driver", []⟩
  tket := ⟨"qpath-tket-driver", []⟩

/-- A configuration with one more layer. -/
def overlay (c : Config) (l : ConfigLayer) : Config where
  corpus := l.corpus.getD c.corpus
  compiled := l.compiled.getD c.compiled
  calibration := l.calibration.getD c.calibration
  model := l.model.getD c.model
  dataset := l.dataset.getD c.dataset
  timeout := l.timeout.getD c.timeout
  scoring := l.scoring.getD c.scoring
  countMode := l.countMode.getD c.countMode
  qiskit := ⟨l.qiskitProgram.getD c.qiskit.program, l.qiskitArguments.getD c.qiskit.arguments⟩
  tket := ⟨l.tketProgram.getD c.tket.program, l.tketArguments.getD c.tket.arguments⟩

/-- A layer that says nothing changes nothing. -/
@[simp]
theorem overlay_empty (c : Config) : c.overlay {} = c := rfl

/-- What is wrong with a configuration, if anything is. -/
def fault? (c : Config) : Option String :=
  if c.timeout = 0 then some "generation.timeout_seconds must be positive"
  else if (trimChars c.qiskit.program.toList).isEmpty then
    some "toolchains.qiskit.program must not be empty"
  else if (trimChars c.tket.program.toList).isEmpty then
    some "toolchains.tket.program must not be empty"
  else none

/-- Checks a configuration. -/
def validate (c : Config) : Except SelectionError Unit :=
  match c.fault? with
  | some reason => .error (.config reason)
  | none => .ok ()

/-- A configuration with one more layer, checked. -/
def checkedOverlay (c : Config) (l : ConfigLayer) : Except SelectionError Config := do
  let c := c.overlay l
  c.validate
  return c

/-- The configuration without any layer is valid. -/
theorem validate_default : default.validate = .ok () := by
  have h : default.fault? = none := by decide +kernel
  simp [validate, h]

/-- The time that a compiler may take. -/
def deadline (c : Config) : Duration := .ofSeconds c.timeout

/-- The document of a command. -/
def commandJson (t : ToolchainCommand) : Json :=
  .record [("program", .text t.program), ("args", .list .text t.arguments)]

/-- The document of a configuration. -/
def toJson (c : Config) : Json :=
  .record [
    ("paths", .record [("corpus_dir", .text c.corpus), ("compiled_dir", .text c.compiled),
      ("calibration_dir", .text c.calibration), ("model_dir", .text c.model),
      ("dataset_path", .text c.dataset)]),
    ("generation", .record [("timeout_seconds", .nat c.timeout), ("scoring", c.scoring.toJson),
      ("count_mode", .text c.countMode.name)]),
    ("toolchains", .record [("qiskit", commandJson c.qiskit), ("tket", commandJson c.tket)])]

end Config

end PathSelection
