import PathSelection.Config.Environment
import PathSelection.Storage.Basic
import PathSelection.Yaml.Decode

/-!
# Configuration files

A configuration file has sections for paths, for generation and for toolchains.
All sections and all fields may be absent, but a toolchain must have a program.
-/

namespace PathSelection

namespace ConfigLayer

open Yaml (Decoder Node field?)

/-- The sections of a file. -/
def sections : List String := ["paths", "generation", "toolchains"]

/-- A layer with what the section of paths says. -/
def withPaths (l : ConfigLayer) (node : Node) : Except String ConfigLayer := do
  let fs ← Decoder.fields
    ["corpus_dir", "compiled_dir", "calibration_dir", "model_dir", "dataset_path"] node
  return { l with
    corpus := ← field? Decoder.text fs "corpus_dir"
    compiled := ← field? Decoder.text fs "compiled_dir"
    calibration := ← field? Decoder.text fs "calibration_dir"
    model := ← field? Decoder.text fs "model_dir"
    dataset := ← field? Decoder.text fs "dataset_path" }

/-- A layer with what the section of generation says. -/
def withGeneration (l : ConfigLayer) (node : Node) : Except String ConfigLayer := do
  let fs ← Decoder.fields ["timeout_seconds", "scoring", "count_mode"] node
  return { l with
    timeout := ← field? Decoder.unsigned fs "timeout_seconds"
    scoring := ← field? (Decoder.name ScoringPolicy.names) fs "scoring"
    countMode := ← field? (Decoder.name CountMode.names) fs "count_mode" }

/-- Reads the command of a toolchain. -/
def command : Decoder ToolchainCommand := fun node => do
  let fs ← Decoder.fields ["program", "args"] node
  let arguments ← field? (Decoder.list Decoder.text) fs "args"
  match ← field? Decoder.text fs "program" with
  | some program => return ⟨program, arguments.getD []⟩
  | none => throw "missing field program"

/-- A layer with what the section of toolchains says. -/
def withToolchains (l : ConfigLayer) (node : Node) : Except String ConfigLayer := do
  let fs ← Decoder.fields ["qiskit", "tket"] node
  let qiskit ← field? command fs "qiskit"
  let tket ← field? command fs "tket"
  return { l with
    qiskitProgram := qiskit.map (·.program)
    qiskitArguments := qiskit.map (·.arguments)
    tketProgram := tket.map (·.program)
    tketArguments := tket.map (·.arguments) }

/-- What a document says. -/
def ofNode (node : Node) : Except String ConfigLayer := do
  let fs ← Decoder.fields sections node
  let l : ConfigLayer := {}
  let l ← match Dict.get? fs "paths" with
    | some n => l.withPaths n
    | none => pure l
  let l ← match Dict.get? fs "generation" with
    | some n => l.withGeneration n
    | none => pure l
  match Dict.get? fs "toolchains" with
  | some n => l.withToolchains n
  | none => return l

/-- What the text of a file says. -/
def ofYaml (text : String) : Except SelectionError ConfigLayer :=
  match Yaml.parse text >>= ofNode with
  | .ok l => .ok l
  | .error reason => .error (.configText reason)

end ConfigLayer

namespace Config

/-- The configuration that the text of a file makes. -/
def ofYaml (text : String) : Except SelectionError Config := do
  default.checkedOverlay (← ConfigLayer.ofYaml text)

/-- The configuration that a file makes. -/
def ofFile (s : Storage) (path : String) : Except SelectionError Config :=
  match s.read path with
  | .ok text => ofYaml text
  | .error fault => .error (.config s!"{path}: {fault.message}")

/-- The path name of the file below the home directory, if there is one, that is used if no other
file is given and it is there. -/
def standardFile? (home : Option String) : Option String :=
  home.map fun home => PathName.join (PathName.join home ".qpath") "config.yaml"

/-- The configuration that the given file, or else the standard one, makes. -/
def ofFiles (s : Storage) (home given : Option String) : Except SelectionError Config :=
  match given with
  | some path => ofFile s path
  | none =>
    match (standardFile? home).filter s.isFile with
    | some path => ofFile s path
    | none => .ok default

/-- The configuration of a file, the environment and flags, in this order.  It is checked after
each.  Where the home directory is, the system says. -/
def resolve (s : Storage) (home : Option String) (e : Environment) (given : Option String)
    (flags : ConfigLayer) : Except SelectionError Config := do
  let c ← ofFiles s home given
  let c ← c.checkedOverlay (ConfigLayer.ofEnvironment e)
  c.checkedOverlay flags

end Config

end PathSelection
