import PathSelection.CommandLine.Arguments
import PathSelection.CommandLine.Failure
import PathSelection.CommandLine.Listing
import PathSelection.Compiler.Command
import PathSelection.Config.File
import PathSelection.Generation.Generator
import PathSelection.Predictor

/-!
# Running the program

What the program writes and how it changes the storage, for its arguments, its
environment and the home directory of its user.
-/

namespace PathSelection.CommandLine

/-- The storage, and the lines that were written. -/
structure RunState where
  storage : Storage
  lines : List String

/-- Work of the program. -/
abbrev Running := EStateM Failure RunState

namespace Running

/-- Writes lines. -/
def say (lines : List String) : Running Unit := modify fun s => { s with lines := s.lines ++ lines }

/-- A result whose failure is told below what was to be done. -/
def expect {ε β : Type} (chain : ε → Failure) (aims : List String) :
    Except ε β → Running β
  | .ok b => return b
  | .error e => throw (aims ++ chain e)

/-- Changes the storage. -/
def change {ε : Type} (chain : ε → Failure) (aims : List String)
    (f : Storage → Except ε Storage) : Running Unit := do
  let storage ← expect chain aims (f (← get).storage)
  modify fun s => { s with storage := storage }

/-- Works on a session over the storage, and gives the state that the work leaves. -/
def session {σ β : Type} (start : Session → σ) (session : σ → Session)
    (work : EStateM SelectionError σ β) : Running β := fun s =>
  match work (start (.fresh s.storage)) with
  | .ok b t => .ok b { s with storage := (session t).storage }
  | .error e t => .error e.chain { s with storage := (session t).storage }

end Running

open Running

/-- The chain of a fault of storage. -/
def faultChain (f : FileFault) : Failure := [f.message]

/-! ## Generation -/

/-- The lines of what a run over a corpus did. -/
def summaryLines (c : Config) (s : GenerationSummary) : List String := [
  "✓ Generation complete", s!"  Examples written: {s.processed}",
  s!"  Already labeled: {s.alreadyLabelled}", s!"  Circuits skipped: {s.skipped}",
  s!"  Unavailable paths: {s.unavailablePaths}", s!"  Output: {c.dataset}"]

/-- Makes training data.  There is no result if that never ends. -/
def generate (c : Config) (compilers : CompilerSet) : Running (Option Unit) := do
  say [s!"→ Generating training data from {c.corpus}"]
  let calibrations : CalibrationStore Float ←
    expect DeviceError.chain [s!"Failed to load calibration data from {c.calibration}"]
      (CalibrationStore.loadDirectory (← get).storage c.calibration .builtin)
  say [s!"  Scoring: {c.scoring.name} ({calibrations.length} calibrated backends)",
    s!"  Timeout: {c.timeout}s per compilation"]
  let cache : ArtifactCache := ⟨c.compiled⟩
  change SelectionError.chain [s!"Failed to open artifact cache {c.compiled}"] cache.prepare
  let g : Generator Float := ⟨compilers, ⟨calibrations, c.scoring, c.countMode⟩, cache, c.deadline⟩
  match ← session id id (g.run c.corpus c.dataset) with
  | none => return none
  | some summary =>
    say (summaryLines c summary)
    if !summary.isSuccess then throw ["no training examples were produced"]
    return some ()

/-! ## Prediction -/

/-- The circuit in a file. -/
def readCircuit (path : String) : Running Circuit := do
  let s := (← get).storage
  if !((s.exists? path).toOption.getD false) then throw [s!"File not found: {path}"]
  let text ← expect faultChain [s!"Failed to read file: {path}"] (s.read path)
  expect CircuitError.chain [s!"Invalid circuit: {path}"] (Circuit.ofText text)

/-- Writes a circuit into a file, whose directory is made if needed. -/
def writeCircuit (circuit : Circuit) (path : String) : Running Unit := do
  if let some directory := PathName.parent? path then
    change faultChain [s!"Failed to create directory: {directory}"]
      (·.createDirectories directory)
  change faultChain [s!"Failed to write file: {path}"] (·.write path circuit.toText)

/-- Predicts the best path for a circuit, and compiles along it if that is wanted. -/
def predict (c : Config) (compilers : CompilerSet) (input : String) (compileTo : Option String) :
    Running Unit := do
  let circuit ← readCircuit input
  say [s!"→ Predicting compilation path for {input}",
    s!"  Loaded: {circuit.numQubits} qubits, depth {circuit.depth}, {circuit.numOps} ops"]
  let p : Predictor := ⟨c.model, compilers, some c.deadline⟩
  let path ← session (PredictorState.unloaded (α := Float)) (·.session) (p.predict circuit)
  say [s!"✓ Best path: {path.name} ({path.toolchain.name} on {path.device})"]
  if let some output := compileTo then
    let compiled ← session id id (p.dispatch circuit path.index)
    writeCircuit compiled output
    say [s!"  Compiled: depth {compiled.depth}, {compiled.numOps} ops", s!"  Output: {output}"]

/-! ## The program -/

/-- The line of the version. -/
def versionLine : String := "qpath 0.4.0"

/-- The lines that tell how to use the program. -/
def helpLines : List String := [
  "Usage: qpath [OPTIONS] [predict CIRCUIT | paths | backends]", "",
  "Options: -v, --config FILE, -p DIR, -t SECONDS, --compiled-dir DIR, --calibration-dir DIR,",
  "         -o FILE, --scoring POLICY; with predict also --model-dir DIR, --compile-to FILE"]

/-- Does what an invocation asks for.  There is no result if that never ends. -/
def perform (home : Option String) (bindings : List (String × String)) (i : Invocation) :
    Running (Option Unit) := do
  let e := Environment.ofList bindings
  let c ← expect SelectionError.chain [] (Config.resolve (← get).storage home e i.config i.flags)
  let compilers := c.compilers bindings
  match i.action with
  | .generate => generate c compilers
  | .predict circuit compileTo => some <$> predict c compilers circuit compileTo
  | .paths => some <$> say pathLines
  | .backends =>
    let calibrations ← expect DeviceError.chain []
      (CalibrationStore.loadDirectory (← get).storage c.calibration .builtin)
    some <$> say (registryLines calibrations)

/-- What the program leaves: its code if it ends, the lines on both streams and the storage. -/
structure Outcome where
  code : Option Nat
  output : List String
  errors : List String
  storage : Storage

/-- The program, for a user with a home directory or without one. -/
def run (home : Option String) (bindings : List (String × String)) (args : List String)
    (storage : Storage) : Outcome :=
  match invocationOf args with
  | .error .version => ⟨some 0, [versionLine], [], storage⟩
  | .error .help => ⟨some 0, helpLines, [], storage⟩
  | .error .usage => ⟨some 2, [], helpLines, storage⟩
  | .ok i =>
    match perform home bindings i ⟨storage, []⟩ with
    | .ok (some ()) s => ⟨some 0, s.lines, [], s.storage⟩
    | .ok none s => ⟨none, s.lines, [], s.storage⟩
    | .error f s => ⟨some 1, s.lines, [failureLine f], s.storage⟩

end PathSelection.CommandLine
