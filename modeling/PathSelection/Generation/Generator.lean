import PathSelection.Compiler.Basic
import PathSelection.Dataset.File
import PathSelection.Generation.Cache
import PathSelection.Generation.Corpus
import PathSelection.Scoring.Engine

/-!
# Generators of training data

A generator compiles each circuit of a corpus along every path whose device is
wide enough, scores the results and adds one labelled example to a dataset.  A
path without a compiled circuit keeps the sentinel as its score, and a circuit
without any is skipped.  Where the counting of gates never ends there is no example,
and what was to be done with it is never reached.
-/

namespace PathSelection

/-- What a generator works with. -/
structure Generator (α : Type) where
  compilers : CompilerSet
  engine : ScoringEngine α
  cache : ArtifactCache
  /-- the longest time that a compiler may take -/
  deadline : Duration

/-- The time that a compiler may take if nothing else is said. -/
def defaultDeadline : Duration := .ofSeconds 10

/-- A path, its device and the circuit compiled along it. -/
structure Artifact (α : Type) where
  path : CompilationPath
  device : Descriptor α
  circuit : Circuit

/-- What a run over a corpus did. -/
structure GenerationSummary where
  /-- circuits that made an example -/
  processed : Nat
  /-- circuits that are unreadable, too wide or without any compiled circuit -/
  skipped : Nat
  /-- circuits of which the dataset has an example already -/
  alreadyLabelled : Nat
  /-- sentinels in the scores of all examples, and those of circuits without any compiled circuit -/
  unavailablePaths : Nat
  deriving DecidableEq, Repr

/-- Did a run make an example? -/
def GenerationSummary.isSuccess (s : GenerationSummary) : Bool := decide (0 < s.processed)

namespace Generator

variable {α : Type} [Scalar α]

/-! ## One circuit -/

/-- The circuit of a compiler for a path, put into the cache; trouble with the cache is ignored. -/
def compile (g : Generator α) (id : String) (circuit : Circuit) (p : CompilationPath) :
    Selecting Circuit := do
  let compiler ← .ofExcept (g.compilers.forPath p)
  let compiled ← compiler.call (some g.deadline) circuit p.request
  modify fun s => { s with storage := (g.cache.store s.storage id p.index compiled).2 }
  return compiled

/-- The circuit in the cache for a path, if it can be read. -/
def cached? (g : Generator α) (s : Session) (id : String) (p : CompilationPath) :
    Option Circuit :=
  match g.cache.load s.storage id p.index with
  | .ok circuit? => circuit?
  | .error _ => none

/-- The compiled circuit for a path, from the cache or else from its compiler, if there is one. -/
def compiled? (g : Generator α) (id : String) (circuit : Circuit) (p : CompilationPath) :
    Selecting (Option Circuit) := fun s =>
  match g.cached? s id p with
  | some c => .ok (some c) s
  | none =>
    match g.compile id circuit p s with
    | .ok c s => .ok (some c) s
    | .error _ s => .ok none s

/-- The artifact of a path, if the device is wide enough and there is a compiled circuit. -/
def artifact? (g : Generator α) (id : String) (circuit : Circuit) (p : CompilationPath) :
    Selecting (Option (Artifact α)) := do
  let device ← .ofExcept p.descriptor
  if device.numQubits < circuit.numQubits then return none
  let compiled? ← g.compiled? id circuit p
  return compiled?.map fun c => ⟨p, device, c⟩

/-- The artifacts of paths, one after the other. -/
def artifacts (g : Generator α) (id : String) (circuit : Circuit) :
    List CompilationPath → Selecting (List (Artifact α))
  | [] => return []
  | p :: ps => do
    let here ← g.artifact? id circuit p
    let rest ← g.artifacts id circuit ps
    return here.toList ++ rest

/-- A score for every path: that of its artifact, or the sentinel. -/
def scatter (artifacts : List (Artifact α)) (scores : List (Score α)) : ScoreVector α :=
  (artifacts.zip scores).foldl (fun v (a, s) => v.set a.path.index s.value)
    (.unavailable CompilationPath.count)

/-- The example that artifacts make, if their scores can be computed. -/
def label (g : Generator α) (id : String) (circuit : Circuit) (artifacts : List (Artifact α)) :
    Except SelectionError (Option (TrainingExample α)) := do
  if artifacts.isEmpty then throw (.allPathsUnavailable id)
  let candidates := artifacts.map fun a => ⟨a.circuit, a.device⟩
  match g.engine.scoreBatch candidates circuit.numQubits with
  | none => return none
  | some batch =>
    let e ← TrainingExample.ofScores id (.ofCircuit circuit) (scatter artifacts batch.scores)
    return some { e with strategy := some batch.strategy }

/-- The example of a circuit, unless the counting of gates never ends. -/
def processCircuit (g : Generator α) (id : String) (circuit : Circuit) :
    Selecting (Option (TrainingExample α)) := do
  let artifacts ← g.artifacts id circuit CompilationPath.catalog
  .ofExcept (g.label id circuit artifacts)

/-! ## A corpus -/

/-- The circuit of a file, if it can be read and some device is wide enough for it. -/
def usable? (s : Storage) (file : String) : Option Circuit :=
  match Corpus.readCircuit s file with
  | .ok c => if (Registry.builtin : Registry α).maxNumQubits < c.numQubits then none else some c
  | .error _ => none

/-- Adds the example of a circuit to a dataset and counts it. -/
def processInto (g : Generator α) (dataset id : String) (circuit : Circuit)
    (summary : GenerationSummary) : Selecting (Option GenerationSummary) := fun s =>
  match g.processCircuit id circuit s with
  | .ok none s => .ok none s
  | .ok (some e) s =>
    match Selecting.change (Dataset.append · dataset e) s with
    | .ok () s =>
      .ok (some { summary with
        processed := summary.processed + 1
        unavailablePaths :=
          summary.unavailablePaths + (CompilationPath.count - e.scores.availableCount) }) s
    | .error e s => .error e s
  | .error (.allPathsUnavailable _) s =>
    .ok (some { summary with
      skipped := summary.skipped + 1
      unavailablePaths := summary.unavailablePaths + CompilationPath.count }) s
  | .error e s => .error e s

/-- Handles a file of a corpus. -/
def processFile (g : Generator α) (dataset : String) (labelled : List String)
    (summary : GenerationSummary) (file : String) : Selecting (Option GenerationSummary) := do
  let id := Corpus.circuitId file
  if labelled.contains id then
    return some { summary with alreadyLabelled := summary.alreadyLabelled + 1 }
  match usable? (α := α) (← get).storage file with
  | some circuit => g.processInto dataset id circuit summary
  | none => return some { summary with skipped := summary.skipped + 1 }

/-- Handles files one after the other, as long as each of them is done with. -/
def processFiles (g : Generator α) (dataset : String) (labelled : List String) :
    GenerationSummary → List String → Selecting (Option GenerationSummary)
  | summary, [] => return some summary
  | summary, file :: files => do
    match ← g.processFile dataset labelled summary file with
    | some summary => g.processFiles dataset labelled summary files
    | none => return none

/-- Handles all files of a corpus; circuits that the dataset has at the start are left alone.  There
is no summary if some file is never done with. -/
def run (g : Generator α) (corpus dataset : String) : Selecting (Option GenerationSummary) := do
  let files ← Selecting.look (Corpus.files · corpus)
  let labelled ← Selecting.look (Dataset.labelledIds · dataset)
  g.processFiles dataset labelled ⟨0, 0, 0, 0⟩ files

/-- A generator in a message. -/
def text (g : Generator α) : String :=
  "TrainingDataGenerator \x7b compilers: " ++ g.compilers.text ++ ", policy: "
    ++ g.engine.policy.variantName ++ ", cache: " ++ quoted g.cache.directory ++ ", timeout: "
    ++ g.deadline.text ++ ", .. \x7d"

end Generator

end PathSelection
