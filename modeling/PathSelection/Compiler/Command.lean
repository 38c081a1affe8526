import PathSelection.Circuit.Document
import PathSelection.Compiler.Basic
import PathSelection.Config.Basic
import PathSelection.Shell.Run
import PathSelection.Text.Blank

/-!
# Compilers that are programs

A program gets the circuit as a document in a file, the request as arguments,
and writes the compiled circuit into another file.  Both files lie in a
directory of their own, which is gone afterwards.
-/

namespace PathSelection

/-- A program that compiles, with the arguments in front of those of the request. -/
structure CommandCompiler where
  name : String
  program : String
  arguments : List String
  /-- the variables of the environment -/
  bindings : List (String × String)

namespace CommandCompiler

/-- The directory of the files of a call. -/
def workplace (s : Storage) : String := PathName.join s.home ".compile"

/-- The file with the circuit. -/
def inputFile (s : Storage) : String := PathName.join (workplace s) "input.json"

/-- The file for the compiled circuit. -/
def outputFile (s : Storage) : String := PathName.join (workplace s) "output.json"

/-- The arguments that say what is wanted. -/
def requestArguments (r : CompileRequest) (input output : String) : List String :=
  ["--backend", r.device]
    ++ (match r.level with
      | some level => ["--optimization-level", natText level]
      | none => [])
    ++ ["--layout", r.layout.name, "--input", input, "--output", output]

/-- The compiled circuit of a program that came to its end, or why there is none. -/
def result (c : CommandCompiler) (output : String) (p : Shell.Process) (e : Shell.Ending) :
    Except String Circuit :=
  if e ≠ .exited 0 then
    .error s!"{c.program} exited with {e.text}: {trimText p.errors}"
  else match p.storage.read output with
    | .error fault => .error s!"no output circuit: {fault.message}"
    | .ok text => (Circuit.ofText text).mapError fun e => s!"bad output circuit: {e.message}"

/-- The storage with the file of the circuit in a directory of its own. -/
def prepare (s : Storage) (circuit : Circuit) : Except FileFault Storage := do
  let s ← s.createDirectories (workplace s)
  s.write (inputFile s) circuit.toText

/-- The storage without the directory of a call. -/
def cleanUp (s : Storage) : Storage :=
  match s.locate (workplace s) with
  | .ok l => s.erase l
  | .error _ => s

/-- Runs the program on a circuit. -/
def run (c : CommandCompiler) (circuit : Circuit) (r : CompileRequest) (s : Storage) :
    CompileOutcome × Storage :=
  match prepare s circuit with
  | .error fault => (.finished ⟨0⟩ (.error fault.message), s)
  | .ok prepared =>
    let output := outputFile s
    let arguments := c.arguments ++ requestArguments r (inputFile s) output
    match Shell.runProgram prepared c.bindings c.program arguments with
    | .error fault =>
      (.finished ⟨0⟩ (.error s!"{c.program}: {fault.message}"), cleanUp prepared)
    | .ok p =>
      let outcome := match p.ending with
        | some .endless | none => CompileOutcome.endless
        | some e => .finished p.elapsed (c.result output p e)
      (outcome, cleanUp p.storage)

/-- The program as a compiler. -/
def compiler (c : CommandCompiler) : Compiler := ⟨c.name, c.run⟩

end CommandCompiler

/-- The compilers of a configuration. -/
def Config.compilers (c : Config) (bindings : List (String × String)) : CompilerSet :=
  let command (t : Toolchain) (tc : ToolchainCommand) : Compiler :=
    CommandCompiler.compiler ⟨t.name, tc.program, tc.arguments, bindings⟩
  (CompilerSet.empty.insert .qiskit (command .qiskit c.qiskit)).insert .tket
    (command .tket c.tket)

end PathSelection
