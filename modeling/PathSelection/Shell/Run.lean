import PathSelection.Shell.Utility

/-!
# Running scripts

A script runs its pipelines in order, each if its condition holds, until one of
its commands ends the process.
-/

namespace PathSelection.Shell

/-! ## Streams -/

/-- Where the text of a stream goes. -/
inductive Sink where
  | output
  | errors
  | file (path : String)
  | nowhere
  deriving DecidableEq, Repr

/-- The streams of a command. -/
structure Streams where
  input : String
  output : Sink
  errors : Sink

/-- The path name of what takes every text and holds none. -/
def nullDevice : String := "/dev/null"

/-- The process with a text sent to a sink. -/
def send (p : Process) (sink : Sink) (text : String) : Process :=
  match sink with
  | .output => { p with output := p.output ++ text }
  | .errors => { p with errors := p.errors ++ text }
  | .file path => { p with storage := (p.storage.append path text).toOption.getD p.storage }
  | .nowhere => p

/-- The sink of a stream. -/
def Streams.sink (s : Streams) (n : Nat) : Sink :=
  if n = 1 then s.output else if n = 2 then s.errors else .nowhere

/-- The streams with another sink for one of them. -/
def Streams.withSink (s : Streams) (n : Nat) (sink : Sink) : Streams :=
  if n = 1 then { s with output := sink } else if n = 2 then { s with errors := sink } else s

/-- The fault of a file that cannot be made. -/
def creationFault : FileFault → String
  | .notFound | .notADirectory => "Directory nonexistent"
  | f => f.reason

/-- The fault of a file that cannot be opened. -/
def openingFault : FileFault → String
  | .notFound => "No such file"
  | f => f.reason

/-- The process and its streams after a redirection. -/
def redirect (p : Process) (s : Streams) (r : Redirection) : Except String (Process × Streams) :=
  let target := expandText p.parameters r.target
  if r.sign = ">&" ∨ r.sign = "<&" then
    match target.toNat? with
    | some n => .ok (p, s.withSink r.stream (s.sink n))
    | none => .ok (p, s.withSink r.stream .nowhere)
  else if r.sign = "<" then
    if target = nullDevice then .ok (p, { s with input := "" })
    else match p.storage.read target with
      | .ok text => .ok (p, { s with input := text })
      | .error fault => .error s!"cannot open {target}: {openingFault fault}"
  else if target = nullDevice then .ok (p, s.withSink r.stream .nowhere)
  else
    let opened :=
      if r.sign = ">>" then p.storage.append target "" else p.storage.write target ""
    match opened with
    | .ok storage => .ok ({ p with storage := storage }, s.withSink r.stream (.file target))
    | .error fault => .error s!"cannot create {target}: {creationFault fault}"

/-- The process and its streams after redirections. -/
def redirectAll (p : Process) (s : Streams) :
    List Redirection → Except String (Process × Streams)
  | [] => .ok (p, s)
  | r :: rs => do
    let (p, s) ← redirect p s r
    redirectAll p s rs

/-! ## Commands -/

/-- The process after assignments. -/
def assign (p : Process) (assignments : List (String × Word)) : Process :=
  assignments.foldl (fun p (name, w) =>
    { p with bindings := (name, expandText p.parameters w) :: p.bindings }) p

/-- Runs a program that was found, or says that there is none. -/
def call (p : Process) (input : String) (name : String) (args : List String) : Report :=
  match utilities.lookup name with
  | some u => u p input args
  | none => ⟨p, 127, "", p.complaint s!"{name}: not found"⟩

/-- Runs a simple command on streams. -/
def runCommand (p : Process) (s : Streams) (c : Command) : Process :=
  let fields := c.words.flatMap (expandWord p.parameters)
  match redirectAll p s c.redirections with
  | .error message => { send p s.errors (p.complaint message) with status := 2 }
  | .ok (p, s) =>
    match fields with
    | [] => { assign p c.assignments with status := 0 }
    | name :: args =>
      let r := call (assign p c.assignments) s.input name args
      let q := { r.process with
        status := r.status
        bindings := p.bindings }
      send (send q s.output r.output) s.errors r.errors

/-- Runs commands, each on the output of the one before it. -/
def runCommands (p : Process) (input : String) : List Command → Process
  | [] => p
  | [c] => runCommand p ⟨input, .output, .errors⟩ c
  | c :: cs =>
    let q := runCommand { p with output := "" } ⟨input, .output, .errors⟩ c
    let ending := q.ending.filter (· == .endless)
    runCommands { q with output := p.output, ending := ending } q.output cs

/-- Does a pipeline run after a status? -/
def Condition.holds (status : Nat) : Condition → Bool
  | .always => true
  | .afterSuccess => status == 0
  | .afterFailure => status != 0

/-- Runs a pipeline if its condition holds and the process has not ended. -/
def runPipeline (p : Process) (pipeline : Pipeline) : Process :=
  if p.ending.isSome || !pipeline.condition.holds p.status then p
  else
    let q := runCommands p "" pipeline.commands
    if pipeline.isNegated then { q with status := if q.status = 0 then 1 else 0 } else q

/-- Runs the text of a script to its end. -/
def runScript (p : Process) (text : String) : Process :=
  match parseScript text with
  | .error fault =>
    { p with
      errors := p.errors ++ p.complaint s!"Syntax error: {fault}"
      ending := some (.exited 2) }
  | .ok pipelines =>
    let q := pipelines.foldl runPipeline p
    { q with ending := some (q.ending.getD (.exited q.status)) }

/-! ## Programs -/

/-- The names of the shell itself. -/
def shellNames : List String := ["sh", "/bin/sh", "/usr/bin/sh"]

/-- Runs the shell on its arguments: a script behind `-c`, or in a file. -/
def runShell (p : Process) (args : List String) : Process :=
  match args with
  | [] => { p with ending := some (.exited 0) }
  | "-c" :: [] =>
    { p with errors := "sh: 0: -c requires an argument\n", ending := some (.exited 2) }
  | "-c" :: text :: args =>
    match text.toList, args with
    | '-' :: c :: _, _ => illegal c
    | _, [] => runScript p text
    | _, name :: args => runScript { p with name := name, arguments := args } text
  | file :: args =>
    match file.toList with
    | '-' :: c :: _ => illegal c
    | _ =>
      match p.storage.read file with
      | .ok text => runScript { p with name := file, arguments := args } text
      | .error fault =>
        { p with
          errors := s!"sh: 0: cannot open {file}: {openingFault fault}\n"
          ending := some (.exited 2) }
where
  /-- The end of a shell with an option that it does not have. -/
  illegal (c : Char) : Process :=
    { p with errors := s!"sh: 0: Illegal option -{c}\n", ending := some (.exited 2) }

/-- Why there is no program of a name.  A name with a slash is that of a file, and no file of the
storage may be run. -/
def programFault (storage : Storage) (program : String) : FileFault :=
  if !program.contains '/' then .notFound
  else match storage.exists? program with
    | .ok true => .permissionDenied
    | .ok false => .notFound
    | .error fault => fault

/-- Runs a program, if there is one of this name. -/
def runProgram (storage : Storage) (bindings : List (String × String)) (program : String)
    (args : List String) : Except FileFault Process :=
  let p := Process.start storage program args bindings
  if shellNames.contains program then .ok (runShell p args)
  else match utilities.lookup program with
    | none => .error (programFault storage program)
    | some u =>
      let r := u p "" args
      .ok { r.process with
        output := r.output
        errors := r.errors
        ending := some (r.process.ending.getD (.exited r.status)) }

end PathSelection.Shell
