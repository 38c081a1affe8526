import PathSelection.CommandLine.Run

/-!
# The program

Reads the tree below the working directory, runs, prints, and writes back what
changed.  The standard configuration file is taken from the home directory of the
user, which is that of the variable `HOME` here.
-/

namespace PathSelection.Program

/-- Adds the files and directories of a directory to a storage.  A file that is no text is left
out. -/
partial def readTree (s : Storage) (place : String) (l : Location) : IO Storage := do
  let mut s := s
  for entry in ← (← IO.FS.realPath place).readDir do
    let inner := PathName.join place entry.fileName
    let location := l ++ [entry.fileName]
    if ← entry.path.isDir then
      s ← readTree (s.put location .directory) inner location
    else
      try s := s.put location (.file (← IO.FS.readFile inner))
      catch _ => pure ()
  return s

/-- The path name of a place in a storage. -/
def placeName (s : Storage) (l : Location) : String := l.foldl PathName.join s.home

/-- Writes what is new in a storage and removes what is gone. -/
def writeBack (before after : Storage) : IO Unit := do
  for (l, e) in after.entries do
    if before.entryAt? l != some e then
      match e with
      | .directory => IO.FS.createDirAll (placeName after l)
      | .file text => IO.FS.writeFile (placeName after l) text
  for (l, e) in before.entries do
    if (after.entryAt? l).isNone then
      match e with
      | .directory => IO.FS.removeDirAll (placeName before l)
      | .file _ => IO.FS.removeFile (placeName before l)

/-- The variables that the program looks at. -/
def variableNames : List String := [
  "QPATH_CORPUS_DIR", "QPATH_COMPILED_DIR", "QPATH_CALIBRATION_DIR", "QPATH_MODEL_DIR",
  "QPATH_DATASET", ConfigLayer.timeoutVariable, ConfigLayer.scoringVariable,
  ConfigLayer.countModeVariable, "QPATH_QISKIT_PROGRAM", "QPATH_TKET_PROGRAM", "HOME"]

/-- The variables of the environment. -/
def readVariables : IO (List (String × String)) :=
  variableNames.filterMapM fun name => do
    return (← IO.getEnv name).map (name, ·)

/-- A name that no file of the system has. -/
def guestName : String := "\x00home"

/-- A storage and the home directory in it.  If that is not below the working directory, a directory
with nothing but the standard configuration file stands for it. -/
def withHome (s : Storage) (home : String) : IO (Storage × String) := do
  let some file := Config.standardFile? home | return (s, home)
  if s.isFile file then return (s, home)
  try
    let text ← IO.FS.readFile file
    let s := (s.put [guestName] .directory).put [guestName, ".qpath"] .directory
    return (s.put [guestName, ".qpath", "config.yaml"] (.file text),
      PathName.join s.home guestName)
  catch _ => return (s, home)

/-- Does nothing without end. -/
partial def wait : IO UInt32 := do
  IO.sleep 1000
  wait

end PathSelection.Program

open PathSelection in
/-- Runs the program on its arguments. -/
def main (args : List String) : IO UInt32 := do
  let place := toString (← IO.currentDir)
  let before ← Program.readTree (Storage.empty place) place []
  let bindings ← Program.readVariables
  let home := (bindings.lookup "HOME").filter (· != "")
  let (before, home) ← match home with
    | some home => do
      let (before, home) ← Program.withHome before home
      pure (before, some home)
    | none => pure (before, none)
  let r := CommandLine.run home bindings args before
  for line in r.output do IO.println line
  for line in r.errors do IO.eprintln line
  Program.writeBack before r.storage
  match r.code with
  | some code => return code.toUInt32
  | none => Program.wait
