import PathSelection.Duration
import PathSelection.Shell.Script
import PathSelection.Storage.Basic

/-!
# Shell processes

The state of a running script: the storage, its parameters, what it has written
and how it ends.
-/

namespace PathSelection.Shell

/-- How a process ends. -/
inductive Ending where
  | exited (status : Nat)
  | killed (signal : Nat)
  /-- it waits for ever -/
  | endless
  deriving DecidableEq, Repr

/-- The names of signals, from the first on. -/
def signalNames : List String := [
  "HUP", "INT", "QUIT", "ILL", "TRAP", "ABRT", "BUS", "FPE", "KILL", "USR1", "SEGV", "USR2",
  "PIPE", "ALRM", "TERM", "STKFLT", "CHLD", "CONT", "STOP", "TSTP", "TTIN", "TTOU", "URG", "XCPU",
  "XFSZ", "VTALRM", "PROF", "WINCH", "IO", "PWR", "SYS"]

/-- The number of a signal, given as such or by its name. -/
def signalOf? (text : String) : Option Nat :=
  match text.toNat? with
  | some n => if n ≤ signalNames.length then some n else none
  | none => (signalNames.idxOf? text).map (· + 1)

/-- The ending that a signal brings about, if it does. -/
def endingOfSignal? (n : Nat) : Option Ending :=
  if [0, 17, 18, 23, 28].contains n then none
  else if [19, 20, 21, 22].contains n then some .endless
  else some (.killed n)

/-- The status of an ending in a message. -/
def Ending.text : Ending → String
  | .exited n => s!"exit status: {n}"
  | .killed n =>
    match signalNames[n - 1]? with
    | some name => s!"signal: {n} (SIG{name})"
    | none => s!"signal: {n}"
  | .endless => "endless"

/-- A running script. -/
structure Process where
  storage : Storage
  /-- the name under which the script runs -/
  name : String
  arguments : List String
  bindings : List (String × String)
  output : String
  errors : String
  /-- the status of the last command -/
  status : Nat
  /-- the time spent waiting -/
  elapsed : Duration
  ending : Option Ending

namespace Process

/-- The number that stands for the process itself. -/
def number : String := "1000"

/-- A script that starts. -/
def start (storage : Storage) (name : String) (arguments : List String)
    (bindings : List (String × String)) : Process :=
  ⟨storage, name, arguments, bindings, "", "", 0, ⟨0⟩, none⟩

/-- The value of a parameter; what is not set is empty. -/
def value (p : Process) (name : String) : String :=
  if name = "@" ∨ name = "*" then " ".intercalate p.arguments
  else if name = "#" then natText p.arguments.length
  else if name = "?" then natText p.status
  else if name = "$" then number
  else match name.toNat? with
    | some 0 => p.name
    | some (n + 1) => (p.arguments[n]?).getD ""
    | none => (p.bindings.lookup name).getD ""

/-- The values of all parameters. -/
def parameters (p : Process) : Parameters := ⟨p.value, p.arguments⟩

/-- The start of a message of the shell itself. -/
def complaint (p : Process) (text : String) : String := s!"{p.name}: 1: {text}\n"

end Process

end PathSelection.Shell
