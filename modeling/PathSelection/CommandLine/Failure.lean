import PathSelection.Error

/-!
# Failures of the program

A failure is the chain of what went wrong, from what was to be done down to its
last cause.  A cause whose wording is part of the one above it stands there too.
-/

namespace PathSelection

/-- The problems from a problem with a circuit down to its cause. -/
def CircuitError.chain : CircuitError → List String
  | e@(document cause) => [e.message, cause.message]
  | e => [e.message]

/-- The problems from a problem with a device down to its cause. -/
def DeviceError.chain : DeviceError → List String
  | e@(storage fault) => [e.message, fault.message]
  | e => [e.message]

/-- The problems from any problem down to its cause. -/
def SelectionError.chain : SelectionError → List String
  | e@(circuit cause) => e.message :: cause.chain
  | e@(storage fault) => [e.message, fault.message]
  | e@(document cause) => [e.message, cause.message]
  | e => [e.message]

namespace CommandLine

/-- What went wrong, the last cause at the end. -/
abbrev Failure := List String

/-- The line that shows a failure. -/
def failureLine (f : Failure) : String := "Error: " ++ ": ".intercalate f

end CommandLine

end PathSelection
