import PathSelection.Circuit.Error
import PathSelection.Duration
import PathSelection.Scoring.Score

/-!
# Problems with paths, data and models

Why training data cannot be made, a model cannot be used, or a circuit cannot be
compiled along a path.
-/

namespace PathSelection

/-- A problem of generation, prediction or configuration. -/
inductive SelectionError where
  | unknownDevice (name : String)
  | unknownPath (which : String)
  | compilationTimeout (path : String) (deadline : Duration)
  | compilationFailure (path message : String)
  | notTrained (directory : String)
  | sizeMismatch (expected actual : Nat)
  | allPathsUnavailable (circuitId : String)
  | invalidModel (reason : String)
  | config (reason : String)
  /-- a configuration file cannot be read as one -/
  | configText (reason : String)
  | device (cause : DeviceError)
  | scoring (cause : ScoringError)
  | circuit (cause : CircuitError)
  | storage (fault : FileFault)
  | document (cause : Json.DecodeError)

namespace SelectionError

/-- The problem with a path that a problem with a device makes. -/
def ofDevice : DeviceError → SelectionError
  | .unknown name => unknownDevice name
  | e => device e

/-- The wording of a problem. -/
def message : SelectionError → String
  | unknownDevice name => s!"Unknown backend: {name}"
  | unknownPath which => s!"Unknown compilation path: {which}"
  | compilationTimeout path deadline =>
    s!"Compilation on {path} timed out after {deadline.secondsText}s"
  | compilationFailure path message => s!"Compilation on {path} failed: {message}"
  | notTrained directory => s!"No trained model found in {directory}"
  | sizeMismatch expected actual =>
    s!"Feature vector size mismatch: expected {expected}, found {actual}"
  | allPathsUnavailable id => s!"All compilation paths unavailable for circuit {id}"
  | invalidModel reason => s!"Invalid model: {reason}"
  | config reason | configText reason => s!"Configuration error: {reason}"
  | device cause => s!"Backend error: {cause.message}"
  | scoring cause => cause.message
  | circuit cause => s!"Circuit error: {cause.message}"
  | storage fault => s!"I/O error: {fault.message}"
  | document cause => s!"Serialization error: {cause.message}"

end SelectionError

end PathSelection
