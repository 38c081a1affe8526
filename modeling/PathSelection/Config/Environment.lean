import PathSelection.Config.Basic
import PathSelection.Number.Numeral

/-!
# Environments

The layer of a configuration that variables of the environment make.  A value
that cannot be read counts as absent, and its variable is reported.

Main result:

- Theorem `ConfigLayer.rejected_eq`: the reported variables are those with a
  value that cannot be read, in a fixed order.
-/

namespace PathSelection

/-- The values of variables. -/
abbrev Environment := String → Option String

namespace Environment

/-- The environment of a list of variables, of which the first of a name counts. -/
def ofList (bindings : List (String × String)) : Environment := fun name => bindings.lookup name

end Environment

namespace ConfigLayer

/-- The variable of the time that a compiler may take. -/
def timeoutVariable : String := "QPATH_TIMEOUT"

/-- The variable of the scoring policy. -/
def scoringVariable : String := "QPATH_SCORING"

/-- The variable of the way of counting gates. -/
def countModeVariable : String := "QPATH_COUNT_MODE"

/-- A number of seconds. -/
def secondsOf? (text : String) : Option Nat := u64OfText? text

/-- The scoring policy of a name. -/
def scoringOf? (text : String) : Option ScoringPolicy := (ScoringPolicy.ofName text).toOption

/-- The way of counting gates of a name. -/
def countModeOf? (text : String) : Option CountMode := CountMode.names.lookup text

/-- What an environment says. -/
def ofEnvironment (e : Environment) : ConfigLayer where
  corpus := e "QPATH_CORPUS_DIR"
  compiled := e "QPATH_COMPILED_DIR"
  calibration := e "QPATH_CALIBRATION_DIR"
  model := e "QPATH_MODEL_DIR"
  dataset := e "QPATH_DATASET"
  timeout := (e timeoutVariable).bind secondsOf?
  scoring := (e scoringVariable).bind scoringOf?
  countMode := (e countModeVariable).bind countModeOf?
  qiskitProgram := e "QPATH_QISKIT_PROGRAM"
  tketProgram := e "QPATH_TKET_PROGRAM"

/-- Does a variable have a value that cannot be read? -/
def isRejected {β : Type} (read : String → Option β) (value : Option String) : Bool :=
  value.any fun text => (read text).isNone

/-- The variables with a value that cannot be read. -/
def rejected (e : Environment) : List String :=
  (if isRejected secondsOf? (e timeoutVariable) then [timeoutVariable] else [])
    ++ (if isRejected scoringOf? (e scoringVariable) then [scoringVariable] else [])
    ++ if isRejected countModeOf? (e countModeVariable) then [countModeVariable] else []

/-- The reported variables are those with a value that cannot be read, in a fixed order. -/
theorem rejected_eq (e : Environment) :
    rejected e =
      [timeoutVariable, scoringVariable, countModeVariable].filter fun v =>
        if v = timeoutVariable then isRejected secondsOf? (e v)
        else if v = scoringVariable then isRejected scoringOf? (e v)
        else isRejected countModeOf? (e v) := by
  have h1 : scoringVariable ≠ timeoutVariable := by decide
  have h2 : countModeVariable ≠ timeoutVariable := by decide
  have h3 : countModeVariable ≠ scoringVariable := by decide
  simp only [rejected, List.filter, h1, h2, h3, if_true, if_false]
  cases isRejected secondsOf? (e timeoutVariable) <;>
    cases isRejected scoringOf? (e scoringVariable) <;>
      cases isRejected countModeOf? (e countModeVariable) <;> rfl

end ConfigLayer

end PathSelection
