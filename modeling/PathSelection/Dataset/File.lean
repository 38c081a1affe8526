import PathSelection.Dataset.Example
import PathSelection.Json.Writer
import PathSelection.Storage.Basic
import PathSelection.Text.Blank

/-!
# Dataset files

A dataset is a file with one example a line.  Lines that are blank mean nothing.
-/

namespace PathSelection.Dataset

variable {α : Type} [Scalar α]

/-- The line of an example. -/
def line (e : TrainingExample α) : String := e.toJson.compactText ++ "\n"

/-- The lines of a text that are not blank. -/
def filledLines (text : String) : List String :=
  ((linesOf text.toList).filter fun l => !(trimChars l).isEmpty).map String.ofList

/-- The examples in a text. -/
def ofText (text : String) : Except SelectionError (List (TrainingExample α)) :=
  (filledLines text).mapM fun l => (Json.parse TrainingExample.decoder l).mapError .document

/-- The storage with one more example at the end of a dataset, whose directory is made if needed. -/
def append (s : Storage) (path : String) (e : TrainingExample α) :
    Except SelectionError Storage := do
  let s ← match PathName.parent? path with
    | some directory => (s.createDirectories directory).mapError .storage
    | none => .ok s
  (s.append path (line e)).mapError .storage

/-- The examples of a dataset. -/
def load (s : Storage) (path : String) : Except SelectionError (List (TrainingExample α)) := do
  let text ← (s.read path).mapError .storage
  ofText text

/-- The circuits that a dataset has examples of; a dataset that is not there has none. -/
def labelledIds (s : Storage) (path : String) : Except SelectionError (List String) := do
  if ← (s.exists? path).mapError .storage then
    let examples : List (TrainingExample Float) ← load s path
    return examples.map (·.circuitId)
  else return []

end PathSelection.Dataset
