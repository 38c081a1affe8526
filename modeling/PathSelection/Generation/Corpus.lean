import PathSelection.Circuit.Document
import PathSelection.Error
import PathSelection.Generation.NaturalOrder
import PathSelection.Storage.Basic

/-!
# Corpora

A corpus is a directory of circuits, one in each file with the extension `json`.
-/

namespace PathSelection.Corpus

/-- Is a path name that of a circuit file? -/
def isCircuitFile (s : Storage) (path : String) : Bool :=
  s.isFile path && PathName.extension? path == some "json"

/-- The path names of the circuit files in a directory, in natural order. -/
def files (s : Storage) (directory : String) : Except SelectionError (List String) := do
  let names ← (s.list directory).mapError .storage
  return naturalSort ((names.map (PathName.join directory)).filter (isCircuitFile s))

/-- The id of the circuit in a file. -/
def circuitId (path : String) : String := (PathName.stem? path).getD ""

/-- The circuit in a file. -/
def readCircuit (s : Storage) (path : String) : Except SelectionError Circuit := do
  let text ← (s.read path).mapError .storage
  (Circuit.ofText text).mapError .circuit

end PathSelection.Corpus
