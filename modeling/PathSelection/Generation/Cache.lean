import PathSelection.Circuit.Document
import PathSelection.Error
import PathSelection.Storage.Basic

/-!
# Artifact caches

A cache keeps compiled circuits in files of one directory, by the circuit and
the label of the path.  A file is written beside its place and renamed into it.
-/

namespace PathSelection

/-- A cache of compiled circuits. -/
structure ArtifactCache where
  directory : String
  deriving DecidableEq, Repr

namespace ArtifactCache

/-- The file name of a compiled circuit. -/
def fileName (id : String) (index : Nat) : String := s!"{id}_{index}.json"

/-- The path name of a compiled circuit. -/
def path (c : ArtifactCache) (id : String) (index : Nat) : String :=
  PathName.join c.directory (fileName id index)

/-- The path name under which a compiled circuit is written. -/
def draft (c : ArtifactCache) (id : String) (index : Nat) : String :=
  PathName.join c.directory (s!".{fileName id index}.tmp")

/-- Makes the directory of a cache. -/
def prepare (c : ArtifactCache) (s : Storage) : Except SelectionError Storage :=
  (s.createDirectories c.directory).mapError .storage

/-- The compiled circuit in a cache, if its file is there and is a circuit. -/
def load (c : ArtifactCache) (s : Storage) (id : String) (index : Nat) :
    Except SelectionError (Option Circuit) :=
  match s.read (c.path id index) with
  | .ok text => .ok (Circuit.ofText text).toOption
  | .error .notFound => .ok none
  | .error fault => .error (.storage fault)

/-- Puts a compiled circuit into a cache.  A draft that cannot be renamed stays. -/
def store (c : ArtifactCache) (s : Storage) (id : String) (index : Nat) (circuit : Circuit) :
    Except SelectionError Unit × Storage :=
  let (result, stored) := s.replace (c.draft id index) (c.path id index) circuit.toText
  (result.mapError .storage, stored)

/-- Is there a file for a compiled circuit?  A fault counts as no. -/
def contains (c : ArtifactCache) (s : Storage) (id : String) (index : Nat) : Bool :=
  match s.exists? (c.path id index) with
  | .ok b => b
  | .error _ => false

end ArtifactCache

end PathSelection
