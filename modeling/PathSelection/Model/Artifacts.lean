import PathSelection.Catalog
import PathSelection.Json.Writer
import PathSelection.Model.Loaded
import PathSelection.Storage.Basic

/-!
# Stored models

A stored model is two files in a directory, one for the classifier and one for
the mask.  Each is written beside its place and then renamed into it.
-/

namespace PathSelection.Model

/-- The file of the classifier. -/
def classifierFile : String := "classifier.json"

/-- The file of the mask. -/
def maskFile : String := "feature_mask.json"

/-- The path name of the classifier in a directory. -/
def classifierPath (directory : String) : String := PathName.join directory classifierFile

/-- The path name of the mask in a directory. -/
def maskPath (directory : String) : String := PathName.join directory maskFile

/-- Is there something at a path name?  A fault counts as no. -/
def isThere (s : Storage) (path : String) : Bool :=
  match s.exists? path with
  | .ok b => b
  | .error _ => false

/-- Are both files of a model there? -/
def isStored (s : Storage) (directory : String) : Bool :=
  isThere s (classifierPath directory) && isThere s (maskPath directory)

/-- The path name beside a file under which its text is written first. -/
def draft (path : String) : String := path ++ ".tmp"

variable {α : Type} [Scalar α]

/-- Stores the mask and then the classifier.  What was stored before a failure stays. -/
def save (s : Storage) (directory : String) (tree : DecisionTree α) (mask : FeatureMask) :
    Except SelectionError Unit × Storage :=
  let put (s : Storage) (path text : String) := s.replace (draft path) path text
  match s.createDirectories directory with
  | .error fault => (.error (.storage fault), s)
  | .ok made =>
    match put made (maskPath directory) mask.toJson.indentedText with
    | (.error fault, left) => (.error (.storage fault), left)
    | (.ok (), masked) =>
      let (result, stored) := put masked (classifierPath directory) tree.toJson.indentedText
      (result.mapError .storage, stored)

/-- The value of a document in a file. -/
def readDocument {β : Type} (s : Storage) (path : String) (decoder : Json.Decoder β) :
    Except SelectionError β := do
  let text ← (s.read path).mapError .storage
  (Json.parse decoder text).mapError .document

/-- The stored model of a directory, which must be valid. -/
def load (s : Storage) (directory : String) : Except SelectionError (Model α) := do
  if !isStored s directory then throw (.notTrained directory)
  let tree ← readDocument s (classifierPath directory) DecisionTree.decoder
  let mask ← readDocument s (maskPath directory) FeatureMask.decoder
  tree.validate CompilationPath.count
  ofParts tree mask

end PathSelection.Model
