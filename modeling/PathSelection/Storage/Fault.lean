import PathSelection.Number.Numeral

/-!
# Storage faults

Why a file or a directory cannot be used.
-/

namespace PathSelection

/-- A fault of storage. -/
inductive FileFault where
  | notFound
  | permissionDenied
  | exists
  | notADirectory
  | isADirectory
  | nameTooLong
  | notEmpty
  deriving DecidableEq, Repr

namespace FileFault

/-- The wording of a fault. -/
def reason : FileFault → String
  | notFound => "No such file or directory"
  | permissionDenied => "Permission denied"
  | .exists => "File exists"
  | notADirectory => "Not a directory"
  | isADirectory => "Is a directory"
  | nameTooLong => "File name too long"
  | notEmpty => "Directory not empty"

/-- The number of a fault. -/
def number : FileFault → Nat
  | notFound => 2
  | permissionDenied => 13
  | .exists => 17
  | notADirectory => 20
  | isADirectory => 21
  | nameTooLong => 36
  | notEmpty => 39

/-- The wording of a fault, with its number. -/
def message (f : FileFault) : String := s!"{f.reason} (os error {f.number})"

end FileFault

end PathSelection
