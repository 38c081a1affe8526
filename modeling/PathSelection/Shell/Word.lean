import PathSelection.Number.Numeral
import PathSelection.Text.Lines

/-!
# Words of shell scripts

A word is a list of pieces: characters, quoted or not, and parameters that are
replaced by their values.  A value that is not quoted is cut at its blanks.
-/

namespace PathSelection.Shell

/-- A piece of a word. -/
inductive Piece where
  | char (c : Char) (isQuoted : Bool)
  | parameter (name : String) (isQuoted : Bool)
  /-- quotes, which make a field even of nothing -/
  | quotes
  deriving DecidableEq, Repr

/-- A word of a script. -/
abbrev Word := List Piece

/-- The values of parameters; the positional ones are also given as a list. -/
structure Parameters where
  value : String → String
  positional : List String

/-- Is this a character at which values are cut into fields? -/
def isSeparator (c : Char) : Bool := c == ' ' || c == '\t' || c == '\n'

/-- Fields in reverse, and the one that more may be added to, if there is one. -/
structure FieldDraft where
  done : List String
  open? : Option (List Char)
  deriving DecidableEq, Repr

namespace FieldDraft

/-- No fields yet. -/
def empty : FieldDraft := ⟨[], none⟩

/-- Adds characters to the open field. -/
def add (d : FieldDraft) (cs : List Char) : FieldDraft :=
  { d with open? := some (d.open?.getD [] ++ cs) }

/-- Closes the open field. -/
def close (d : FieldDraft) : FieldDraft :=
  match d.open? with
  | some cs => ⟨String.ofList cs :: d.done, none⟩
  | none => d

/-- Adds a character of a value that is not quoted. -/
def addCut (d : FieldDraft) (c : Char) : FieldDraft :=
  if isSeparator c then d.close else d.add [c]

/-- Adds values of which each is a field of its own. -/
def addAll (d : FieldDraft) : List String → FieldDraft
  | [] => d
  | [v] => d.add v.toList
  | v :: vs => (d.add v.toList).close.addAll vs

/-- The fields. -/
def fields (d : FieldDraft) : List String := d.close.done.reverse

end FieldDraft

/-- The fields of a word with one more piece. -/
def expandPiece (ps : Parameters) (d : FieldDraft) : Piece → FieldDraft
  | .char c _ => d.add [c]
  | .quotes => d.add []
  | .parameter name isQuoted =>
    if name = "@" ∧ isQuoted then d.addAll ps.positional
    else
      let value := (ps.value name).toList
      if isQuoted then d.add value else value.foldl FieldDraft.addCut d

/-- The fields that a word stands for. -/
def expandWord (ps : Parameters) (w : Word) : List String :=
  (w.foldl (expandPiece ps) .empty).fields

/-- The text that a word stands for where it is not cut into fields. -/
def expandText (ps : Parameters) (w : Word) : String :=
  String.ofList (w.flatMap fun
    | .char c _ => [c]
    | .quotes => []
    | .parameter name _ => (ps.value name).toList)

end PathSelection.Shell
