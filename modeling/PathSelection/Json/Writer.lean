import PathSelection.Json.Value
import PathSelection.Text.Quoted

/-!
# Writing JSON

Two layouts: compact, on one line without blanks, and indented, two blanks a
level and one item or field a line.
-/

namespace PathSelection.Json

/-- A character as it stands inside a text. -/
def escapeChar (c : Char) : List Char :=
  if c = '"' then ['\\', '"']
  else if c = '\\' then ['\\', '\\']
  else if c = '\x08' then ['\\', 'b']
  else if c = '\x0c' then ['\\', 'f']
  else if c = '\n' then ['\\', 'n']
  else if c = '\r' then ['\\', 'r']
  else if c = '\t' then ['\\', 't']
  else if c.toNat < 0x20 then
    ['\\', 'u', '0', '0', hexDigit (c.toNat / 16), hexDigit (c.toNat % 16)]
  else [c]

/-- A text between quotes; one that spells none is written as half a surrogate pair. -/
def writeText : Option String → List Char
  | some s => '"' :: s.toList.flatMap escapeChar ++ ['"']
  | none => ['"', '\\', 'u', 'd', '8', '0', '0', '"']

/-- The word for a truth value. -/
def writeBool (b : Bool) : List Char :=
  if b then ['t', 'r', 'u', 'e'] else ['f', 'a', 'l', 's', 'e']

/-- The word for nothing. -/
def writeNull : List Char := ['n', 'u', 'l', 'l']

/-! ## Compact -/

mutual

/-- A document on one line. -/
def compact : Json → List Char
  | .null => writeNull
  | .bool b => writeBool b
  | .number n => n.text.toList
  | .string s => writeText s
  | .array items => '[' :: compactItems items ++ [']']
  | .object fields => '\x7b' :: compactFields fields ++ ['\x7d']
termination_by structural v => v

/-- Items with commas between them. -/
def compactItems : List Json → List Char
  | [] => []
  | v :: vs => compact v ++ (if vs.isEmpty then [] else ',' :: compactItems vs)
termination_by structural vs => vs

/-- Fields with commas between them. -/
def compactFields : List (Option String × Json) → List Char
  | [] => []
  | (key, v) :: fields =>
    writeText key ++ ':' :: compact v
      ++ (if fields.isEmpty then [] else ',' :: compactFields fields)
termination_by structural fields => fields

end

/-! ## Indented -/

/-- A line break and the blanks of a level. -/
def newLine (level : Nat) : List Char := '\n' :: List.replicate (2 * level) ' '

mutual

/-- A document on many lines; an empty list or object stays on its line. -/
def indented (level : Nat) : Json → List Char
  | .null => writeNull
  | .bool b => writeBool b
  | .number n => n.text.toList
  | .string s => writeText s
  | .array items =>
    if items.isEmpty then ['[', ']']
    else '[' :: indentedItems (level + 1) items ++ newLine level ++ [']']
  | .object fields =>
    if fields.isEmpty then ['\x7b', '\x7d']
    else '\x7b' :: indentedFields (level + 1) fields ++ newLine level ++ ['\x7d']
termination_by structural v => v

/-- Items on lines of their own. -/
def indentedItems (level : Nat) : List Json → List Char
  | [] => []
  | v :: vs =>
    newLine level ++ indented level v
      ++ (if vs.isEmpty then [] else ',' :: indentedItems level vs)
termination_by structural vs => vs

/-- Fields on lines of their own. -/
def indentedFields (level : Nat) : List (Option String × Json) → List Char
  | [] => []
  | (key, v) :: fields =>
    newLine level ++ writeText key ++ [':', ' '] ++ indented level v
      ++ (if fields.isEmpty then [] else ',' :: indentedFields level fields)
termination_by structural fields => fields

end

/-- The compact text of a document. -/
def compactText (v : Json) : String := String.ofList v.compact

/-- The indented text of a document. -/
def indentedText (v : Json) : String := String.ofList (v.indented 0)

end PathSelection.Json
