/-!
# Lines and pieces of a text

Main result:

- Theorem `joinWith_splitOnChar`: the pieces of a text, joined again, are the
  text.
-/

namespace PathSelection

/-- Pieces with one more character in front: a separator opens a new piece. -/
def consPiece (sep c : Char) (pieces : List (List Char)) : List (List Char) :=
  if c = sep then [] :: pieces
  else match pieces with
    | [] => [[c]]
    | piece :: pieces => (c :: piece) :: pieces

/-- The pieces of a text between occurrences of a character; there is always at least one. -/
def splitOnChar (sep : Char) (cs : List Char) : List (List Char) :=
  cs.foldr (consPiece sep) [[]]

/-- Pieces joined by a character. -/
def joinWith (sep : Char) : List (List Char) → List Char
  | [] => []
  | [piece] => piece
  | piece :: pieces => piece ++ sep :: joinWith sep pieces

@[simp]
theorem splitOnChar_nil (sep : Char) : splitOnChar sep [] = [[]] := rfl

/-- There is always a first piece. -/
theorem splitOnChar_ne_nil (sep : Char) (cs : List Char) : splitOnChar sep cs ≠ [] := by
  cases cs with
  | nil => simp [splitOnChar]
  | cons c cs =>
    simp only [splitOnChar, List.foldr_cons, consPiece]
    split
    · simp
    · split <;> simp

/-- The pieces of a text, joined again, are the text. -/
theorem joinWith_splitOnChar (sep : Char) (cs : List Char) :
    joinWith sep (splitOnChar sep cs) = cs := by
  induction cs with
  | nil => rfl
  | cons c cs ih =>
    have hcons : splitOnChar sep (c :: cs) = consPiece sep c (splitOnChar sep cs) := rfl
    rw [hcons]
    cases hs : splitOnChar sep cs with
    | nil => exact absurd hs (splitOnChar_ne_nil sep cs)
    | cons p ps =>
      rw [hs] at ih
      simp only [consPiece]
      split
      · rename_i h; simp [joinWith, ih, h]
      · cases ps <;> simp_all [joinWith]

/-- A line without the carriage return at its end. -/
def dropCarriageReturn (line : List Char) : List Char :=
  if line.getLast? = some '\r' then line.dropLast else line

/--
The lines of a text: a line feed ends a line, a carriage return before it goes
with it, and nothing after the last line feed is no line.
-/
def linesOf (cs : List Char) : List (List Char) :=
  match (splitOnChar '\n' cs).reverse with
  | [] => []
  | last :: ended =>
    (ended.reverse.map dropCarriageReturn) ++ (if last.isEmpty then [] else [last])

end PathSelection
