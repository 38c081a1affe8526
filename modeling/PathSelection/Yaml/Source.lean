import PathSelection.Text.Lines

/-!
# The text of a YAML document

Block structure hangs on lines and columns, so a text is read as a list of
characters that know where they stand.

Main result:

- Theorem `locateFrom_chars`: the places are added to the characters, which stay
  what they are.
-/

namespace PathSelection.Yaml

/-- A character and its place. -/
structure Located where
  char : Char
  line : Nat
  column : Nat
  deriving DecidableEq, Repr

/-- A text, or what is left of it. -/
abbrev Source := List Located

/-! ## Classes of characters -/

/-- Does a character end a line? -/
def isBreak (c : Char) : Bool := c == '\n' || c.toNat == 0x2028 || c.toNat == 0x2029

/-- Is a character a blank inside a line? -/
def isBlank (c : Char) : Bool := c == ' ' || c == '\t'

/-- The mark of byte order, which means nothing in a text. -/
def byteOrderMark : Char := Char.ofNat 0xFEFF

/-- May a character stand in a text? -/
def isPrintable (c : Char) : Bool :=
  let n := c.toNat
  n == 9 || n == 10 || n == 13 || (0x20 ≤ n && n ≤ 0x7E) || n == 0x85
    || (0xA0 ≤ n && n ≤ 0xFFFD) || 0x10000 ≤ n

/-- May a character stand in the name of an anchor? -/
def isNameChar (c : Char) : Bool := c.isAlphanum || c == '_' || c == '-'

/-- Does a character separate the items of collections in brackets? -/
def isFlowIndicator (c : Char) : Bool :=
  c == ',' || c == '[' || c == ']' || c == '\x7b' || c == '\x7d'

/-! ## Places -/

/-- Characters with all ways to end a line, but the two of Unicode, made one. -/
def unifyBreaks : List Char → List Char
  | [] => []
  | '\r' :: '\n' :: cs => '\n' :: unifyBreaks cs
  | c :: cs => (if c = '\r' ∨ c.toNat = 0x85 then '\n' else c) :: unifyBreaks cs

/-- The characters of a text with their places, from a place on. -/
def locateFrom : Nat → Nat → List Char → Source
  | _, _, [] => []
  | line, column, c :: cs =>
    ⟨c, line, column⟩
      :: if isBreak c then locateFrom (line + 1) 0 cs else locateFrom line (column + 1) cs

/-- The places are added to the characters, which stay what they are. -/
theorem locateFrom_chars (line column : Nat) (cs : List Char) :
    (locateFrom line column cs).map (·.char) = cs := by
  induction cs generalizing line column with
  | nil => rfl
  | cons c cs ih => by_cases h : isBreak c = true <;> simp [locateFrom, h, ih]

/-- A text with its places, if all its characters may stand in a text. -/
def Source.ofText (text : String) : Except String Source :=
  let cs := text.toList
  let cs := if cs.head? = some byteOrderMark then cs.drop 1 else cs
  if cs.all isPrintable then .ok (locateFrom 0 0 (unifyBreaks cs))
  else .error "control characters are not allowed"

/-! ## Looking ahead -/

/-- Is the character at a distance a blank, the end of a line or the end of the text? -/
def blankAt (s : Source) (n : Nat) : Bool :=
  match s[n]? with
  | some l => isBlank l.char || isBreak l.char
  | none => true

/-- Is the character at a distance a given one? -/
def charAt (s : Source) (n : Nat) (c : Char) : Bool := (s[n]?.map (·.char)) == some c

/-- Does a text go on with a mark of the start or the end of a document? -/
def atDocumentMark (s : Source) (c : Char) : Bool :=
  (s.head?.map (·.column)) == some 0 && charAt s 0 c && charAt s 1 c && charAt s 2 c && blankAt s 3

/-- Does a text go on with any mark of a document? -/
def atAnyDocumentMark (s : Source) : Bool := atDocumentMark s '-' || atDocumentMark s '.'

end PathSelection.Yaml
