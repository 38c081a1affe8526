import PathSelection.Yaml.Source

/-!
# Scalars of YAML documents

The texts of plain, quoted and block scalars.  Inside plain and quoted scalars a
single end of a line counts as a space and more of them as one less; what stands
between two parts of such a scalar is its gap.
-/

namespace PathSelection.Yaml

/-! ## Gaps -/

/-- What stands between two parts of a scalar; the characters are in reverse. -/
inductive Gap where
  | none
  | blanks (chars : List Char)
  /-- the first end of a line, unless it was escaped, and those after it -/
  | breaks (first : Option Char) (more : List Char)
  deriving DecidableEq, Repr

namespace Gap

/-- The gap with one more blank. -/
def pushBlank (c : Char) : Gap → Gap
  | none => blanks [c]
  | blanks cs => blanks (c :: cs)
  | g@(breaks _ _) => g

/-- The gap with one more end of a line. -/
def pushBreak (c : Char) : Gap → Gap
  | breaks first more => breaks first (c :: more)
  | _ => breaks (some c) []

/-- Is there an end of a line in a gap? -/
def isBroken : Gap → Bool
  | breaks _ _ => true
  | _ => false

/-- A text in reverse with what a gap means. -/
def onto (text : List Char) : Gap → List Char
  | none => text
  | blanks cs => cs ++ text
  | breaks (some '\n') [] => ' ' :: text
  | breaks (some '\n') more => more ++ text
  | breaks (some c) more => more ++ c :: text
  | breaks .none more => more ++ text

end Gap

/-- A scalar that was read and what is left of the text. -/
structure ReadScalar where
  text : List Char
  /-- an end of a line was read behind the scalar -/
  broken : Bool
  rest : Source

/-! ## Plain scalars -/

/-- Does a plain scalar end in front of a character that is no blank, at the start of a text? -/
def plainEnds (flow : Bool) (margin : Nat) (gap : Gap) (s : Source) : Bool :=
  match s with
  | [] => true
  | l :: _ =>
    (gap != .none && (l.char == '#' || atAnyDocumentMark s || (!flow && l.column < margin)))
      || (l.char == ':' && blankAt s 1) || (flow && isFlowIndicator l.char)

/-- Is there a colon that may not stand in a plain scalar? -/
def strayColon (flow : Bool) (s : Source) : Bool :=
  flow && charAt s 0 ':' &&
    match s[1]? with
    | some l => isFlowIndicator l.char || l.char == '?'
    | none => false

/-- The rest of a plain scalar whose lines must not start left of a margin. -/
def plainFrom (flow : Bool) (margin : Nat) : List Char → Gap → Source → Except String ReadScalar
  | text, gap, [] => .ok ⟨text.reverse, gap.isBroken, []⟩
  | text, gap, s@(l :: ls) =>
    if isBlank l.char then
      if gap.isBroken && l.char == '\t' && l.column < margin then
        .error "found a tab character that violates indentation"
      else plainFrom flow margin text (gap.pushBlank l.char) ls
    else if isBreak l.char then plainFrom flow margin text (gap.pushBreak l.char) ls
    else if plainEnds flow margin gap s then .ok ⟨text.reverse, gap.isBroken, s⟩
    else if strayColon flow s then .error "found unexpected ':'"
    else plainFrom flow margin (l.char :: gap.onto text) .none ls

/-! ## Quoted scalars -/

/-- The rest of a scalar in single quotes; a quote in it is written twice. -/
def singleQuotedFrom : List Char → Gap → Source → Except String ReadScalar
  | _, _, [] => .error "found unexpected end of stream"
  | text, gap, s@(l :: ls) =>
    if isBlank l.char then singleQuotedFrom text (gap.pushBlank l.char) ls
    else if isBreak l.char then singleQuotedFrom text (gap.pushBreak l.char) ls
    else if atAnyDocumentMark s then .error "found unexpected document indicator"
    else if l.char = '\'' then
      match ls with
      | m :: ms =>
        if m.char = '\'' then singleQuotedFrom ('\'' :: gap.onto text) .none ms
        else .ok ⟨(gap.onto text).reverse, false, ls⟩
      | [] => .ok ⟨(gap.onto text).reverse, false, []⟩
    else singleQuotedFrom (l.char :: gap.onto text) .none ls

/-- What an escape of one character means. -/
def escapeMeaning? (c : Char) : Option Char :=
  [('0', 0), ('a', 7), ('b', 8), ('t', 9), ('\t', 9), ('n', 10), ('v', 11), ('f', 12), ('r', 13),
    ('e', 27), (' ', 32), ('"', 34), ('/', 47), ('\\', 92), ('N', 0x85), ('_', 0xA0),
    ('L', 0x2028), ('P', 0x2029)].lookup c |>.map Char.ofNat

/-- The number of hexadecimal digits of an escape. -/
def escapeLength? (c : Char) : Option Nat := [('x', 2), ('u', 4), ('U', 8)].lookup c

/-- The value of a hexadecimal digit. -/
def hexValue? (c : Char) : Option Nat :=
  if '0' ≤ c ∧ c ≤ '9' then some (c.toNat - 48)
  else if 'a' ≤ c ∧ c ≤ 'f' then some (c.toNat - 87)
  else if 'A' ≤ c ∧ c ≤ 'F' then some (c.toNat - 55)
  else none

/-- Where reading stands with respect to escapes. -/
inductive EscapeStage where
  | outside
  /-- behind a backslash -/
  | started
  /-- so many digits are to come -/
  | digits (left value : Nat)
  deriving DecidableEq, Repr

/-- The rest of a scalar in double quotes. -/
def doubleQuotedFrom : EscapeStage → List Char → Gap → Source → Except String ReadScalar
  | _, _, _, [] => .error "found unexpected end of stream"
  | .started, text, gap, l :: ls =>
    if isBreak l.char then doubleQuotedFrom .outside (gap.onto text) (.breaks none []) ls
    else match escapeMeaning? l.char, escapeLength? l.char with
      | some c, _ => doubleQuotedFrom .outside (c :: gap.onto text) .none ls
      | none, some n => doubleQuotedFrom (.digits n 0) (gap.onto text) .none ls
      | none, none => .error "found unknown escape character"
  | .digits left value, text, gap, l :: ls =>
    match hexValue? l.char with
    | none => .error "did not find expected hexdecimal number"
    | some d =>
      let value := 16 * value + d
      if 1 < left then doubleQuotedFrom (.digits (left - 1) value) text gap ls
      else if value.isValidChar then doubleQuotedFrom .outside (Char.ofNat value :: text) .none ls
      else .error "found invalid Unicode character escape code"
  | .outside, text, gap, s@(l :: ls) =>
    if isBlank l.char then doubleQuotedFrom .outside text (gap.pushBlank l.char) ls
    else if isBreak l.char then doubleQuotedFrom .outside text (gap.pushBreak l.char) ls
    else if atAnyDocumentMark s then .error "found unexpected document indicator"
    else if l.char = '\\' then doubleQuotedFrom .started text gap ls
    else if l.char = '"' then .ok ⟨(gap.onto text).reverse, false, ls⟩
    else doubleQuotedFrom .outside (l.char :: gap.onto text) .none ls

/-! ## Block scalars -/

/-- What becomes of the ends of lines at the end of a block scalar. -/
inductive Chomping where
  | strip
  | clip
  | keep
  deriving DecidableEq, Repr

/-- The first line of a block scalar. -/
structure BlockHeader where
  folded : Bool
  chomping : Chomping
  /-- the columns by which its lines are indented, if that is said -/
  increment : Option Nat
  deriving DecidableEq, Repr

/-- A block scalar of which more may come; the characters are in reverse. -/
structure BlockDraft where
  text : List Char
  /-- the end of the last line with a text -/
  lineEnd : List Char
  /-- the ends of empty lines after it -/
  emptyLines : List Char
  /-- the last line with a text starts with a blank -/
  blankStart : Bool
  deriving DecidableEq, Repr

namespace BlockDraft

/-- The draft at the start of a line with a text. -/
def startLine (folded : Bool) (d : BlockDraft) (c : Char) : BlockDraft :=
  let joined := folded && d.lineEnd == ['\n'] && !d.blankStart && !isBlank c
  let text :=
    if joined then if d.emptyLines.isEmpty then ' ' :: d.text else d.text
    else d.lineEnd ++ d.text
  ⟨c :: (d.emptyLines ++ text), [], [], isBlank c⟩

/-- The text of a block scalar that is complete. -/
def finish (chomping : Chomping) (d : BlockDraft) : List Char :=
  match chomping with
  | .strip => d.text.reverse
  | .clip => (d.lineEnd ++ d.text).reverse
  | .keep => (d.emptyLines ++ d.lineEnd ++ d.text).reverse

end BlockDraft

/-- The rest of a block scalar.  Its column is said or found at the first line with a text, where
it is that of the longest start of a line so far but at least `margin`. -/
def blockFrom (header : BlockHeader) (margin : Nat) :
    Option Nat → Nat → Bool → BlockDraft → Source → Except String ReadScalar
  | _, _, _, d, [] => .ok ⟨d.finish header.chomping, false, []⟩
  | column, widest, true, d, l :: ls =>
    if isBreak l.char then
      blockFrom header margin column widest false { d with lineEnd := [l.char] } ls
    else blockFrom header margin column widest true { d with text := l.char :: d.text } ls
  | column, widest, false, d, s@(l :: ls) =>
    let outside := column.all fun n => decide (l.column < n)
    if l.char = ' ' ∧ outside then
      blockFrom header margin column (max widest (l.column + 1)) false d ls
    else if l.char = '\t' ∧ outside then
      .error "found a tab character where an indentation space is expected"
    else if isBreak l.char then
      blockFrom header margin column (max widest l.column) false
        { d with emptyLines := l.char :: d.emptyLines } ls
    else
      let n := column.getD (max (max widest l.column) (max margin 1))
      if l.column = n then
        blockFrom header margin (some n) widest true (d.startLine header.folded l.char) ls
      else .ok ⟨d.finish header.chomping, false, s⟩

end PathSelection.Yaml
