import PathSelection.Yaml.Scalar

/-!
# YAML tokens

A text is cut into tokens.  Where the indentation of lines makes a structure,
tokens for its start and its end are put in; what turns out to be the key of a
mapping by the colon behind it gets its token afterwards.
-/

namespace PathSelection.Yaml

/-- How a scalar is written. -/
inductive ScalarStyle where
  | plain
  | quoted
  | literal
  | folded
  deriving DecidableEq, Repr

/-- A lexical unit of a document. -/
inductive Token where
  | versionDirective (major minor : Nat)
  | tagDirective (handle root : String)
  | documentStart
  | documentEnd
  | blockSequenceStart
  | blockMappingStart
  | blockEnd
  | flowSequenceStart
  | flowSequenceEnd
  | flowMappingStart
  | flowMappingEnd
  | blockEntry
  | flowEntry
  | key
  | value
  | alias (name : String)
  | anchor (name : String)
  | tag (handle suffix : String)
  | scalar (style : ScalarStyle) (text : String)
  deriving DecidableEq, Repr

/-! ## Scanners -/

/-- A place at which a key may have started. -/
structure KeyCandidate where
  /-- the number of tokens in front of it -/
  position : Nat
  line : Nat
  column : Nat
  /-- nothing but a key may start there -/
  isRequired : Bool
  deriving DecidableEq, Repr

/-- A text that is cut into tokens. -/
structure Scanner where
  source : Source
  /-- in reverse -/
  tokens : List Token
  /-- the columns of the open block structures, the innermost first -/
  columns : List Nat
  /-- may a key start here? -/
  keyAllowed : Bool
  /-- the place at which a key may have started in the innermost collection in brackets -/
  candidate : Option KeyCandidate
  /-- the same for the collections around it -/
  enclosing : List (Option KeyCandidate)

namespace Scanner

/-- A scanner at the start of a text. -/
def ofSource (s : Source) : Scanner := ⟨s, [], [], true, none, []⟩

/-- Are we inside brackets? -/
def inFlow (s : Scanner) : Bool := !s.enclosing.isEmpty

/-- The least column of what is inside the innermost block structure. -/
def margin (s : Scanner) : Nat :=
  match s.columns with
  | n :: _ => n + 1
  | [] => 0

/-- Adds a token. -/
def push (s : Scanner) (t : Token) : Scanner := { s with tokens := t :: s.tokens }

/-- Adds a token behind a number of others. -/
def insertAt (s : Scanner) (position : Nat) (t : Token) : Scanner :=
  { s with tokens := s.tokens.insertIdx (s.tokens.length - position) t }

/-! ## Block structures -/

/-- Opens a block structure at a column, if the innermost one is further left. -/
def openBlock (s : Scanner) (column position : Nat) (start : Token) : Scanner :=
  if !s.inFlow && s.margin ≤ column then
    { s.insertAt position start with columns := column :: s.columns }
  else s

/-- Closes all block structures right of a column. -/
def closeBlocksFrom (column : Nat) : List Nat → List Token → List Nat × List Token
  | [], tokens => ([], tokens)
  | n :: ns, tokens =>
    if column < n then closeBlocksFrom column ns (.blockEnd :: tokens) else (n :: ns, tokens)

/-- Closes the block structures in which a column does not lie. -/
def closeBlocks (s : Scanner) (column : Nat) : Scanner :=
  if s.inFlow then s
  else
    let (columns, tokens) := closeBlocksFrom column s.columns s.tokens
    { s with columns := columns, tokens := tokens }

/-- Closes all block structures. -/
def closeAllBlocks (s : Scanner) : Scanner :=
  if s.inFlow then s
  else { s with columns := [], tokens := List.replicate s.columns.length .blockEnd ++ s.tokens }

/-! ## Keys -/

/-- The longest distance between the start of a key and its colon. -/
def keyLimit : Nat := 1024

/-- Forgets a place at which a key may have started. -/
def dropCandidate (s : Scanner) : Except String Scanner :=
  match s.candidate with
  | some k =>
    if k.isRequired then .error "could not find expected ':'" else .ok { s with candidate := none }
  | none => .ok s

/-- Takes the place at which the next token starts as one at which a key may start. -/
def saveCandidate (s : Scanner) (l : Located) : Except String Scanner :=
  if s.keyAllowed then do
    let s ← s.dropCandidate
    let required := !s.inFlow && s.columns.head? == some l.column
    return { s with candidate := some ⟨s.tokens.length, l.line, l.column, required⟩ }
  else .ok s

/-- A place at which a key may still have started, seen from another place. -/
def fresh (l : Located) : Option KeyCandidate → Except String (Option KeyCandidate)
  | some k =>
    if k.line < l.line ∨ k.column + keyLimit < l.column then
      if k.isRequired then .error "could not find expected ':'" else .ok none
    else .ok (some k)
  | none => .ok none

/-- Forgets the places that are too far away for a key to have started there. -/
def dropStale (s : Scanner) (l : Located) : Except String Scanner := do
  let candidate ← fresh l s.candidate
  let enclosing ← s.enclosing.mapM (fresh l)
  return { s with candidate := candidate, enclosing := enclosing }

/-! ## Between tokens -/

/-- The text behind blanks, comments and ends of lines, and whether a key may start there. -/
def skipFrom (flow : Bool) : Bool → Bool → Source → Bool × Source
  | allowed, _, [] => (allowed, [])
  | allowed, comment, s@(l :: ls) =>
    if isBreak l.char then skipFrom flow (allowed || !flow) false ls
    else if comment then skipFrom flow allowed true ls
    else if l.char = ' ' ∨ (l.char = '\t' ∧ (flow || !allowed)) then skipFrom flow allowed false ls
    else if l.char = '#' then skipFrom flow allowed true ls
    else if l.char = byteOrderMark ∧ l.column = 0 then skipFrom flow allowed false ls
    else (allowed, s)

/-- The scanner in front of the next token. -/
def skip (s : Scanner) : Scanner :=
  let (allowed, source) := skipFrom s.inFlow s.keyAllowed false s.source
  { s with keyAllowed := allowed, source := source }

/-! ## Tokens of one sign -/

/-- The start of a collection in brackets. -/
def openFlow (s : Scanner) (l : Located) (rest : Source) (t : Token) : Except String Scanner := do
  let s ← s.saveCandidate l
  return { s.push t with
    source := rest, keyAllowed := true, candidate := none, enclosing := s.candidate :: s.enclosing }

/-- The end of a collection in brackets. -/
def closeFlow (s : Scanner) (rest : Source) (t : Token) : Except String Scanner := do
  let s ← s.dropCandidate
  let s := { s.push t with source := rest, keyAllowed := false }
  match s.enclosing with
  | k :: ks => return { s with candidate := k, enclosing := ks }
  | [] => return s

/-- A comma. -/
def flowEntry (s : Scanner) (rest : Source) : Except String Scanner := do
  let s ← s.dropCandidate
  return { s.push .flowEntry with source := rest, keyAllowed := true }

/-- The dash of an item. -/
def blockEntry (s : Scanner) (l : Located) (rest : Source) : Except String Scanner := do
  if !s.inFlow && !s.keyAllowed then
    throw "block sequence entries are not allowed in this context"
  let s := s.openBlock l.column s.tokens.length .blockSequenceStart
  let s ← s.dropCandidate
  return { s.push .blockEntry with source := rest, keyAllowed := true }

/-- A question mark in front of a key. -/
def explicitKey (s : Scanner) (l : Located) (rest : Source) : Except String Scanner := do
  if !s.inFlow && !s.keyAllowed then throw "mapping keys are not allowed in this context"
  let s := s.openBlock l.column s.tokens.length .blockMappingStart
  let s ← s.dropCandidate
  return { s.push .key with source := rest, keyAllowed := !s.inFlow }

/-- The colon behind a key. -/
def value (s : Scanner) (l : Located) (rest : Source) : Except String Scanner := do
  match s.candidate with
  | some k =>
    let s := (s.insertAt k.position .key).openBlock k.column k.position .blockMappingStart
    return { s.push .value with source := rest, keyAllowed := false, candidate := none }
  | none =>
    if !s.inFlow && !s.keyAllowed then throw "mapping values are not allowed in this context"
    let s := s.openBlock l.column s.tokens.length .blockMappingStart
    return { s.push .value with source := rest, keyAllowed := !s.inFlow }

/-! ## Anchors and tags -/

/-- The characters of a text for which a test holds, and the rest. -/
def takeWhile (p : Char → Bool) (s : Source) : List Char × Source :=
  ((s.takeWhile (p ·.char)).map (·.char), s.dropWhile (p ·.char))

/-- An anchor or an alias. -/
def named (s : Scanner) (l : Located) (rest : Source) (t : String → Token) :
    Except String Scanner := do
  let s ← s.saveCandidate l
  let (name, rest) := takeWhile isNameChar rest
  let ends := blankAt rest 0 || "?:,]\x7d%@`".toList.any (charAt rest 0)
  if name.isEmpty || !ends then
    throw "did not find expected alphabetic or numeric character"
  return { s.push (t (String.ofList name)) with source := rest, keyAllowed := false }

/-- May a character stand in a tag? -/
def isTagChar (c : Char) : Bool := isNameChar c || "-;/?:@&=+$.~*'()%".toList.contains c

/-- A tag: in angle brackets, or a handle and a suffix. -/
def readTag (rest : Source) : Except String (Token × Source) := do
  if charAt rest 0 '<' then
    let (name, rest) :=
      takeWhile (fun c => isTagChar c || c == '!' || isFlowIndicator c) (rest.drop 1)
    if name.isEmpty || !charAt rest 0 '>' then throw "did not find the expected '>'"
    return (.tag "" (String.ofList name), rest.drop 1)
  let (name, behind) := takeWhile isNameChar rest
  if charAt behind 0 '!' then
    let (suffix, rest) := takeWhile (fun c => isTagChar c || c == '!') (behind.drop 1)
    if suffix.isEmpty then throw "did not find expected tag URI"
    return (.tag ("!" ++ String.ofList name ++ "!") (String.ofList suffix), rest)
  let (suffix, rest) := takeWhile (fun c => isTagChar c || c == '!') rest
  return (.tag "!" (String.ofList suffix), rest)

/-- A tag in its context. -/
def tagged (s : Scanner) (l : Located) (rest : Source) : Except String Scanner := do
  let s ← s.saveCandidate l
  let (t, rest) ← readTag rest
  if !blankAt rest 0 && !(s.inFlow && charAt rest 0 ',') then
    throw "did not find expected whitespace or line break"
  return { s.push t with source := rest, keyAllowed := false }

/-! ## Scalars -/

/-- A plain or quoted scalar. -/
def flowScalar (s : Scanner) (l : Located) (style : ScalarStyle)
    (read : Except String ReadScalar) : Except String Scanner := do
  let s ← s.saveCandidate l
  let r ← read
  return { s.push (.scalar style (String.ofList r.text)) with
    source := r.rest, keyAllowed := r.broken }

/-- The signs behind the sign of a block scalar, in either order. -/
def blockSigns : List Char → Except String (Chomping × Option Nat)
  | [] => .ok (.clip, none)
  | [c] =>
    if c = '+' then .ok (.keep, none)
    else if c = '-' then .ok (.strip, none)
    else digit .clip c
  | [c, d] =>
    if c = '+' then digit .keep d
    else if c = '-' then digit .strip d
    else if d = '+' then digit .keep c
    else if d = '-' then digit .strip c
    else .error "did not find expected comment or line break"
  | _ => .error "did not find expected comment or line break"
where
  /-- An indentation of one digit, which is not zero. -/
  digit (chomping : Chomping) (c : Char) : Except String (Chomping × Option Nat) :=
    if '1' ≤ c ∧ c ≤ '9' then .ok (chomping, some (c.toNat - 48))
    else .error "found an indentation indicator equal to 0"

/-- A block scalar. -/
def blockScalar (s : Scanner) (folded : Bool) (rest : Source) : Except String Scanner := do
  let s ← s.dropCandidate
  let (signs, rest) := takeWhile (fun c => c.isDigit || c == '+' || c == '-') rest
  let (chomping, increment) ← blockSigns signs
  let (_, rest) := takeWhile isBlank rest
  let rest := if charAt rest 0 '#' then (takeWhile (fun c => !isBreak c) rest).2 else rest
  let rest ← match rest with
    | [] => pure []
    | l :: ls =>
      if isBreak l.char then pure ls else throw "did not find expected comment or line break"
  let column := increment.map fun n => s.margin - 1 + n
  let r ← blockFrom ⟨folded, chomping, increment⟩ s.margin column 0 false ⟨[], [], [], false⟩ rest
  let style : ScalarStyle := if folded then .folded else .literal
  return { s.push (.scalar style (String.ofList r.text)) with source := r.rest, keyAllowed := true }

/-- May a plain scalar start at the start of a text? -/
def plainStarts (flow : Bool) (s : Source) : Bool :=
  match s with
  | [] => false
  | l :: _ =>
    !(blankAt s 0 || "-?:,[]\x7b\x7d#&*!|>'\"%@`".toList.contains l.char)
      || (l.char == '-' && !(charAt s 1 ' ' || charAt s 1 '\t'))
      || (!flow && (l.char == '?' || l.char == ':') && !blankAt s 1)

/-! ## Documents -/

/-- The mark of the start or the end of a document. -/
def documentMark (s : Scanner) (t : Token) : Except String Scanner := do
  let s ← s.closeAllBlocks.dropCandidate
  return { s.push t with source := s.source.drop 3, keyAllowed := false }

/-- The two numbers of a version, with a point between them. -/
def version? (word : List Char) : Option (Nat × Nat) := do
  let major := word.takeWhile (·.isDigit)
  let minor ← (word.dropWhile (·.isDigit)).tail?
  guard ((word.dropWhile (·.isDigit)).head? = some '.' ∧ major.length < 10 ∧ minor.length < 10)
  return (← (String.ofList major).toNat?, ← (String.ofList minor).toNat?)

/-- The token of a directive. -/
def directiveToken (words : List (List Char)) : Except String Token :=
  match words with
  | [['Y', 'A', 'M', 'L'], version] =>
    match version? version with
    | some (major, minor) => .ok (.versionDirective major minor)
    | none => .error "did not find expected version number"
  | [['T', 'A', 'G'], handle, root] =>
    .ok (.tagDirective (String.ofList handle) (String.ofList root))
  | _ => .error "found unknown directive name"

/-- A directive: a line of words. -/
def directive (s : Scanner) (rest : Source) : Except String Scanner := do
  let s ← s.closeAllBlocks.dropCandidate
  let (line, rest) := takeWhile (fun c => !isBreak c) rest
  let words := (line.splitBy (fun a b => isBlank a == isBlank b)).filter fun w => !w.all isBlank
  let words := words.takeWhile fun w => w.head? != some '#'
  let t ← directiveToken words
  return { s.push t with source := rest, keyAllowed := false }

/-! ## All tokens -/

/-- Reads the token at the start of what is left, which is not empty. -/
def next (s : Scanner) (l : Located) (rest : Source) : Except String Scanner :=
  let flow := s.inFlow
  let blankNext := blankAt rest 0
  if l.column = 0 ∧ l.char = '%' then s.directive rest
  else if atDocumentMark s.source '-' then s.documentMark .documentStart
  else if atDocumentMark s.source '.' then s.documentMark .documentEnd
  else if l.char = '[' then s.openFlow l rest .flowSequenceStart
  else if l.char = '\x7b' then s.openFlow l rest .flowMappingStart
  else if l.char = ']' then s.closeFlow rest .flowSequenceEnd
  else if l.char = '\x7d' then s.closeFlow rest .flowMappingEnd
  else if l.char = ',' then s.flowEntry rest
  else if l.char = '-' ∧ blankNext then s.blockEntry l rest
  else if l.char = '?' ∧ (flow || blankNext) then s.explicitKey l rest
  else if l.char = ':' ∧ (flow || blankNext) then s.value l rest
  else if l.char = '*' then s.named l rest .alias
  else if l.char = '&' then s.named l rest .anchor
  else if l.char = '!' then s.tagged l rest
  else if l.char = '|' ∧ !flow then s.blockScalar false rest
  else if l.char = '>' ∧ !flow then s.blockScalar true rest
  else if l.char = '\'' then s.flowScalar l .quoted (singleQuotedFrom [] .none rest)
  else if l.char = '"' then s.flowScalar l .quoted (doubleQuotedFrom .outside [] .none rest)
  else if plainStarts flow s.source then
    s.flowScalar l .plain (plainFrom flow s.margin [] .none s.source)
  else .error "found character that cannot start any token"

/-- Reads tokens to the end of the text. -/
def run : Nat → Scanner → Except String Scanner
  | 0, s => .ok s
  | fuel + 1, s =>
    let s := s.skip
    match s.source with
    | [] => s.closeAllBlocks.dropCandidate
    | l :: rest => do
      let s ← s.dropStale l
      let s := s.closeBlocks l.column
      run fuel (← s.next l rest)

end Scanner

/-- The tokens of a text.  Every token takes a character, so the length of the text bounds their
number. -/
def tokensOf (text : String) : Except String (List Token) := do
  let source ← Source.ofText text
  let s ← Scanner.run (source.length + 1) (Scanner.ofSource source)
  return s.tokens.reverse

end PathSelection.Yaml
