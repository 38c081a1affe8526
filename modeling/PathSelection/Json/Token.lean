import PathSelection.Json.Value

/-!
# JSON tokens

A document text is cut into tokens by an automaton that reads one character at
a time.  A character that cannot continue the token at hand ends it; a fault
becomes the last token, so that the grammar decides whether the fault or the
place where it stands is reported.
-/

namespace PathSelection.Json

/-- A lexical unit of a document. -/
inductive Token where
  | openList
  | closeList
  | openObject
  | closeObject
  | comma
  | colon
  | null
  | bool (value : Bool)
  | number (numeral : Numeral)
  | text (content : Option String)
  /-- the rest of the document cannot be read -/
  | broken (fault : Fault)

/-! ## Numbers -/

/-- How far a number has been read. -/
inductive NumberStage where
  | sign
  | zero
  | whole
  | point
  | fraction
  | mark
  | markSign
  | exponent
  deriving DecidableEq, Repr

/-- A number of which more may come; the fraction is in reverse. -/
structure NumberDraft where
  stage : NumberStage
  negative : Bool
  whole : Nat
  fraction : List Digit
  exponentNegative : Bool
  exponent : Nat
  deriving DecidableEq, Repr

namespace NumberDraft

/-- Is the number complete if nothing more comes? -/
def isComplete (d : NumberDraft) : Bool :=
  match d.stage with
  | .zero | .whole | .fraction | .exponent => true
  | _ => false

/-- The number that was read. -/
def numeral (d : NumberDraft) : Numeral where
  negative := d.negative
  whole := d.whole
  fraction := d.fraction.reverse
  exponent := match d.stage with
    | .exponent => some (if d.exponentNegative then -(d.exponent : Int) else d.exponent)
    | _ => none

/-- The number after one more digit, if one may stand there. -/
def pushDigit (d : NumberDraft) (digit : Digit) : Option NumberDraft :=
  match d.stage with
  | .sign => some { d with stage := if digit.val = 0 then .zero else .whole, whole := digit.val }
  | .zero => none
  | .whole => some { d with whole := 10 * d.whole + digit.val }
  | .point | .fraction => some { d with stage := .fraction, fraction := digit :: d.fraction }
  | .mark | .markSign | .exponent =>
    some { d with stage := .exponent, exponent := 10 * d.exponent + digit.val }

/-- The number after one more character: `none` if the character does not belong to it. -/
def push (d : NumberDraft) (c : Char) : Option (Except Fault NumberDraft) :=
  match Digit.ofChar? c with
  | some digit =>
    match d.pushDigit digit with
    | some d => some (.ok d)
    | none => some (.error .invalidNumber)
  | none =>
    match d.stage with
    | .sign | .point | .markSign => some (.error .invalidNumber)
    | .zero | .whole =>
      if c = '.' then some (.ok { d with stage := .point })
      else if c = 'e' ∨ c = 'E' then some (.ok { d with stage := .mark })
      else none
    | .fraction => if c = 'e' ∨ c = 'E' then some (.ok { d with stage := .mark }) else none
    | .mark =>
      if c = '+' then some (.ok { d with stage := .markSign })
      else if c = '-' then some (.ok { d with stage := .markSign, exponentNegative := true })
      else some (.error .invalidNumber)
    | .exponent => none

end NumberDraft

/-! ## Texts -/

/-- A text of which more may come; the characters are in reverse. -/
structure TextDraft where
  chars : List Char
  /-- a first half of a surrogate pair that waits for the second -/
  half : Option Nat
  /-- no half of a pair stood alone so far -/
  whole : Bool

namespace TextDraft

/-- The text of no characters. -/
def empty : TextDraft := ⟨[], none, true⟩

/-- The text after one more character. -/
def pushChar (d : TextDraft) (c : Char) : TextDraft :=
  ⟨c :: d.chars, none, d.whole && d.half.isNone⟩

/-- The text after one more escape of four hexadecimal digits. -/
def pushCode (d : TextDraft) (n : Nat) : TextDraft :=
  if 0xD800 ≤ n ∧ n < 0xDC00 then ⟨d.chars, some n, d.whole && d.half.isNone⟩
  else if 0xDC00 ≤ n ∧ n < 0xE000 then
    match d.half with
    | some high =>
      ⟨Char.ofNat (0x10000 + (high - 0xD800) * 0x400 + (n - 0xDC00)) :: d.chars, none, d.whole⟩
    | none => ⟨d.chars, none, false⟩
  else d.pushChar (Char.ofNat n)

/-- The text that was read, unless half a pair stood alone. -/
def content (d : TextDraft) : Option String :=
  if d.whole && d.half.isNone then some (String.ofList d.chars.reverse) else none

end TextDraft

/-- The value of a hexadecimal digit. -/
def hexValue? (c : Char) : Option Nat :=
  let n := c.toNat
  if 48 ≤ n ∧ n ≤ 57 then some (n - 48)
  else if 97 ≤ n ∧ n ≤ 102 then some (n - 87)
  else if 65 ≤ n ∧ n ≤ 70 then some (n - 55)
  else none

/-- The character that a letter after a backslash stands for. -/
def escapedChar? (c : Char) : Option Char :=
  match c with
  | '"' => some '"'
  | '\\' => some '\\'
  | '/' => some '/'
  | 'b' => some '\x08'
  | 'f' => some '\x0c'
  | 'n' => some '\n'
  | 'r' => some '\r'
  | 't' => some '\t'
  | _ => none

/-! ## The automaton -/

/-- What the automaton is in the middle of. -/
inductive Lexeme where
  | between
  /-- a word of which these characters must still come -/
  | word (rest : List Char) (token : Token)
  | number (draft : NumberDraft)
  | text (draft : TextDraft)
  | escape (draft : TextDraft)
  /-- an escape with this value so far and this many digits to come -/
  | code (draft : TextDraft) (value : Nat) (missing : Nat)
  | broken

/-- The tokens read so far, in reverse, and the one at hand. -/
structure Lexer where
  tokens : List Token
  lexeme : Lexeme

namespace Lexer

/-- The automaton before the first character. -/
def start : Lexer := ⟨[], .between⟩

/-- One more token. -/
def emit (tokens : List Token) (t : Token) : Lexer := ⟨t :: tokens, .between⟩

/-- The last token. -/
def fail (tokens : List Token) (f : Fault) : Lexer := ⟨.broken f :: tokens, .broken⟩

/-- The space characters of the format. -/
def isSpace (c : Char) : Bool := c = ' ' || c = '\t' || c = '\n' || c = '\r'

/-- The step from between two tokens. -/
def begin (tokens : List Token) (c : Char) : Lexer :=
  if isSpace c then ⟨tokens, .between⟩
  else match c with
  | '[' => emit tokens .openList
  | ']' => emit tokens .closeList
  | '\x7b' => emit tokens .openObject
  | '\x7d' => emit tokens .closeObject
  | ',' => emit tokens .comma
  | ':' => emit tokens .colon
  | '"' => ⟨tokens, .text .empty⟩
  | '-' => ⟨tokens, .number ⟨.sign, true, 0, [], false, 0⟩⟩
  | 't' => ⟨tokens, .word ['r', 'u', 'e'] (.bool true)⟩
  | 'f' => ⟨tokens, .word ['a', 'l', 's', 'e'] (.bool false)⟩
  | 'n' => ⟨tokens, .word ['u', 'l', 'l'] .null⟩
  | _ =>
    match Digit.ofChar? c with
    | some d => ⟨tokens, .number ⟨if d.val = 0 then .zero else .whole, false, d.val, [], false, 0⟩⟩
    | none => fail tokens .expectedValue

/-- The step inside a text. -/
def stepText (tokens : List Token) (d : TextDraft) (c : Char) : Lexer :=
  if c = '"' then emit tokens (.text d.content)
  else if c = '\\' then ⟨tokens, .escape d⟩
  else if c.toNat < 0x20 then fail tokens .controlCharacter
  else ⟨tokens, .text (d.pushChar c)⟩

/-- The step after one more character. -/
def step (s : Lexer) (c : Char) : Lexer :=
  match s.lexeme with
  | .between => begin s.tokens c
  | .word [] t => begin (t :: s.tokens) c
  | .word (expected :: rest) t =>
    if c ≠ expected then fail s.tokens .expectedWord
    else match rest with
      | [] => emit s.tokens t
      | _ :: _ => ⟨s.tokens, .word rest t⟩
  | .number d =>
    match d.push c with
    | some (.ok d) => ⟨s.tokens, .number d⟩
    | some (.error f) => fail s.tokens f
    | none => begin (.number d.numeral :: s.tokens) c
  | .text d => stepText s.tokens d c
  | .escape d =>
    if c = 'u' then ⟨s.tokens, .code d 0 4⟩
    else match escapedChar? c with
      | some c => ⟨s.tokens, .text (d.pushChar c)⟩
      | none => fail s.tokens .invalidEscape
  | .code d value missing =>
    match hexValue? c with
    | some h =>
      let value := 16 * value + h
      if missing ≤ 1 then ⟨s.tokens, .text (d.pushCode value)⟩
      else ⟨s.tokens, .code d value (missing - 1)⟩
    | none => fail s.tokens .invalidEscape
  | .broken => s

/-- The tokens when no more characters come. -/
def finish (s : Lexer) : List Token :=
  let tokens := match s.lexeme with
    | .between | .broken => s.tokens
    | .word _ _ => .broken .endInValue :: s.tokens
    | .number d =>
      (if d.isComplete then .number d.numeral else .broken .endInValue) :: s.tokens
    | .text _ | .escape _ | .code _ _ _ => .broken .endInText :: s.tokens
  tokens.reverse

end Lexer

/-- The tokens of a document text. -/
def tokensOf (cs : List Char) : List Token := (cs.foldl Lexer.step Lexer.start).finish

end PathSelection.Json
