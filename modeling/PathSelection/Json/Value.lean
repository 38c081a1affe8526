import PathSelection.Number.Scalar

/-!
# JSON values and faults

A document as a tree.  Numbers are kept as they are written, fields in the
order in which they are written, and a text is kept with the information
whether its escapes spell a text at all: a lone half of a surrogate pair is
well-formed in a document, yet no character.
-/

namespace PathSelection

/-- A JSON document. -/
inductive Json where
  | null
  | bool (value : Bool)
  | number (numeral : Numeral)
  /-- a text, or `none` if an escape in it is a lone half of a surrogate pair -/
  | string (text : Option String)
  | array (items : List Json)
  | object (fields : List (Option String × Json))

namespace Json

/-- A text without lone surrogates. -/
def text (s : String) : Json := .string (some s)

/-- A natural number. -/
def nat (n : Nat) : Json := .number (Numeral.ofNat n)

/-- A scalar; one that has no numeral is written as `null`. -/
def scalar {α : Type} [Scalar α] (x : α) : Json :=
  match Scalar.numeral? x with
  | some n => .number n
  | none => .null

/-- An object with named fields. -/
def record (fields : List (String × Json)) : Json :=
  .object (fields.map fun (name, value) => (some name, value))

/-- A value or `null`. -/
def option {α : Type} (write : α → Json) : Option α → Json
  | some a => write a
  | none => .null

/-- A list of values. -/
def list {α : Type} (write : α → Json) (xs : List α) : Json := .array (xs.map write)

/-- What makes a text no document. -/
inductive Fault where
  | endInList
  | endInObject
  | endInText
  | endInValue
  | expectedColon
  | expectedItemOrEnd
  | expectedFieldOrEnd
  | expectedWord
  | expectedValue
  | invalidEscape
  | invalidNumber
  | numberOutOfRange
  | controlCharacter
  | keyNotText
  | loneSurrogate
  | trailingComma
  | trailingCharacters
  | tooDeep
  deriving DecidableEq, Repr

/-- The wording of a fault. -/
def Fault.message : Fault → String
  | endInList => "EOF while parsing a list"
  | endInObject => "EOF while parsing an object"
  | endInText => "EOF while parsing a string"
  | endInValue => "EOF while parsing a value"
  | expectedColon => "expected `:`"
  | expectedItemOrEnd => "expected `,` or `]`"
  | expectedFieldOrEnd => "expected `,` or `\x7d`"
  | expectedWord => "expected ident"
  | expectedValue => "expected value"
  | invalidEscape => "invalid escape"
  | invalidNumber => "invalid number"
  | numberOutOfRange => "number out of range"
  | controlCharacter => "control character (\\u0000-\\u001F) found while parsing a string"
  | keyNotText => "key must be a string"
  | loneSurrogate => "lone leading surrogate in hex escape"
  | trailingComma => "trailing comma"
  | trailingCharacters => "trailing characters"
  | tooDeep => "recursion limit exceeded"

/-- Does the fault arise inside a text? -/
def Fault.inText : Fault → Bool
  | endInText | invalidEscape | controlCharacter => true
  | _ => false

end Json

end PathSelection
