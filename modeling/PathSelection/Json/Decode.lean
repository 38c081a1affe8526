import PathSelection.Json.Reader
import PathSelection.Text.Quoted

/-!
# Reading values out of documents

A decoder takes a value of the domain out of a document or says what is wrong
with the document.  The first problem in the order of the document decides.
-/

namespace PathSelection.Json

/-! ## Problems -/

/-- What stands where something else is expected. -/
inductive Found where
  | integer (n : Int)
  | floating (x : Float)
  | text (s : String)
  | boolean (b : Bool)
  | null
  | sequence
  | map
  | unitVariant

/-- The wording for what stands in a document. -/
def Found.message : Found → String
  | integer n => s!"integer `{n}`"
  | floating x =>
    let written := match Numeral.ofFloat? x with
      | some n => n.text
      | none => floatText x
    s!"floating point `{written}`"
  | text s => "string " ++ quoted s
  | boolean b => s!"boolean `{b}`"
  | null => "null"
  | sequence => "sequence"
  | map => "map"
  | unitVariant => "unit variant"

/-- Why a document does not hold the value that is read from it. -/
inductive DecodeError where
  | malformed (fault : Fault)
  | wrongType (found : Found) (expected : String)
  | outOfRange (n : Int) (expected : String)
  | missingField (name : String)
  | duplicateField (name : String)
  | wrongLength (length : Nat) (expected : String)
  | unknownVariant (name : String) (known : List String)
  /-- the value was read, and a rule of the domain refuses it -/
  | refused (message : String)

/-- A choice of names in a message. -/
def oneOf (names : List String) : String :=
  match names.map (fun n => s!"`{n}`") with
  | [] => "nothing"
  | [a] => a
  | [a, b] => a ++ " or " ++ b
  | all => "one of " ++ ", ".intercalate all

/-- The wording of a problem. -/
def DecodeError.message : DecodeError → String
  | malformed f => f.message
  | wrongType found expected => s!"invalid type: {found.message}, expected {expected}"
  | outOfRange n expected => s!"invalid value: integer `{n}`, expected {expected}"
  | missingField name => s!"missing field `{name}`"
  | duplicateField name => s!"duplicate field `{name}`"
  | wrongLength n expected => s!"invalid length {n}, expected {expected}"
  | unknownVariant name known => s!"unknown variant `{name}`, expected {oneOf known}"
  | refused message => message

/-- A count of elements in a message. -/
def elementCount (n : Nat) : String := if n = 1 then "1 element" else s!"{n} elements"

/-- A way to read a value out of a document. -/
abbrev Decoder (α : Type) := Json → Except DecodeError α

/-! ## Numbers, texts and lists -/

namespace Decoder

/-- An integer of 64 bits, with or without a sign; anything else is floating. -/
def integer? (n : Numeral) : Option Int :=
  match n.toInt? with
  | some i => if -(wordValues 63 : Int) ≤ i ∧ i < wordValues 64 then some i else none
  | none => none

/-- What stands in a document.  An overflowing number and half a surrogate pair are faults. -/
def found : Decoder Found
  | .null => .ok .null
  | .bool b => .ok (.boolean b)
  | .number n =>
    match integer? n with
    | some i => .ok (.integer i)
    | none =>
      let x := n.toFloat
      if Float.finite x then .ok (.floating x) else .error (.malformed .numberOutOfRange)
  | .string (some s) => .ok (.text s)
  | .string none => .error (.malformed .loneSurrogate)
  | .array _ => .ok .sequence
  | .object _ => .ok .map

/-- The problem that something else stands here. -/
def mismatch {α : Type} (expected : String) (v : Json) : Except DecodeError α := do
  let f ← found v
  .error (.wrongType f expected)

/-- A natural number below a bound. -/
def natBelow (bound : Nat) (expected : String) : Decoder Nat
  | .number n =>
    match integer? n with
    | some i =>
      if 0 ≤ i ∧ i < bound then .ok i.toNat else .error (.outOfRange i expected)
    | none => mismatch expected (.number n)
  | v => mismatch expected v

/-- A natural number of 32 bits. -/
def u32 : Decoder Nat := natBelow (wordValues 32) "u32"

/-- A natural number of 64 bits. -/
def u64 : Decoder Nat := natBelow (wordValues 64) "u64"

/-- A count of things: a natural number of 64 bits. -/
def usize : Decoder Nat := natBelow (wordValues 64) "usize"

/-- A scalar, written as an integer or not.  It is rounded correctly: a double is the one next to
what is written.  Readers that do not promise to read back the doubles they wrote can differ from it
in the last place of numbers with many digits. -/
def number {α : Type} [Scalar α] : Decoder α
  | .number n =>
    let x := Scalar.ofDecimal n.toDecimal
    if Scalar.isFinite x then .ok x else .error (.malformed .numberOutOfRange)
  | v => mismatch "f64" v

/-- A text. -/
def text : Decoder String
  | .string (some s) => .ok s
  | v => mismatch "a string" v

/-- A value or `null`. -/
def nullable {α : Type} (item : Decoder α) : Decoder (Option α)
  | .null => .ok none
  | v => (item v).map some

/-- A list. -/
def listOf {α : Type} (item : Decoder α) : Decoder (List α)
  | .array items => items.mapM item
  | v => mismatch "a sequence" v

/-- One entry of a table with texts as keys. -/
def entry {α : Type} (item : Decoder α) : Key × Json → Except DecodeError (String × α)
  | (some key, v) => (item v).map (key, ·)
  | (none, _) => .error (.malformed .loneSurrogate)

/-- A table with texts as keys, in the order of the document. -/
def tableOf {α : Type} (item : Decoder α) : Decoder (List (String × α))
  | .object fields => fields.mapM (entry item)
  | v => mismatch "a map" v

/-- A value that a rule of the domain may still refuse. -/
def refine {α β : Type} (item : Decoder α) (rule : α → Except String β) : Decoder β := fun v => do
  let a ← item v
  match rule a with
  | .ok b => .ok b
  | .error message => .error (.refused message)

end Decoder

/-- The value that a whole text spells. -/
def parse {α : Type} (item : Decoder α) (s : String) : Except DecodeError α :=
  match read s with
  | .ok v => item v
  | .error f => .error (.malformed f)

end PathSelection.Json
