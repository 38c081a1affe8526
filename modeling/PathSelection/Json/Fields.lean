import PathSelection.Json.Decode

/-!
# Records in documents

A record is written as an object, its fields in any order, or as an array of its
fields in the order of their declaration.  A `Fields` value declares the fields
one after the other; the problems of all fields are compared by the place where
they stand in the document, and a missing field counts as standing behind
everything that is there.
-/

namespace PathSelection.Json

/-- A problem and the place in a record where it stands. -/
structure Located where
  place : Nat
  error : DecodeError

/-- The two written forms of a record. -/
inductive Source where
  | object (fields : List (Key × Json))
  | array (items : List Json)

/-- The declaration of the fields of a record. -/
structure Fields (α : Type) where
  /-- how many fields there are -/
  count : Nat
  /-- reads them, given what a complete record is called and the index of the first field -/
  read : (complete : String) → Source → (index : Nat) → Except Located α

namespace Fields

/-- Two results; of two problems the one that stands first. -/
def both {α β : Type} : Except Located (α → β) → Except Located α → Except Located β
  | .ok f, .ok a => .ok (f a)
  | .error e, .ok _ => .error e
  | .ok _, .error e => .error e
  | .error e, .error e' => .error (if e.place ≤ e'.place then e else e')

instance : Functor Fields where
  map f x := ⟨x.count, fun complete source index => (x.read complete source index).map f⟩

instance : Applicative Fields where
  pure a := ⟨0, fun _ _ _ => .ok a⟩
  seq f x := ⟨f.count + (x ()).count, fun complete source index =>
    both (f.read complete source index) ((x ()).read complete source (index + f.count))⟩

/-- The values of a field with their places. -/
def occurrences (name : String) (fields : List (Key × Json)) : List (Nat × Json) :=
  fields.zipIdx.filterMap fun ((key, v), place) =>
    if key = some name then some (place, v) else none

/-- A field; what an object or an array without it means is given. -/
def field {α : Type} (name : String) (item : Decoder α)
    (absentInObject absentInArray : Option α) : Fields α where
  count := 1
  read complete source index :=
    match source with
    | .object fields =>
      match occurrences name fields with
      | [] =>
        match absentInObject with
        | some a => .ok a
        | none => .error ⟨fields.length + index, .missingField name⟩
      | (place, v) :: more =>
        match item v, more with
        | .error e, _ => .error ⟨place, e⟩
        | .ok _, (again, _) :: _ => .error ⟨again, .duplicateField name⟩
        | .ok a, [] => .ok a
    | .array items =>
      match items[index]?, absentInArray with
      | some v, _ =>
        match item v with
        | .ok a => .ok a
        | .error e => .error ⟨index, e⟩
      | none, some a => .ok a
      | none, none => .error ⟨index, .wrongLength index complete⟩

/-- A field that must be there. -/
def required {α : Type} (name : String) (item : Decoder α) : Fields α := field name item none none

/-- A field that may be absent or `null`; in an array it must be there. -/
def optional {α : Type} (name : String) (item : Decoder α) : Fields (Option α) :=
  field name (Decoder.nullable item) (some none) none

/-- A field with a default. -/
def defaulted {α : Type} (name : String) (default : α) (item : Decoder α) : Fields α :=
  field name item (some default) (some default)

/-- The place of the first key that spells no text. -/
def brokenKey? (fields : List (Key × Json)) : Option Nat :=
  fields.findIdx? fun (key, _) => key.isNone

/-- The fields of an object. -/
def ofObject {α : Type} (fs : Fields α) (complete : String) (fields : List (Key × Json)) :
    Except DecodeError α :=
  match fs.read complete (.object fields) 0, brokenKey? fields with
  | .ok a, none => .ok a
  | .error e, none => .error e.error
  | .ok _, some _ => .error (.malformed .loneSurrogate)
  | .error e, some place => .error (if e.place ≤ place then e.error else .malformed .loneSurrogate)

/-- The fields of an array, which may be too long. -/
def ofArray {α : Type} (fs : Fields α) (complete : String) (tooLong : DecodeError)
    (items : List Json) : Except DecodeError α :=
  match fs.read complete (.array items) 0 with
  | .error e => .error e.error
  | .ok a => if fs.count < items.length then .error tooLong else .ok a

end Fields

/-- A record of the given kind. -/
def recordOf {α : Type} (kind : String) (fs : Fields α) : Decoder α
  | .object fields => fs.ofObject s!"struct {kind} with {elementCount fs.count}" fields
  | .array items =>
    fs.ofArray s!"struct {kind} with {elementCount fs.count}" (.malformed .trailingCharacters) items
  | v => Decoder.mismatch s!"struct {kind}" v

end PathSelection.Json
