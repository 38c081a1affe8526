import PathSelection.Json.Fields

/-!
# Choices in documents

A choice is written as the name of a variant, or as an object whose only key is
that name.  A tagged choice is a record one field of which, the tag, names the
variant; the rest of such a record is looked at as a whole before its fields
are read.
-/

namespace PathSelection.Json

/-! ## Plain choices -/

/-- A variant of a plain choice. -/
inductive Variant (α : Type) where
  | unit (value : α)
  /-- a variant with one value of its own -/
  | content (item : Decoder α)

/-- A choice by name. -/
def choice {α : Type} (variants : List (String × Variant α)) : Decoder α :=
  let unknown (name : String) : DecodeError := .unknownVariant name (variants.map (·.1))
  fun
  | .string (some name) =>
    match variants.lookup name with
    | some (.unit a) => .ok a
    | some (.content _) => .error (.wrongType .unitVariant "newtype variant")
    | none => .error (unknown name)
  | .string none => .error (.malformed .loneSurrogate)
  | .object ((key, v) :: more) => do
    let name ← match key with
      | some name => .ok name
      | none => .error (.malformed .loneSurrogate)
    let a ← match variants.lookup name with
      | some (.unit a) =>
        match v with
        | .null => .ok a
        | v => Decoder.mismatch "unit" v
      | some (.content item) => item v
      | none => .error (unknown name)
    if more.isEmpty then .ok a else .error (.malformed .expectedValue)
  | _ => .error (.malformed .expectedValue)

/-- A choice whose variants hold nothing. -/
def nameOf {α : Type} (variants : List (String × α)) : Decoder α :=
  choice (variants.map fun (name, a) => (name, .unit a))

/-! ## Tagged choices -/

/-- How many lists and objects may be open at once. -/
def depthLimit : Nat := 127

mutual

/-- The first fault in a value that may open a number of lists and objects inside each other. -/
def contentFault? (levels : Nat) : Json → Option Fault
  | .null => none
  | .bool _ => none
  | .number n =>
    if (Decoder.integer? n).isSome || Float.finite n.toFloat then none else some .numberOutOfRange
  | .string s => if s.isSome then none else some .loneSurrogate
  | .array items => if levels = 0 then some .tooDeep else itemsFault? (levels - 1) items
  | .object fields => if levels = 0 then some .tooDeep else fieldsFault? (levels - 1) fields
termination_by structural v => v

/-- The first fault in the items of a list. -/
def itemsFault? (levels : Nat) : List Json → Option Fault
  | [] => none
  | v :: vs => (contentFault? levels v).or (itemsFault? levels vs)
termination_by structural vs => vs

/-- The first fault in the fields of an object. -/
def fieldsFault? (levels : Nat) : List (Option String × Json) → Option Fault
  | [] => none
  | (key, v) :: fields =>
    if key.isNone then some .loneSurrogate
    else (contentFault? levels v).or (fieldsFault? levels fields)
termination_by structural fields => fields

end

/-- A variant of a tagged choice. -/
inductive TaggedVariant (α : Type) where
  | unit (value : α)
  | fields (fs : Fields α)

/-- The declaration of a tagged choice. -/
structure Tagged (α : Type) where
  /-- what the choice is called -/
  kind : String
  /-- the field that names the variant -/
  tag : String
  /-- name in documents, name in messages, fields -/
  variants : List (String × String × TaggedVariant α)

namespace Tagged

variable {α : Type}

/-- The variant that a tag names. -/
def variantOf (t : Tagged α) : Decoder (String × TaggedVariant α)
  | .string (some name) =>
    match t.variants.lookup name with
    | some variant => .ok variant
    | none => .error (.unknownVariant name (t.variants.map (·.1)))
  | v => Decoder.mismatch "variant identifier" v

/-- The variant that an object names; everything else in it is looked at for faults. -/
def findVariant (t : Tagged α) (levels : Nat) :
    Option (String × TaggedVariant α) → List (Key × Json) →
      Except DecodeError (String × TaggedVariant α)
  | some variant, [] => .ok variant
  | none, [] => .error (.missingField t.tag)
  | seen, (key, v) :: fields =>
    match key with
    | none => .error (.malformed .loneSurrogate)
    | some name =>
      if name = t.tag then
        match seen with
        | some _ => .error (.duplicateField t.tag)
        | none => do
          let variant ← t.variantOf v
          findVariant t levels (some variant) fields
      else
        match contentFault? levels v with
        | some f => .error (.malformed f)
        | none => findVariant t levels seen fields

/-- The value of a variant whose other fields stand in an object. -/
def ofObject (t : Tagged α) (fields : List (Key × Json)) :
    String × TaggedVariant α → Except DecodeError α
  | (_, .unit a) => .ok a
  | (label, .fields fs) =>
    fs.ofObject s!"struct variant {label} with {elementCount fs.count}"
      (fields.filter fun (key, _) => key != some t.tag)

/-- The value of a variant whose fields stand in an array. -/
def ofArray (items : List Json) : String × TaggedVariant α → Except DecodeError α
  | (_, .unit a) =>
    if items.isEmpty then .ok a else .error (.wrongLength items.length "0 elements in sequence")
  | (label, .fields fs) =>
    fs.ofArray s!"struct variant {label} with {elementCount fs.count}"
      (.wrongLength items.length (elementCount fs.count ++ " in sequence")) items

end Tagged

/-- A tagged choice that stands inside a number of open lists and objects. -/
def taggedOf {α : Type} (t : Tagged α) (depth : Nat) : Decoder α
  | .object fields => do
    let variant ← t.findVariant (depthLimit - (depth + 1)) none fields
    t.ofObject fields variant
  | .array [] => .error (.missingField t.tag)
  | .array (tag :: items) => do
    let variant ← t.variantOf tag
    match itemsFault? (depthLimit - (depth + 1)) items with
    | some f => .error (.malformed f)
    | none => Tagged.ofArray items variant
  | v => Decoder.mismatch s!"internally tagged enum {t.kind}" v

end PathSelection.Json
