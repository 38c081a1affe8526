import PathSelection.Dict
import PathSelection.Number.Numeral
import PathSelection.Yaml.Node

/-!
# Values in YAML documents

What the nodes of a document mean where a text, a number, a name, a list or a
record is wanted.
-/

namespace PathSelection.Yaml

/-- A reader of nodes. -/
abbrev Decoder (β : Type) := Node → Except String β

/-! ## Numbers -/

/-- The number that digits of a base spell. -/
def ofBase? (base : Nat) (cs : List Char) : Option Nat :=
  if cs.isEmpty then none
  else cs.foldlM (fun n c => do
    let d ← hexValue? c
    if d < base then some (base * n + d) else none) 0

/-- The number behind the mark of its base, if it is marked. -/
def marked? : List Char → Option Nat
  | '0' :: 'x' :: cs => ofBase? 16 cs
  | '0' :: 'o' :: cs => ofBase? 8 cs
  | '0' :: 'b' :: cs => ofBase? 2 cs
  | _ => none

/-- A decimal number without zeros in front of it. -/
def decimal? : List Char → Option Nat
  | '0' :: _ :: _ => none
  | cs => ofBase? 10 cs

/-- The number of a plain scalar, below 2⁶⁴ and with at most one plus sign. -/
def unsigned? (text : String) : Option Nat :=
  let cs := match text.toList with
    | '+' :: cs => cs
    | cs => cs
  ((marked? cs).or (decimal? cs)).filter (· < wordValues 64)

namespace Decoder

/-- Reads a scalar as its text. -/
def text : Decoder String
  | .scalar _ _ t => .ok t
  | _ => .error "expected a string"

/-- The tag of whole numbers. -/
def numberTag : String := "tag:yaml.org,2002:int"

/-- Reads a number, which is plain or a block with the tag of numbers. -/
def unsigned : Decoder Nat
  | .scalar style tag t =>
    let number? :=
      if style = .plain ∨ (style = .literal ∧ tag = some numberTag) then unsigned? t else none
    match number? with
    | some n => .ok n
    | none => .error "expected a whole number"
  | _ => .error "expected a whole number"

/-- Reads a name, which may also be given as a tag of nothing. -/
def name {β : Type} (names : List (String × β)) : Decoder β
  | .scalar style tag t =>
    let t := match tag.map String.toList with
      | some ('!' :: cs) =>
        if style = .plain ∧ t ∈ ["", "null", "Null", "NULL", "~"] then String.ofList cs else ""
      | _ => t
    match names.lookup t with
    | some b => .ok b
    | none => .error "unknown variant"
  | _ => .error "expected a name"

/-- Reads a list; where nothing is written it is empty. -/
def list {β : Type} (item : Decoder β) : Decoder (List β)
  | .sequence items => items.mapM item
  | .scalar .plain _ "" => .ok []
  | _ => .error "expected a sequence"

/-- Reads the known fields of a record; where nothing is written there are none. -/
def fields (known : List String) : Decoder (Dict String Node)
  | .mapping entries => entries.foldlM (fun found (key, value) => do
      let key ← text key
      if !known.contains key then return found
      if (Dict.get? found key).isSome then throw "duplicate field"
      return Dict.put key value found) []
  | .scalar .plain _ "" => .ok []
  | _ => .error "expected a mapping"

end Decoder

/-- Reads a field that may be absent. -/
def field? {β : Type} (d : Decoder β) (fields : Dict String Node) (name : String) :
    Except String (Option β) :=
  (Dict.get? fields name).mapM d

end PathSelection.Yaml
