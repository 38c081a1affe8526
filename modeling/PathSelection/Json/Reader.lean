import PathSelection.Json.Token

/-!
# Reading JSON

The grammar of documents as an automaton over tokens with an explicit stack, so
that the depth of a document is bounded by nothing.
-/

namespace PathSelection.Json

/-- The name of a field; `none` if its escapes spell no text. -/
abbrev Key := Option String

/-- Where a complete value goes; what came before it is in reverse. -/
inductive Context where
  | inList (done : List Json)
  | inField (done : List (Key × Json)) (key : Key)

/-- What the grammar waits for. -/
inductive Parser where
  /-- a value, after a comma or not -/
  | value (afterComma : Bool) (stack : List Context)
  /-- the first item of a list or its end -/
  | firstItem (stack : List Context)
  /-- a field, after a comma or not -/
  | key (afterComma : Bool) (done : List (Key × Json)) (stack : List Context)
  /-- the colon after a key -/
  | colon (done : List (Key × Json)) (key : Key) (stack : List Context)
  /-- a comma or the end of a list -/
  | nextItem (done : List Json) (stack : List Context)
  /-- a comma or the end of an object -/
  | nextField (done : List (Key × Json)) (stack : List Context)
  /-- nothing more -/
  | finished (v : Json)

namespace Parser

/-- The automaton before the first token. -/
def start : Parser := .value false []

/-- A value is complete. -/
def give (v : Json) : List Context → Parser
  | [] => .finished v
  | .inList done :: stack => .nextItem (v :: done) stack
  | .inField done name :: stack => .nextField ((name, v) :: done) stack

/-- A token where a value must come. -/
def stepValue (afterComma : Bool) (stack : List Context) : Token → Except Fault Parser
  | .openList => .ok (.firstItem stack)
  | .openObject => .ok (.key false [] stack)
  | .null => .ok (give .null stack)
  | .bool b => .ok (give (.bool b) stack)
  | .number n => .ok (give (.number n) stack)
  | .text s => .ok (give (.string s) stack)
  | .closeList => .error (if afterComma then .trailingComma else .expectedValue)
  | .closeObject | .comma | .colon => .error .expectedValue
  | .broken f => .error f

/-- The step after one more token. -/
def step (p : Parser) (t : Token) : Except Fault Parser :=
  match p with
  | .value afterComma stack => stepValue afterComma stack t
  | .firstItem stack =>
    match t with
    | .closeList => .ok (give (.array []) stack)
    | t => stepValue false (.inList [] :: stack) t
  | .key afterComma done stack =>
    match t with
    | .text name => .ok (.colon done name stack)
    | .closeObject =>
      if afterComma then .error .trailingComma else .ok (give (.object done.reverse) stack)
    | .broken f => .error (if f.inText then f else .keyNotText)
    | _ => .error .keyNotText
  | .colon done name stack =>
    match t with
    | .colon => .ok (.value false (.inField done name :: stack))
    | _ => .error .expectedColon
  | .nextItem done stack =>
    match t with
    | .comma => .ok (.value true (.inList done :: stack))
    | .closeList => .ok (give (.array done.reverse) stack)
    | _ => .error .expectedItemOrEnd
  | .nextField done stack =>
    match t with
    | .comma => .ok (.key true done stack)
    | .closeObject => .ok (give (.object done.reverse) stack)
    | _ => .error .expectedFieldOrEnd
  | .finished _ => .error .trailingCharacters

/-- The document when no more tokens come. -/
def finish : Parser → Except Fault Json
  | .finished v => .ok v
  | .firstItem _ | .nextItem _ _ => .error .endInList
  | .key false _ _ | .colon _ _ _ | .nextField _ _ => .error .endInObject
  | .value _ _ | .key true _ _ => .error .endInValue

end Parser

/-- The document that a text spells. -/
def read (s : String) : Except Fault Json := do
  let p ← (tokensOf s.toList).foldlM Parser.step Parser.start
  p.finish

end PathSelection.Json
