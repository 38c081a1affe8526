import PathSelection.Yaml.Token

/-!
# YAML documents

A document is a tree of scalars, sequences and mappings, which is built from its
tokens.  An alias stands for the node that its anchor marks.
-/

namespace PathSelection.Yaml

/-- A node of a document. -/
inductive Node where
  | scalar (style : ScalarStyle) (tag : Option String) (text : String)
  | sequence (items : List Node)
  | mapping (entries : List (Node × Node))

/-- The scalar that stands where nothing is written. -/
def Node.nothing : Node := .scalar .plain none ""

/-- Tokens that are left, the handles of tags and the nodes of anchors. -/
structure Composer where
  tokens : List Token
  handles : List (String × String)
  anchors : List (String × Node)

/-- Work on tokens that may find a fault. -/
abbrev Composing := EStateM String Composer

namespace Composer

/-- The handles of tags that need no directive. -/
def standardHandles : List (String × String) := [("!", "!"), ("!!", "tag:yaml.org,2002:"), ("", "")]

/-- The next token. -/
def peek : Composing (Option Token) := return (← get).tokens.head?

/-- Passes the next token over. -/
def advance : Composing Unit := modify fun c => { c with tokens := c.tokens.tail }

/-- Passes the next token over if it is a given one. -/
def skips (t : Token) : Composing Bool := do
  if (← peek) == some t then
    advance
    return true
  else return false

/-- Is the next token one of some? -/
def nextIs (ts : List Token) : Composing Bool := do
  match ← peek with
  | some t => return ts.contains t
  | none => return false

/-! ## Properties -/

/-- What may stand in front of a node. -/
structure Properties where
  anchor : Option String
  tag : Option String
  deriving DecidableEq, Repr

/-- Is there nothing in front of a node? -/
def Properties.isEmpty (p : Properties) : Bool := p.anchor.isNone && p.tag.isNone

/-- The full name of a tag. -/
def resolve (handle suffix : String) : Composing String := do
  match (← get).handles.lookup handle with
  | some root => return root ++ suffix
  | none => throw "found undefined tag handle"

/-- Takes an anchor and a tag, in either order and each at most once. -/
def properties : Nat → Properties → Composing Properties
  | 0, p => return p
  | n + 1, p => do
    match ← peek, p with
    | some (.anchor name), ⟨none, tag⟩ => do
      advance
      properties n ⟨some name, tag⟩
    | some (.tag handle suffix), ⟨anchor, none⟩ => do
      advance
      properties n ⟨anchor, some (← resolve handle suffix)⟩
    | _, p => return p

/-- Gives a node the anchor in front of it. -/
def define (p : Properties) (node : Node) : Composing Unit :=
  match p.anchor with
  | some name => modify fun c => { c with anchors := (name, node) :: c.anchors }
  | none => return

/-- A collection, whose anchor stands for an empty sequence inside it. -/
def collection (p : Properties) (body : Composing Node) : Composing Node := do
  define p (.sequence [])
  let node ← body
  define p node
  return node

/-! ## Nodes -/

mutual

/-- A node; block structures may be not allowed, and items may stand without indentation. -/
def node : Nat → Bool → Bool → Composing Node
  | 0, _, _ => throw "did not find expected node content"
  | n + 1, block, unindented => do
    if let some (.alias name) ← peek then
      advance
      match (← get).anchors.lookup name with
      | some node => return node
      | none => throw "unknown anchor"
    let p ← properties 2 ⟨none, none⟩
    match ← peek with
    | some (.scalar style text) =>
      advance
      let node := Node.scalar style p.tag text
      define p node
      return node
    | some .flowSequenceStart =>
      advance
      collection p (return .sequence (← flowItems n true))
    | some .flowMappingStart =>
      advance
      collection p (return .mapping (← flowEntries n true))
    | t =>
      if unindented && t == some .blockEntry then
        collection p (return .sequence (← unindentedItems n))
      else if block && t == some .blockSequenceStart then
        advance
        collection p (return .sequence (← blockItems n))
      else if block && t == some .blockMappingStart then
        advance
        collection p (return .mapping (← blockEntries n))
      else if p.isEmpty then throw "did not find expected node content"
      else
        let node := Node.scalar .plain p.tag ""
        define p node
        return node

/-- A node, or nothing in front of one of some tokens. -/
def nodeUnless : Nat → List Token → Bool → Bool → Composing Node
  | 0, _, _, _ => throw "did not find expected node content"
  | n + 1, ends, block, unindented => do
    if ← nextIs ends then return .nothing else node n block unindented

/-- The items of an indented sequence. -/
def blockItems : Nat → Composing (List Node)
  | 0 => throw "did not find expected '-' indicator"
  | n + 1 => do
    if ← skips .blockEntry then
      let item ← nodeUnless n [.blockEntry, .blockEnd] true false
      return item :: (← blockItems n)
    else if ← skips .blockEnd then return []
    else throw "did not find expected '-' indicator"

/-- The items of a sequence that is not indented against its key. -/
def unindentedItems : Nat → Composing (List Node)
  | 0 => throw "did not find expected '-' indicator"
  | n + 1 => do
    if ← skips .blockEntry then
      let item ← nodeUnless n [.blockEntry, .key, .value, .blockEnd] true false
      return item :: (← unindentedItems n)
    else return []

/-- The entries of an indented mapping. -/
def blockEntries : Nat → Composing (List (Node × Node))
  | 0 => throw "did not find expected key"
  | n + 1 => do
    if ← skips .key then
      let key ← nodeUnless n [.key, .value, .blockEnd] true true
      let value ←
        if ← skips .value then nodeUnless n [.key, .value, .blockEnd] true true
        else pure .nothing
      return (key, value) :: (← blockEntries n)
    else if ← skips .blockEnd then return []
    else throw "did not find expected key"

/-- The items of a sequence in brackets; one with a key is a mapping of its own. -/
def flowItems : Nat → Bool → Composing (List Node)
  | 0, _ => throw "did not find expected ',' or ']'"
  | n + 1, first => do
    if ← skips .flowSequenceEnd then return []
    if !first then
      if !(← skips .flowEntry) then throw "did not find expected ',' or ']'"
      if ← skips .flowSequenceEnd then return []
    let item ←
      if ← skips .key then do
        let key ← nodeUnless n [.value, .flowEntry, .flowSequenceEnd] false false
        let value ←
          if ← skips .value then nodeUnless n [.flowEntry, .flowSequenceEnd] false false
          else pure .nothing
        pure (.mapping [(key, value)])
      else node n false false
    return item :: (← flowItems n false)

/-- The entries of a mapping in braces; one without a colon has no value. -/
def flowEntries : Nat → Bool → Composing (List (Node × Node))
  | 0, _ => throw "did not find expected ',' or closing brace"
  | n + 1, first => do
    if ← skips .flowMappingEnd then return []
    if !first then
      if !(← skips .flowEntry) then throw "did not find expected ',' or closing brace"
      if ← skips .flowMappingEnd then return []
    let entry ←
      if ← skips .key then do
        let key ← nodeUnless n [.value, .flowEntry, .flowMappingEnd] false false
        let value ←
          if ← skips .value then nodeUnless n [.flowEntry, .flowMappingEnd] false false
          else pure .nothing
        pure (key, value)
      else do
        let key ← node n false false
        pure (key, .nothing)
    return entry :: (← flowEntries n false)

end

/-! ## Documents -/

/-- Takes the directives in front of a document. -/
def directives : Nat → Bool → Composing Unit
  | 0, _ => return
  | n + 1, versioned => do
    match ← peek with
    | some (.versionDirective major minor) =>
      if versioned then throw "found duplicate %YAML directive"
      if major ≠ 1 ∨ (minor ≠ 1 ∧ minor ≠ 2) then throw "found incompatible YAML document"
      advance
      directives n true
    | some (.tagDirective handle root) =>
      advance
      modify fun c => { c with handles := (handle, root) :: c.handles }
      directives n versioned
    | _ => return

/-- Is the next token a directive? -/
def atDirective : Composing Bool := do
  match ← peek with
  | some (.versionDirective _ _) | some (.tagDirective _ _) => return true
  | _ => return false

/-- Passes marks of the end of a document over. -/
def skipEnds : Nat → Composing Unit
  | 0 => return
  | n + 1 => do if ← skips .documentEnd then skipEnds n

/-- The only document of a text: nothing, or a node, marked or not. -/
def document (fuel : Nat) : Composing Node := do
  if (← peek).isNone then return .nothing
  let root ←
    if (← nextIs [.documentStart]) || (← atDirective) then do
      directives fuel false
      if !(← skips .documentStart) then throw "did not find expected <document start>"
      if (← peek).isNone || (← atDirective) then pure .nothing
      else nodeUnless fuel [.documentStart, .documentEnd] true false
    else node fuel true false
  skipEnds fuel
  match ← peek with
  | none => return root
  | some _ => throw "more than one document is not supported"

end Composer

/-- The only document of a text.  No token is passed over twice, so their number bounds the work. -/
def parse (text : String) : Except String Node := do
  let tokens ← tokensOf text
  match Composer.document (2 * tokens.length + 4) ⟨tokens, Composer.standardHandles, []⟩ with
  | .ok root _ => .ok root
  | .error e _ => .error e

end PathSelection.Yaml
