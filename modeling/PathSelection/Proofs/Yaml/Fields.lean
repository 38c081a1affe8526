import PathSelection.Proofs.Traversal
import PathSelection.Yaml.Decode

/-!
# Fields of YAML documents

A record of a document is read key by key.  Where that succeeds, what is found
under a key that the record knows is what the document has there, and keys lead
from one record into the next.

Main results:

- Theorem `Decoder.get?_of_fields`: what is found under a known key.
- Theorem `field?_of_fields`: a field is read from what stands at its key.
-/

namespace PathSelection.Yaml

namespace Node

/-- Is a node a scalar with this text? -/
def spells (key : String) : Node → Bool
  | .scalar _ _ t => t == key
  | _ => false

/-- What a mapping has under a key. -/
def entry? (key : String) : Node → Option Node
  | .mapping entries => (entries.find? fun e => e.1.spells key).map (·.2)
  | _ => none

/-- What stands where keys lead. -/
def at? : Node → List String → Option Node
  | node, [] => some node
  | node, key :: rest => (node.entry? key).bind fun n => n.at? rest

@[simp]
theorem at?_singleton (node : Node) (key : String) : node.at? [key] = node.entry? key := by
  simp [at?]

/-- A path into a document goes through the value of its first key. -/
theorem at?_cons (node : Node) (key : String) (rest : List String) :
    node.at? (key :: rest) = (node.entry? key).bind fun n => n.at? rest := rfl

end Node

namespace Decoder

variable {known : List String} {key : String}

/-- The fields that were found, and one more entry of a mapping. -/
def addField (known : List String) (found : Dict String Node) (entry : Node × Node) :
    Except String (Dict String Node) := do
  let name ← text entry.1
  if !known.contains name then return found
  if (Dict.get? found name).isSome then throw "duplicate field"
  return Dict.put name entry.2 found

private theorem fields_mapping (known : List String) (entries : List (Node × Node)) :
    fields known (.mapping entries) = entries.foldlM (addField known) [] := rfl

/-- One more entry is found under its own key, where nothing was found before. -/
theorem get?_of_addField {found found' : Dict String Node} {entry : Node × Node}
    (h : addField known found entry = .ok found') (hkey : key ∈ known) :
    Dict.get? found' key =
      (Dict.get? found key).or (if entry.1.spells key then some entry.2 else none) := by
  obtain ⟨name, value⟩ := entry
  cases name with
  | sequence items => cases h
  | mapping entries => cases h
  | scalar style tag t =>
    simp only [addField, text, bind, Except.bind] at h
    split at h
    next hunknown =>
      obtain rfl : found = found' := Except.ok.inj h
      have hne : t ≠ key := by
        rintro rfl
        simp [hkey] at hunknown
      simp [Node.spells, hne]
    next =>
      cases hfound : Dict.get? found t with
      | some n => simp [hfound, throw, throwThe, MonadExceptOf.throw] at h
      | none =>
        obtain rfl : Dict.put t value found = found' := by
          simpa [hfound, pure, Except.pure] using h
        by_cases heq : t = key
        · subst heq
          simp [Node.spells, hfound]
        · rw [Dict.get?_put_of_ne found (beq_false_of_ne (Ne.symm heq))]
          simp [Node.spells, heq]

/-- After some entries a known key has what was found under it before them, and else what the first
of them that has this key holds. -/
theorem get?_of_foldlM_addField {entries : List (Node × Node)} {found fs : Dict String Node}
    (h : entries.foldlM (addField known) found = .ok fs) (hkey : key ∈ known) :
    Dict.get? fs key =
      (Dict.get? found key).or ((entries.find? fun e => e.1.spells key).map (·.2)) := by
  induction entries generalizing found with
  | nil =>
    obtain rfl : found = fs := Except.ok.inj h
    simp
  | cons entry rest ih =>
    obtain ⟨found', hentry, hrest⟩ := bind_eq_ok_iff.1 h
    rw [ih hrest, get?_of_addField hentry hkey, List.find?_cons, Option.or_assoc]
    cases entry.1.spells key <;> simp

/-- What is found under a known key is what the document has there. -/
theorem get?_of_fields {node : Node} {fs : Dict String Node} (h : fields known node = .ok fs)
    (hkey : key ∈ known) : Dict.get? fs key = node.entry? key := by
  cases node with
  | sequence items => cases h
  | mapping entries =>
    rw [fields_mapping] at h
    simpa [Dict.get?, Node.entry?] using get?_of_foldlM_addField h hkey
  | scalar style tag t =>
    obtain rfl : [] = fs := by
      simp only [fields] at h
      split at h
      · cases ‹Node.scalar style tag t = .mapping _›
      · exact Except.ok.inj h
      · cases h
    rfl

end Decoder

/-- A field is read from what stands at its key. -/
theorem field?_of_fields {β : Type} {known : List String} {node : Node} {fs : Dict String Node}
    (h : Decoder.fields known node = .ok fs) (d : Decoder β) {key : String} (hkey : key ∈ known) :
    field? d fs key = (node.at? [key]).mapM d := by
  rw [field?, Decoder.get?_of_fields h hkey, Node.at?_singleton]

end PathSelection.Yaml
