import PathSelection.Circuit.Basic

/-!
# Feature vectors

The numbers that describe an uncompiled circuit to a model.  Their order is part
of every stored model: first the gates of a fixed vocabulary, then the number of
qubits, the depth, and for one to five qubits the number of operations on
exactly that many.
-/

namespace PathSelection

/-- The gate names that are counted, in their order. -/
def gateVocabulary : List String := [
  "u3", "u2", "u1", "cx", "id", "u0", "u", "p", "x", "y", "z", "h", "s", "sdg", "t", "tdg",
  "rx", "ry", "rz", "sx", "sxdg", "cz", "cy", "swap", "ch", "ccx", "cswap", "crx", "cry", "crz",
  "cu1", "cp", "cu3", "csx", "cu", "rxx", "rzz", "rccx", "rc3x", "c3x", "c3sqrtx", "c4x"]

/-- The largest number of qubits whose operations are counted. -/
def maxInteractionWidth : Nat := 5

/-- The numbers of qubits whose operations are counted. -/
def interactionWidths : List Nat := (List.range maxInteractionWidth).map (· + 1)

/-- The names of the features in their order. -/
def featureNames : List String :=
  gateVocabulary ++ ["num_qubits", "depth"]
    ++ interactionWidths.map fun k => s!"{k}_max_interactions"

/-- The number of features. -/
def featureCount : Nat := gateVocabulary.length + 2 + maxInteractionWidth

/-- The values of features in their order. -/
structure FeatureVector (α : Type) where
  values : List α

namespace FeatureVector

/-- The number of operations other than barriers on exactly `k` qubits. -/
def interactions (c : Circuit) (k : Nat) : Nat :=
  c.instructions.countP fun i => !i.isBarrier && i.numQubits == k

/-- The features of a circuit as counts. -/
def counts (c : Circuit) : List Nat :=
  let tally := c.countOps
  gateVocabulary.map tally.count ++ [c.numQubits, c.depth]
    ++ interactionWidths.map (interactions c)

variable {α : Type}

/-- The features of a circuit. -/
def ofCircuit [Scalar α] (c : Circuit) : FeatureVector α := ⟨(counts c).map Scalar.ofNat⟩

/-- The number of values. -/
def size (v : FeatureVector α) : Nat := v.values.length

/-- Are there no values? -/
def isEmpty (v : FeatureVector α) : Bool := v.values.isEmpty

/-- The value of a feature. -/
def get? (v : FeatureVector α) (name : String) : Option α :=
  (featureNames.zip v.values).lookup name

/-- The features with their names; values without a name are left out, and names without a value. -/
def toList (v : FeatureVector α) : List (String × α) := featureNames.zip v.values

/-- The values at some places, in the order of the places, if there is one at each. -/
def select (v : FeatureVector α) (places : List Nat) : Option (List α) :=
  places.mapM fun i => v.values[i]?

variable [Scalar α]

/-- The document of a feature vector. -/
def toJson (v : FeatureVector α) : Json := .list .scalar v.values

/-- Reads a feature vector. -/
def decoder : Json.Decoder (FeatureVector α) := fun v =>
  (Json.Decoder.listOf Json.Decoder.number v).map FeatureVector.mk

/-- A circuit has all features. -/
theorem size_ofCircuit (c : Circuit) : (ofCircuit c : FeatureVector α).size = featureCount := by
  simp [ofCircuit, size, counts, featureCount, interactionWidths, maxInteractionWidth]

end FeatureVector

end PathSelection
