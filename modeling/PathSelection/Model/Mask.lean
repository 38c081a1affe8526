import PathSelection.Dataset.Example

/-!
# Feature masks

Which features a classifier looks at.
-/

namespace PathSelection

/-- The places of the features that are kept, out of a number of features. -/
structure FeatureMask where
  featureCount : Nat
  indices : List Nat
  deriving DecidableEq, Repr

namespace FeatureMask

/-- The mask that keeps everything. -/
def all (featureCount : Nat) : FeatureMask := ⟨featureCount, List.range featureCount⟩

/-- The number of features that are kept. -/
def size (m : FeatureMask) : Nat := m.indices.length

/-- Is nothing kept? -/
def isEmpty (m : FeatureMask) : Bool := m.indices.isEmpty

section

variable {α : Type} [Scalar α]

/-- Sums with the values of one more example added; values without a sum are left out. -/
def addValues : (sums values : List α) → List α
  | s :: sums, v :: values => (s + v) :: addValues sums values
  | sums, [] => sums
  | [], _ => []

/-- The sums of each feature over examples. -/
def columnSums (size : Nat) (examples : List (TrainingExample α)) : List α :=
  examples.foldl (fun sums e => addValues sums e.features.values)
    (List.replicate size Scalar.zero)

/-- The mask that keeps the features with a positive sum over examples. -/
def ofExamples (examples : List (TrainingExample α)) : FeatureMask :=
  let size := match examples with
    | e :: _ => e.features.size
    | [] => PathSelection.featureCount
  ⟨size, (columnSums size examples).zipIdx.filterMap fun (sum, i) =>
    if Scalar.lt Scalar.zero sum then some i else none⟩

/-- The features that are kept. -/
def apply (m : FeatureMask) (v : FeatureVector α) : Except SelectionError (List α) :=
  if v.size ≠ m.featureCount then .error (.sizeMismatch m.featureCount v.size)
  else match v.select m.indices with
    | some values => .ok values
    | none => .error (.invalidModel "feature mask index out of range")

end

/-- The document of a mask. -/
def toJson (m : FeatureMask) : Json :=
  .record [("feature_len", .nat m.featureCount), ("indices", .list .nat m.indices)]

/-- Reads a mask. -/
def decoder : Json.Decoder FeatureMask :=
  Json.recordOf "FeatureMask"
    (FeatureMask.mk <$> .required "feature_len" Json.Decoder.usize
      <*> .required "indices" (Json.Decoder.listOf Json.Decoder.usize))

end FeatureMask

end PathSelection
