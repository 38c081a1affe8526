import PathSelection.Model.Mask
import PathSelection.Model.Tree

/-!
# Models

A classifier together with the mask of the features that it looks at.
-/

namespace PathSelection

/-- A classifier and its mask. -/
structure Model (α : Type) where
  tree : DecisionTree α
  mask : FeatureMask

namespace Model

variable {α : Type}

/-- What is wrong with a classifier and a mask together, if anything is. -/
def fault? (tree : DecisionTree α) (mask : FeatureMask) : Option SelectionError :=
  if mask.featureCount ≠ featureCount then some (.sizeMismatch featureCount mask.featureCount)
  else if mask.size ≠ tree.numFeatures then some (.sizeMismatch tree.numFeatures mask.size)
  else if mask.indices.any (fun i => decide (mask.featureCount ≤ i)) then
    some (.invalidModel "feature mask index out of range")
  else none

/-- The model of a classifier and a mask, which must agree. -/
def ofParts (tree : DecisionTree α) (mask : FeatureMask) : Except SelectionError (Model α) :=
  match fault? tree mask with
  | some e => .error e
  | none => .ok ⟨tree, mask⟩

/-- The label of some features. -/
def predict [Scalar α] (m : Model α) (v : FeatureVector α) : Except SelectionError Nat := do
  m.tree.predict (← m.mask.apply v)

end Model

end PathSelection
