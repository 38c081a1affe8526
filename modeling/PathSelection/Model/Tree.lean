import PathSelection.Error
import PathSelection.Json.Variants

/-!
# Decision trees

A binary tree as a list of nodes, the root first.  In a valid tree every node
comes before its children, so that a walk from the root ends in a leaf.
-/

namespace PathSelection

/-- A node of a decision tree. -/
inductive TreeNode (α : Type) where
  /-- go left if a feature is at most the threshold, and right otherwise -/
  | split (feature : Nat) (threshold : α) (left right : Nat)
  /-- the answer -/
  | leaf (label : Nat)

/-- A decision tree over a number of features. -/
structure DecisionTree (α : Type) where
  numFeatures : Nat
  nodes : List (TreeNode α)

namespace DecisionTree

variable {α : Type}

/-- The tree that always gives one answer. -/
def constant (numFeatures label : Nat) : DecisionTree α := ⟨numFeatures, [.leaf label]⟩

/-- What is wrong with a node at a place, if anything is. -/
def nodeFault? (t : DecisionTree α) (numLabels : Nat) (entry : TreeNode α × Nat) :
    Option String :=
  let i := entry.2
  match entry.1 with
  | .split feature _ left right =>
    if t.numFeatures ≤ feature then
      some s!"node {i} splits on feature {feature}, tree has {t.numFeatures}"
    else if left ≤ i ∨ right ≤ i ∨ t.nodes.length ≤ left ∨ t.nodes.length ≤ right then
      some s!"node {i} has invalid children {left}/{right}"
    else none
  | .leaf label =>
    if numLabels ≤ label then some s!"node {i} predicts label {label}, catalog has {numLabels}"
    else none

/-- A tree must have nodes, and each must refer to features, labels and later nodes that exist. -/
def validate (t : DecisionTree α) (numLabels : Nat) : Except SelectionError Unit :=
  if t.nodes.isEmpty then .error (.invalidModel "decision tree has no nodes")
  else match t.nodes.zipIdx.findSome? (t.nodeFault? numLabels) with
    | some fault => .error (.invalidModel fault)
    | none => .ok ()

variable [Scalar α]

/-- A walk of at most some steps from a node; without a leaf the place where it stopped. -/
def walk (t : DecisionTree α) (features : List α) : (steps node : Nat) → Except Nat Nat
  | 0, node => .error node
  | steps + 1, node =>
    match t.nodes[node]? with
    | some (.leaf label) => .ok label
    | some (.split feature threshold left right) =>
      let value := features[feature]?.getD Scalar.zero
      walk t features steps (if Scalar.le value threshold then left else right)
    | none => .error node

/-- The label of some features. -/
def predict (t : DecisionTree α) (features : List α) : Except SelectionError Nat :=
  if features.length ≠ t.numFeatures then .error (.sizeMismatch t.numFeatures features.length)
  else match t.walk features t.nodes.length 0 with
    | .ok label => .ok label
    | .error node =>
      .error (.invalidModel s!"decision tree walk did not reach a leaf (stopped at node {node})")

/-! ## Documents -/

/-- The document of a node. -/
def nodeToJson : TreeNode α → Json
  | .split feature threshold left right =>
    .record [("type", .text "split"), ("feature", .nat feature), ("threshold", .scalar threshold),
      ("left", .nat left), ("right", .nat right)]
  | .leaf label => .record [("type", .text "leaf"), ("label", .nat label)]

/-- The document of a tree. -/
def toJson (t : DecisionTree α) : Json :=
  .record [("num_features", .nat t.numFeatures), ("nodes", .list nodeToJson t.nodes)]

/-- The nodes as a choice tagged by their type. -/
def nodeChoice : Json.Tagged (TreeNode α) where
  kind := "TreeNode"
  tag := "type"
  variants := [
    ("split", "TreeNode::Split", .fields
      (TreeNode.split <$> .required "feature" Json.Decoder.usize
        <*> .required "threshold" Json.Decoder.number
        <*> .required "left" Json.Decoder.usize
        <*> .required "right" Json.Decoder.usize)),
    ("leaf", "TreeNode::Leaf", .fields (TreeNode.leaf <$> .required "label" Json.Decoder.usize))]

/-- Reads a tree, which need not be valid. -/
def decoder : Json.Decoder (DecisionTree α) :=
  Json.recordOf "DecisionTree"
    (DecisionTree.mk <$> .required "num_features" Json.Decoder.usize
      <*> .required "nodes" (Json.Decoder.listOf (Json.taggedOf nodeChoice 2)))

end DecisionTree

end PathSelection
