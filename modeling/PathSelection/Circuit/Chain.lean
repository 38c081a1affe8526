import PathSelection.Circuit.Dag

/-!
# Dependency chains

The depth of a circuit is the number of layers of its operations, where a
barrier adds no layer.  A longest chain counts every operation; among chains of
the same length the earliest applied operations are taken, from its end
backwards.  An operation that is its own parent has no way back, so there may be no
longest chain.
-/

namespace PathSelection.Dag

/-! ## Depth -/

/-- The layers up to each operation, the latest first. -/
abbrev Layers := List (Nat × Nat)

/-- The layers up to an operation; one that is not there yet has none. -/
def Layers.upTo (layers : Layers) (node : Nat) : Nat := (layers.lookup node).getD 0

/-- The layers with one more operation. -/
def addLayer (d : Dag) (layers : Layers) (entry : Nat × Instruction) : Layers :=
  let before := ((d.opPredecessors entry.1).map layers.upTo).foldl max 0
  (entry.1, if entry.2.isBarrier then before else before + 1) :: layers

/-- The layers of all operations. -/
def layers (d : Dag) : Layers := d.ops.foldl d.addLayer []

/-- The number of layers of operations other than barriers. -/
def depth (d : Dag) : Nat := (d.layers.map (·.2)).foldl max 0

/-! ## Longest chains -/

/-- An operation at the end of a chain: the length of the chain and the operation before it. -/
structure Link where
  node : Nat
  length : Nat
  parent : Option Nat
  deriving DecidableEq, Repr

/-- The links of the operations so far, the latest first. -/
abbrev Links := List Link

/-- The link of an operation. -/
def Links.of? (links : Links) (node : Nat) : Option Link := links.find? (fun l => l.node == node)

/-- The length of the longest chain to an operation; one that is not there yet has none. -/
def Links.lengthTo (links : Links) (node : Nat) : Nat :=
  match links.of? node with
  | some l => l.length
  | none => 0

/-- The better of two ends of chains: the longer one, and of two equals the earlier node. -/
def betterEnd (links : Links) (chosen : Option Nat) (node : Nat) : Option Nat :=
  match chosen with
  | none => some node
  | some other =>
    let n := links.lengthTo node
    let m := links.lengthTo other
    if m < n ∨ (n = m ∧ node < other) then some node else some other

/-- The links with one more operation. -/
def addLink (d : Dag) (links : Links) (entry : Nat × Instruction) : Links :=
  let parent := (d.opPredecessors entry.1).foldl (betterEnd links) none
  let length := match parent with
    | some p => links.lengthTo p + 1
    | none => 1
  ⟨entry.1, length, parent⟩ :: links

/-- The links of all operations, the latest first. -/
def links (d : Dag) : Links := d.ops.foldl d.addLink []

/-- The earliest operation with a longest chain. -/
def Links.best? (links : Links) : Option Link :=
  links.reverse.foldl
    (fun best l =>
      match best with
      | none => some l
      | some b => if b.length < l.length then some l else some b)
    none

/-- The chain that ends in a node, in front of nodes already there, if it has at most `steps` nodes.
There is none if the way back along the parents does not end within so many. -/
def Links.chainTo (links : Links) :
    (steps : Nat) → (node : Nat) → (tail : List Nat) → Option (List Nat)
  | 0, _, _ => none
  | steps + 1, node, tail =>
    match (links.of? node).bind (·.parent) with
    | some parent => chainTo links steps parent (node :: tail)
    | none => some (node :: tail)

/-- One longest chain of dependent operations, first to last.  A way back that ends meets every link
at most once and one more node at most, so there is none only if the way back never ends. -/
def longestPath (d : Dag) : Option (List Nat) :=
  match d.links.best? with
  | some last => d.links.chainTo (d.links.length + 1) last.node []
  | none => some []

/-- The names along a chain. -/
def namesAlong (d : Dag) (path : List Nat) : List String :=
  path.filterMap fun node => (d.instruction? node).map Instruction.name

/-- How often each name occurs along the longest chain, if there is one. -/
def countOpsLongestPath (d : Dag) : Option Tally :=
  d.longestPath.map fun path => Tally.ofNames (d.namesAlong path)

end PathSelection.Dag
