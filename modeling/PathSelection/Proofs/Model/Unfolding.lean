import PathSelection.Proofs.Model.Prediction

/-!
# Unfolded trees

The nodes of a decision tree stand in a list, where some may be reached from several others
and some from none.  Unfolded from its root, a valid tree is a tree in the proper sense:
its subtrees are trees themselves, and features follow it by recursion.  A walk through
the list needs no more steps than the list has nodes.

Main results:

- Theorem `DecisionTree.Valid.exists_unfolds`: a valid tree unfolds from each of its nodes.
- Theorem `DecisionTree.Unfolds.leads_iff`: features lead to the label of the unfolded tree.
- Theorem `DecisionTree.predict_of_validate`: the label of features is that of the unfolded tree.
-/

namespace PathSelection

variable {α : Type}

/-! ## Trees of trees -/

/-- A decision tree whose subtrees are trees themselves. -/
inductive UnfoldedTree (α : Type) where
  /-- go left if a feature is at most the threshold, and right otherwise -/
  | split (feature : Nat) (threshold : α) (left right : UnfoldedTree α)
  /-- the answer -/
  | leaf (label : Nat)

namespace UnfoldedTree

/-- The number of splits on the longest branch. -/
def height : UnfoldedTree α → Nat
  | split _ _ left right => max left.height right.height + 1
  | leaf _ => 0

/-- The label to which features lead; a split on a feature that is missing leads nowhere. -/
def label? [Scalar α] (features : List α) : UnfoldedTree α → Option Nat
  | split feature threshold left right =>
    match features[feature]? with
    | some value =>
      if Scalar.le value threshold then left.label? features else right.label? features
    | none => none
  | leaf label => some label

end UnfoldedTree

namespace DecisionTree

variable {t : DecisionTree α} {numLabels place : Nat} {tree other : UnfoldedTree α}

/-! ## Unfolding -/

/-- The tree that hangs from a node. -/
inductive Unfolds (t : DecisionTree α) : (place : Nat) → UnfoldedTree α → Prop
  | split {place feature left right : Nat} {threshold : α} {leftTree rightTree : UnfoldedTree α}
      (here : t.nodes[place]? = some (.split feature threshold left right))
      (onLeft : Unfolds t left leftTree) (onRight : Unfolds t right rightTree) :
      Unfolds t place (.split feature threshold leftTree rightTree)
  | leaf {place label : Nat} (here : t.nodes[place]? = some (.leaf label)) :
      Unfolds t place (.leaf label)

/-- Only one tree hangs from a node. -/
theorem Unfolds.unique (h : t.Unfolds place tree) (h' : t.Unfolds place other) : other = tree := by
  induction h generalizing other with
  | split here _ _ ihleft ihright =>
    cases h' with
    | split here' hleft hright =>
      obtain ⟨rfl, rfl, rfl, rfl⟩ := TreeNode.split.inj (Option.some.inj (here.symm.trans here'))
      rw [ihleft hleft, ihright hright]
    | leaf here' => cases here.symm.trans here'
  | leaf here =>
    cases h' with
    | split here' => cases here.symm.trans here'
    | leaf here' =>
      obtain rfl := TreeNode.leaf.inj (Option.some.inj (here.symm.trans here'))
      rfl

/-- A tree hangs from each node of a valid tree, and no branch of it has more splits than nodes
come after that node. -/
theorem Valid.exists_unfolds (hvalid : t.Valid numLabels) (hplace : place < t.nodes.length) :
    ∃ tree, t.Unfolds place tree ∧ place + tree.height < t.nodes.length := by
  -- children come after their parents, so the nodes are unfolded from the last one on
  induction hbehind : t.nodes.length - place using Nat.strongRecOn generalizing place with
  | ind behind ih =>
    have hnode : t.nodes[place]? = some t.nodes[place] := List.getElem?_eq_getElem hplace
    have hfits := hvalid.fits place _ hnode
    cases hkind : t.nodes[place] with
    | leaf label =>
      rw [hkind] at hnode
      exact ⟨.leaf label, .leaf hnode, hplace⟩
    | split feature threshold left right =>
      rw [hkind] at hnode hfits
      obtain ⟨-, hleft, hright, hleft', hright'⟩ := hfits
      obtain ⟨leftTree, hunfolds, hheight⟩ := ih _ (by omega) hleft' rfl
      obtain ⟨rightTree, hunfolds', hheight'⟩ := ih _ (by omega) hright' rfl
      refine ⟨.split feature threshold leftTree rightTree, .split hnode hunfolds hunfolds', ?_⟩
      rw [UnfoldedTree.height]
      omega

/-! ## Labels -/

section

variable [Scalar α] {features : List α} {label : Nat}

/-- Features lead from a node to the label of the tree that hangs from it. -/
theorem Unfolds.leads_iff (h : t.Unfolds place tree) :
    t.Leads features place label ↔ tree.label? features = some label := by
  induction h with
  | @split place feature left right threshold leftTree rightTree here _ _ ihleft ihright =>
    rw [UnfoldedTree.label?]
    constructor
    · intro hleads
      cases hleads with
      | leaf here' => cases here.symm.trans here'
      | split here' found onward =>
        obtain ⟨rfl, rfl, rfl, rfl⟩ := TreeNode.split.inj (Option.some.inj (here.symm.trans here'))
        simp only [found]
        split_ifs at onward ⊢ with hle
        · exact ihleft.1 onward
        · exact ihright.1 onward
    · intro hlabel
      cases found : features[feature]? with
      | none => simp [found] at hlabel
      | some value =>
        simp only [found] at hlabel
        refine .split here found ?_
        split_ifs at hlabel ⊢ with hle
        · exact ihleft.2 hlabel
        · exact ihright.2 hlabel
  | leaf here =>
    rw [UnfoldedTree.label?, Option.some_inj]
    constructor
    · intro hleads
      cases hleads with
      | leaf here' => exact TreeNode.leaf.inj (Option.some.inj (here.symm.trans here'))
      | split here' => cases here.symm.trans here'
    · rintro rfl
      exact .leaf here

/-- A tree that passes its check unfolds from its root, in one way only, and no branch of it has as
many splits as the tree has nodes.  Features of its width, whatever their values, lead through the
unfolded tree to a label below the bound without asking for a feature that is missing.  This label
is predicted, and every walk that may take as many steps as there are nodes, or more, finds it. -/
theorem predict_of_validate (h : t.validate numLabels = .ok ()) :
    ∃ tree, t.Unfolds 0 tree ∧ (∀ other, t.Unfolds 0 other → other = tree) ∧
      tree.height < t.nodes.length ∧
      ∀ features : List α, features.length = t.numFeatures →
        ∃ label, label < numLabels ∧ tree.label? features = some label ∧
          t.predict features = .ok label ∧
          ∀ steps, t.nodes.length ≤ steps → t.walk features steps 0 = .ok label := by
  have hvalid : t.Valid numLabels := validate_eq_ok_iff.1 h
  obtain ⟨tree, htree, hheight⟩ := hvalid.exists_unfolds hvalid.nonempty
  rw [Nat.zero_add] at hheight
  refine ⟨tree, htree, fun other hother => htree.unique hother, hheight, fun features hwidth => ?_⟩
  obtain ⟨label, hlabel, hleads, hpredict⟩ := hvalid.exists_predict hwidth
  have hfound := htree.leads_iff.1 hleads
  refine ⟨label, hlabel, hfound, hpredict, fun steps hsteps => ?_⟩
  obtain ⟨label', -, hleads', hwalk⟩ :=
    hvalid.exists_walk hwidth hvalid.nonempty ((Nat.zero_add steps).symm ▸ hsteps)
  obtain rfl : label' = label := Option.some.inj ((htree.leads_iff.1 hleads').symm.trans hfound)
  exact hwalk

/-- A tree with a node that hangs from two others, and with one that hangs from none. -/
def sharedTree : DecisionTree Float :=
  ⟨2, [.split 0 0.5 1 2, .split 1 2 2 3, .split 1 1 3 4, .leaf 0, .leaf 1, .leaf 0]⟩

/-- A feature that is no number goes right, to the node that is shared. -/
theorem predict_of_validate_sharedTree :
    sharedTree.validate 2 = .ok () ∧ ∃ tree, sharedTree.Unfolds 0 tree ∧
      tree.label? [0 / 0, 1] = some 0 ∧ sharedTree.predict [0 / 0, 1] = .ok 0 := by
  have hvalid : sharedTree.validate 2 = .ok () := rfl
  obtain ⟨tree, htree, -, -, hlabels⟩ := predict_of_validate hvalid
  obtain ⟨label, -, hlabel, hpredict, -⟩ := hlabels [0 / 0, 1] rfl
  have hzero : sharedTree.predict [0 / 0, 1] = .ok 0 := rfl
  obtain rfl : label = 0 := Except.ok.inj (hpredict.symm.trans hzero)
  exact ⟨hvalid, tree, htree, hlabel, hzero⟩

end

end DecisionTree

end PathSelection
