import PathSelection.Proofs.Circuit.Levels

/-!
# Lengths of longest chains

A chain is read back along the parents.  A way back that ends meets no node twice, so the
number of links bounds its length, and the only circuits without a longest chain are those
in which the way back never ends.

The link of an operation is one longer than the longest link before it, so the lengths
of links are levels in which every operation has weight one, and a parent has a link
shorter by one.  This needs every parent to be an earlier operation, so no instruction may
name a classical bit twice.

Main results:

- Theorem `exists_longestPath_iff`: there is a longest chain exactly if the way back from the best
  link ends.
- Theorem `linksOf_eq`: the lengths of links are levels.
- Theorem `Links.Traced.length_eq`: the way back from an operation has the length of its link.
- Theorem `Circuit.Sound.exists_longestPath`: a longest chain has as many operations as the peak
  of the schedule in which each has weight one.
-/

namespace PathSelection

namespace Dag

variable {d : Dag} {links : Links} {node : Nat} {path : List Nat}

/-! ## The way back -/

/-- Going back along the parents from a node until there is none meets these nodes, the last one
first. -/
inductive Links.Traced (links : Links) : Nat → List Nat → Prop
  | first {node : Nat} : links.parent? node = none → Traced links node [node]
  | next {node parent : Nat} {path : List Nat} : links.parent? node = some parent →
    Traced links parent path → Traced links node (path ++ [node])

namespace Links

/-- Where the parents come to an end, they can be traced. -/
theorem Ends.exists_traced (h : links.Ends node) : ∃ path, links.Traced node path := by
  induction h with
  | last hnone => exact ⟨_, .first hnone⟩
  | next hparent _ ih =>
    obtain ⟨path, hpath⟩ := ih
    exact ⟨_, .next hparent hpath⟩

/-- What can be traced comes to an end. -/
theorem Traced.ends (h : links.Traced node path) : links.Ends node := by
  induction h with
  | first hnone => exact .last hnone
  | next hparent _ ih => exact .next hparent ih

/-- There is only one way back. -/
theorem Traced.unique (h : links.Traced node path) {other : List Nat}
    (h' : links.Traced node other) : path = other := by
  induction h generalizing other with
  | first hnone =>
    cases h' with
    | first _ => rfl
    | next hparent _ => simp [hnone] at hparent
  | next hparent _ ih =>
    cases h' with
    | first hnone => simp [hparent] at hnone
    | next hparent' hpath =>
      obtain rfl := Option.some.inj (hparent.symm.trans hparent')
      rw [ih hpath]

/-- A traced path ends in its node. -/
theorem Traced.getLast? (h : links.Traced node path) : path.getLast? = some node := by
  cases h with
  | first _ => rfl
  | next _ _ => exact List.getLast?_concat

private theorem Traced.ne_nil (h : links.Traced node path) : path ≠ [] := by
  rintro rfl
  simpa using h.getLast?

/-- The way back from a node that is met is not longer. -/
theorem Traced.exists_of_mem (h : links.Traced node path) {n : Nat} (hn : n ∈ path) :
    ∃ front, links.Traced n front ∧ front.length ≤ path.length := by
  induction h with
  | first hnone =>
    obtain rfl := List.mem_singleton.1 hn
    exact ⟨_, .first hnone, le_rfl⟩
  | next hparent htraced ih =>
    rcases List.mem_append.1 hn with hn | hn
    · obtain ⟨front, hfront, hle⟩ := ih hn
      exact ⟨front, hfront, by simp; omega⟩
    · obtain rfl := List.mem_singleton.1 hn
      exact ⟨_, .next hparent htraced, le_rfl⟩

/-- A way back that ends meets no node twice. -/
theorem Traced.nodup (h : links.Traced node path) : path.Nodup := by
  induction h with
  | first _ => exact List.nodup_singleton _
  | @next node parent path hparent htraced ih =>
    refine List.nodup_append'.2 ⟨ih, List.nodup_singleton node, fun n hn hn' => ?_⟩
    obtain rfl := List.mem_singleton.1 hn'
    -- the way back from the node would be no longer than what is left of it
    obtain ⟨front, hfront, hle⟩ := htraced.exists_of_mem hn
    rw [hfront.unique (.next hparent htraced), List.length_append, List.length_singleton] at hle
    omega

/-- All nodes that are met have links, except perhaps the first. -/
theorem Traced.tail_subset (h : links.Traced node path) : path.tail ⊆ links.map (·.node) := by
  induction h with
  | first _ => simp
  | @next node parent path hparent htraced ih =>
    rw [List.tail_append_of_ne_nil htraced.ne_nil, List.append_subset]
    obtain ⟨l, hl, -⟩ := Option.bind_eq_some_iff.1 hparent
    have hnode : l.node = node := by simpa using List.find?_some hl
    exact ⟨ih, by simpa using ⟨l, List.mem_of_find?_eq_some hl, hnode⟩⟩

/-- A way back that ends is at most one longer than the list of links. -/
theorem Traced.length_le (h : links.Traced node path) : path.length ≤ links.length + 1 := by
  have hnodup : path.tail.Nodup := h.nodup.sublist (List.tail_sublist path)
  have hle := (List.subperm_of_subset hnodup h.tail_subset).length_le
  rw [List.length_tail, List.length_map] at hle
  omega

/-- A chain is read back if the way back ends within the given steps. -/
theorem chainTo_eq_some_iff {steps : Nat} {tail chain : List Nat} :
    links.chainTo steps node tail = some chain ↔
      ∃ path, links.Traced node path ∧ path.length ≤ steps ∧ path ++ tail = chain := by
  induction steps generalizing node tail with
  | zero =>
    simp only [chainTo, reduceCtorEq, false_iff]
    rintro ⟨path, hpath, hle, -⟩
    exact hpath.ne_nil (List.length_eq_zero_iff.1 (Nat.le_zero.1 hle))
  | succ steps ih =>
    cases hparent : links.parent? node with
    | none =>
      have hread : links.chainTo (steps + 1) node tail = some (node :: tail) := by
        have hnext : (links.of? node).bind (·.parent) = none := hparent
        simp only [chainTo, hnext]
      rw [hread, Option.some.injEq]
      constructor
      · intro h
        exact ⟨[node], .first hparent, by simp, h⟩
      · rintro ⟨path, hpath, -, hchain⟩
        rwa [hpath.unique (.first hparent)] at hchain
    | some parent =>
      have hread : links.chainTo (steps + 1) node tail =
          links.chainTo steps parent (node :: tail) := by
        have hnext : (links.of? node).bind (·.parent) = some parent := hparent
        simp only [chainTo, hnext]
      rw [hread, ih]
      constructor
      · rintro ⟨path, hpath, hle, rfl⟩
        exact ⟨path ++ [node], .next hparent hpath, by simpa using hle, by simp⟩
      · rintro ⟨path, hpath, hle, rfl⟩
        cases hpath with
        | first hnone => simp [hparent] at hnone
        | next hparent' hfront =>
          obtain rfl := Option.some.inj (hparent.symm.trans hparent')
          exact ⟨_, hfront, by simpa using hle, by simp⟩

end Links

/-- A longest chain is the whole way back from the best link. -/
theorem longestPath_eq_some_iff :
    d.longestPath = some path ↔
      match d.links.best? with
      | some l => d.links.Traced l.node path
      | none => path = [] := by
  unfold longestPath
  cases d.links.best? with
  | none => simp [eq_comm]
  | some l =>
    simp only [Links.chainTo_eq_some_iff, List.append_nil]
    constructor
    · rintro ⟨_, hpath, -, rfl⟩
      exact hpath
    · intro hpath
      exact ⟨path, hpath, hpath.length_le, rfl⟩

/-- The way back from the best link ends. -/
def Traceable (d : Dag) : Prop := ∀ l, d.links.best? = some l → d.links.Ends l.node

/-- There is a longest chain exactly if the way back from the best link ends. -/
theorem exists_longestPath_iff : (∃ path, d.longestPath = some path) ↔ d.Traceable := by
  unfold Traceable
  simp only [longestPath_eq_some_iff]
  cases d.links.best? with
  | none => simp
  | some l =>
    simp only [Option.some.injEq, forall_eq']
    exact ⟨fun ⟨_, hpath⟩ => hpath.ends, Links.Ends.exists_traced⟩

/-! ## Lengths of links -/

/-- The lengths of chains to operations are their levels if each has weight one. -/
theorem linksOf_eq (operations : List (Nat × Instruction)) :
    (d.linksOf operations).lengthTo = (d.levelsOf (fun _ => 1) operations).level ∧
      ((d.linksOf operations).map (·.length)).foldl max 0 =
        (d.levelsOf (fun _ => 1) operations).peak := by
  induction operations using List.reverseRecOn with
  | nil => exact ⟨rfl, rfl⟩
  | append_singleton operations o ih =>
    obtain ⟨hlevel, hpeak⟩ := ih
    rw [linksOf_concat, levelsOf_concat]
    have hstep : ∃ parent, d.addLink (d.linksOf operations) o =
        ⟨o.1, (d.levelsOf (fun _ => 1) operations).top (d.opPredecessors o.1) + 1, parent⟩
          :: d.linksOf operations := by
      -- The chosen predecessor has a longest chain among all.
      have hspec := foldl_betterEnd_spec (d.linksOf operations) (d.opPredecessors o.1)
      refine ⟨(d.opPredecessors o.1).foldl (betterEnd (d.linksOf operations)) none, ?_⟩
      rw [addLink]
      cases hchosen : (d.opPredecessors o.1).foldl (betterEnd (d.linksOf operations)) none with
      | none =>
        rw [hchosen] at hspec
        rw [hspec]
        rfl
      | some p =>
        rw [hchosen, hlevel] at hspec
        have htop : (d.levelsOf (fun _ => 1) operations).top (d.opPredecessors o.1) =
            (d.levelsOf (fun _ => 1) operations).level p :=
          le_antisymm (Levels.top_le_iff.2 hspec.2) (Levels.level_le_top hspec.1)
        simp only [hlevel, htop]
    obtain ⟨parent, hstep⟩ := hstep
    rw [hstep]
    constructor
    · funext node
      rw [addLevel]
      by_cases hne : node = o.1
      · simp [hne, Levels.level_put_of_mem, Links.lengthTo, Links.of?]
      · rw [Levels.level_put_of_not_mem (by simpa using hne), ← hlevel]
        simp [Ne.symm hne, Links.lengthTo, Links.of?]
    · rw [List.map_cons, Levels.foldl_max_cons, hpeak]
      rfl

/-- One more operation has the best link only if its chain is longer than all others. -/
theorem Links.best?_cons (l : Link) (links : Links) :
    best? (l :: links) = match best? links with
      | none => some l
      | some b => if b.length < l.length then some l else some b := by
  unfold best?
  rw [List.reverse_cons]
  exact List.foldl_concat _ _ _ _

/-- The best link is one of the longest; only of none is none the best. -/
theorem Links.best?_spec (links : Links) :
    match links.best? with
    | none => links = []
    | some l => l ∈ links ∧ l.length = (links.map (·.length)).foldl max 0 := by
  induction links with
  | nil => rfl
  | cons l links ih =>
    rw [best?_cons, List.map_cons, Levels.foldl_max_cons]
    cases hbest : best? links with
    | none =>
      obtain rfl : links = [] := by simpa [hbest] using ih
      simp
    | some b =>
      rw [hbest] at ih
      by_cases hlonger : b.length < l.length
      · simp only [if_pos hlonger]
        exact ⟨List.mem_cons_self, by omega⟩
      · simp only [if_neg hlonger]
        exact ⟨List.mem_cons_of_mem l ih.1, by omega⟩

/-- The links of operations have their nodes, the latest first. -/
theorem map_node_linksOf (operations : List (Nat × Instruction)) :
    (d.linksOf operations).map (·.node) = (operations.map (·.1)).reverse := by
  induction operations using List.reverseRecOn with
  | nil => rfl
  | append_singleton operations o ih =>
    rw [linksOf_concat, addLink, List.map_cons, ih]
    simp

/-- A link is found by its node if no other has it. -/
theorem Links.lengthTo_of_mem {links : Links} {l : Link} (hnodup : (links.map (·.node)).Nodup)
    (h : l ∈ links) : links.lengthTo l.node = l.length := by
  have hfound : links.of? l.node = some l := by
    cases hfind : links.of? l.node with
    | none => exact absurd (beq_self_eq_true l.node) (List.find?_eq_none.1 hfind l h)
    | some l' =>
      have hnode : l'.node = l.node := by simpa using List.find?_some hfind
      rw [List.inj_on_of_nodup_map hnodup (List.mem_of_find?_eq_some hfind) h hnode]
  rw [lengthTo, hfound]

/-- The link of an operation is one longer than that of its parent. -/
structure Links.Linked (links : Links) (node : Nat) : Prop where
  first : links.parent? node = none → links.lengthTo node = 1
  next : ∀ p, links.parent? node = some p →
    0 < links.lengthTo p ∧ links.lengthTo node = links.lengthTo p + 1

/-- The way back from an operation has the length of its link. -/
theorem Links.Traced.length_eq (h : links.Traced node path)
    (hlinked : ∀ node, 0 < links.lengthTo node → links.Linked node)
    (hpos : 0 < links.lengthTo node) : path.length = links.lengthTo node := by
  induction h with
  | first hnone => exact ((hlinked _ hpos).first hnone).symm
  | next hparent _ ih =>
    obtain ⟨hp, hlength⟩ := (hlinked _ hpos).next _ hparent
    rw [List.length_append, ih hp, hlength, List.length_singleton]

/-- Later operations leave the length of a chain alone. -/
theorem lengthTo_linksOf_append {before behind : List (Nat × Instruction)}
    (h : ∀ a ∈ behind, a.1 ≠ node) :
    (d.linksOf (before ++ behind)).lengthTo node = (d.linksOf before).lengthTo node := by
  induction behind using List.reverseRecOn with
  | nil => rw [List.append_nil]
  | append_singleton behind a ih =>
    rw [← List.append_assoc, linksOf_concat, Links.lengthTo,
      of?_addLink_of_ne _ (h a (by simp))]
    exact ih fun b hb => h b (by simp [hb])

namespace Record

variable {r : Record}

/-- The parent of an operation is chosen by the links of the operations before it. -/
theorem Sound.parent?_eq (h : r.Sound) {before behind : List (Nat × Instruction)} {i : Instruction}
    (hsplit : r.accepted = before ++ (node, i) :: behind) :
    r.graph.links.parent? node =
      (r.graph.opPredecessors node).foldl (betterEnd (r.graph.linksOf before)) none := by
  have hsorted := h.pairwise_accepted
  rw [hsplit, List.pairwise_append, List.pairwise_cons] at hsorted
  rw [h.links_eq, hsplit]
  exact parent?_linksOf (o := (node, i)) hsorted.2.1.1

/-- The link of an operation is made from the operations up to it. -/
theorem Sound.lengthTo_eq (h : r.Sound) {before behind : List (Nat × Instruction)}
    {i : Instruction} (hsplit : r.accepted = before ++ behind) (hi : (node, i) ∈ before) :
    r.graph.links.lengthTo node = (r.graph.linksOf before).lengthTo node := by
  have hsorted := h.pairwise_accepted
  rw [hsplit, List.pairwise_append] at hsorted
  rw [h.links_eq, hsplit]
  exact lengthTo_linksOf_append fun a ha => (hsorted.2.2 _ hi a ha).ne'

/-- If no operation names a classical bit twice, each link is one longer than that of its parent. -/
theorem Sound.linked (h : r.Sound) (hclbits : ∀ o ∈ r.accepted, o.2.clbits.Nodup)
    (hpos : 0 < r.graph.links.lengthTo node) : r.graph.links.Linked node := by
  rw [h.links_eq] at hpos
  obtain ⟨i, hi⟩ := lengthTo_linksOf_pos_iff.1 hpos
  obtain ⟨before, behind, hsplit⟩ := List.append_of_mem hi
  have hparent := h.parent?_eq hsplit
  have hsplit' : r.accepted = (before ++ [(node, i)]) ++ behind := by simp [hsplit]
  have hlength : r.graph.links.lengthTo node =
      (r.graph.addLink (r.graph.linksOf before) (node, i)).lengthTo node := by
    rw [← linksOf_concat]
    exact h.lengthTo_eq hsplit' (List.mem_append_right _ List.mem_cons_self)
  constructor
  · intro hnone
    rw [hnone] at hparent
    rw [hlength]
    simp [addLink, ← hparent, Links.lengthTo, Links.of?]
  · intro p hp
    rw [hp] at hparent
    have hspec := foldl_betterEnd_spec (r.graph.linksOf before) (r.graph.opPredecessors node)
    rw [← hparent] at hspec
    have hne : p ≠ node := by
      rintro rfl
      exact (h.mem_opPredecessors_self_iff hi).1 hspec.1 (hclbits _ hi)
    obtain ⟨j, hj⟩ := (h.eq_or_mem_before hsplit hspec.1).resolve_left hne
    rw [h.lengthTo_eq hsplit hj, hlength]
    refine ⟨lengthTo_linksOf_pos_iff.2 ⟨j, hj⟩, ?_⟩
    simp [addLink, ← hparent, Links.lengthTo, Links.of?]

/-- The links are in the order of the operations, the latest first. -/
theorem Sound.pairwise_links (h : r.Sound) :
    r.graph.links.Pairwise fun a b => b.node < a.node := by
  have hnodes : (r.graph.links.map (·.node)).Pairwise fun a b => b < a := by
    rw [h.links_eq, map_node_linksOf, List.pairwise_reverse, List.pairwise_map]
    exact h.pairwise_accepted
  exact List.pairwise_map.1 hnodes

/-- Each link is that of an accepted operation. -/
theorem Sound.of_mem_links (h : r.Sound) {l : Link} (hl : l ∈ r.graph.links) :
    (∃ i, (l.node, i) ∈ r.accepted) ∧ r.graph.links.lengthTo l.node = l.length := by
  have hnodes := map_node_linksOf (d := r.graph) r.accepted
  rw [← h.links_eq] at hnodes
  have hnodup : (r.graph.links.map (·.node)).Nodup :=
    (List.pairwise_map.2 h.pairwise_links).imp Nat.ne_of_gt
  refine ⟨?_, Links.lengthTo_of_mem hnodup hl⟩
  have hmem : l.node ∈ r.graph.links.map (·.node) := List.mem_map_of_mem hl
  rw [hnodes, List.mem_reverse, List.mem_map] at hmem
  obtain ⟨⟨node, i⟩, hi, rfl⟩ := hmem
  exact ⟨i, hi⟩

/-- If no operation names a classical bit twice, there is a longest chain. -/
theorem Sound.exists_longestPath (h : r.Sound) (hclbits : ∀ o ∈ r.accepted, o.2.clbits.Nodup) :
    ∃ path, r.graph.longestPath = some path :=
  exists_longestPath_iff.2 fun l _ => (h.ordered_iff.2 hclbits).ends l.node

/-- A longest chain reaches the peak of the levels. -/
theorem Sound.length_longestPath (h : r.Sound) (hclbits : ∀ o ∈ r.accepted, o.2.clbits.Nodup)
    (hpath : r.graph.longestPath = some path) :
    path.length = (r.graph.levelsOf (fun _ => 1) r.accepted).peak := by
  have hpeak := (linksOf_eq (d := r.graph) r.accepted).2
  have hspec := Links.best?_spec r.graph.links
  rw [longestPath_eq_some_iff] at hpath
  cases hbest : r.graph.links.best? with
  | none =>
    rw [hbest] at hspec hpath
    obtain rfl : path = [] := hpath
    rw [← hpeak, ← h.links_eq, hspec]
    rfl
  | some l =>
    rw [hbest] at hspec hpath
    obtain ⟨hop, hlength⟩ := h.of_mem_links hspec.1
    have hpos : 0 < r.graph.links.lengthTo l.node := by
      rw [h.links_eq]
      exact lengthTo_linksOf_pos_iff.2 hop
    rw [hpath.length_eq (fun node => h.linked hclbits) hpos, hlength, hspec.2, ← hpeak,
      ← h.links_eq]

end Record

end Dag

/-- If no instruction names a classical bit twice, there is a longest chain, and it has as many
operations as the peak of the schedule in which each has weight one. -/
theorem Circuit.Sound.exists_longestPath {c : Circuit} (h : c.Sound)
    (hclbits : ∀ i ∈ c.instructions, i.clbits.Nodup) :
    ∃ path, c.dag.longestPath = some path ∧
      path.length = (Instruction.scheduled (fun _ => 1) c.instructions).peak := by
  have hdag : ∀ o ∈ c.dag.ops, o.2.clbits.Nodup := fun o ho => hclbits o.2 (List.mem_map_of_mem ho)
  obtain ⟨path, hpath⟩ := Dag.Record.Sound.exists_longestPath h hdag
  refine ⟨path, hpath, ?_⟩
  rw [Dag.Record.Sound.length_longestPath h hdag hpath]
  exact Dag.Record.Sound.peak_levelsOf h fun _ => 1

end PathSelection
