import PathSelection.Proofs.Circuit.Chains
import PathSelection.Proofs.Circuit.LongestChain

/-!
# The longest chain that is chosen

Of several longest chains the one is chosen that ends earliest, and from each of its
operations the way back goes to the earliest of the predecessors with the longest
chains.  These rules leave one chain only, so it does not depend on the order in which
the edges of a graph are listed.

The link of an operation holds the length of the longest chain that ends in it
(`Record.Sound.reaches`), so what is chosen by links is chosen by chains.

Main results:

- Theorem `Record.Sound.isChosen_longestPath`: the chain that is read back obeys the rules.
- Theorem `Record.IsChosen.unique`: no other chain does.
- Theorem `Record.longestPath_after`: the longest chain after any requests none of which names a
  classical bit twice.
-/

namespace PathSelection.Dag

variable {d : Dag} {links : Links} {node parent : Nat} {path : List Nat}

/-! ## The way back -/

namespace Links

/-- Each node of a trace is the parent of the next. -/
theorem Traced.isChain (h : links.Traced node path) :
    path.IsChain fun a b => links.parent? b = some a := by
  induction h with
  | first _ => exact .singleton _
  | next hparent htraced ih =>
    rw [List.isChain_append]
    refine ⟨ih, .singleton _, ?_⟩
    simpa [htraced.getLast?] using hparent

/-- The first node of a trace has no parent. -/
theorem Traced.parent?_head (h : links.Traced node path) :
    ∀ a ∈ path.head?, links.parent? a = none := by
  induction h with
  | first hnone => simpa using hnone
  | next _ htraced ih =>
    rwa [List.head?_append_of_ne_nil]
    rintro rfl
    simpa using htraced.getLast?

/-- What goes from nodes to their parents holds along a trace. -/
theorem Traced.forall_mem (h : links.Traced node path) {P : Nat → Prop}
    (hparent : ∀ n p, links.parent? n = some p → P n → P p) (hnode : P node) : ∀ n ∈ path, P n := by
  induction h with
  | first _ => simpa using hnode
  | next hp _ ih =>
    intro n hn
    rcases List.mem_append.1 hn with hn | hn
    · exact ih (hparent _ _ hp hnode) n hn
    · exact List.mem_singleton.1 hn ▸ hnode

end Links

/-! ## Ties -/

/-- Of the nodes with the longest chains the earliest is chosen. -/
theorem le_of_foldl_betterEnd {nodes : List Nat} {p : Nat}
    (h : nodes.foldl (betterEnd links) none = some p) :
    ∀ q ∈ nodes, links.lengthTo q < links.lengthTo p ∨
      (links.lengthTo q = links.lengthTo p ∧ p ≤ q) := by
  induction nodes using List.reverseRecOn generalizing p with
  | nil => simp at h
  | append_singleton nodes n ih =>
    rw [List.foldl_concat] at h
    have hspec := foldl_betterEnd_spec links nodes
    cases hchosen : nodes.foldl (betterEnd links) none with
    | none =>
      rw [hchosen] at h hspec
      obtain rfl : n = p := by simpa [betterEnd] using h
      simp [hspec]
    | some m =>
      rw [hchosen, betterEnd] at h
      intro q hq
      have hbefore := ih hchosen q
      rcases List.mem_append.1 hq with hq | hq
      · have hm := hbefore hq
        grind
      · obtain rfl := List.mem_singleton.1 hq
        grind

/-- Of the longest links the best is that of the earliest operation. -/
theorem Links.le_of_best? (hsorted : links.Pairwise fun a b => b.node < a.node) {b : Link}
    (h : links.best? = some b) :
    ∀ l ∈ links, l.length < b.length ∨ (l.length = b.length ∧ b.node ≤ l.node) := by
  induction links generalizing b with
  | nil => simp
  | cons l links ih =>
    obtain ⟨hlater, hsorted⟩ := List.pairwise_cons.1 hsorted
    have hspec := best?_spec links
    rw [best?_cons] at h
    cases hbest : best? links with
    | none =>
      rw [hbest] at h hspec
      obtain rfl : l = b := by simpa using h
      simp [hspec]
    | some c =>
      rw [hbest] at h hspec
      intro l' hl'
      have hrest := ih hsorted hbest l'
      have hc := hlater c hspec.1
      rcases List.mem_cons.1 hl' with rfl | hl'
      · grind
      · have hle := hrest hl'
        grind

/-! ## Rules -/

/-- One operation comes just before another one on some wire. -/
def JustBefore (operations : List (Nat × Instruction)) (a b : Nat) : Prop :=
  ∃ w, [a, b] <:+: stopsOf w operations

/-- The longest chains that end in a node have so many operations. -/
def Reaches (operations : List (Nat × Instruction)) (node n : Nat) : Prop :=
  IsGreatest (List.length '' {chain | DependencyChain operations chain ∧
    chain.getLast?.map (·.1) = some node}) n

/-- Of what comes just before an operation, this is the earliest with the longest chains. -/
structure BestBefore (operations : List (Nat × Instruction)) (a b : Nat) : Prop where
  before : JustBefore operations a b
  best : ∃ n, Reaches operations a n ∧
    ∀ p, JustBefore operations p b → ∃ m, Reaches operations p m ∧ (m < n ∨ (m = n ∧ a ≤ p))

/-- The rules for the nodes of the longest chain that is chosen. -/
structure IsChosen (operations : List (Nat × Instruction)) (path : List Nat) : Prop where
  /-- They are those of a chain. -/
  chain : ∃ chain, DependencyChain operations chain ∧ chain.map (·.1) = path
  /-- They come in the order of the operations. -/
  increasing : path.Pairwise (· < ·)
  /-- From each the way back goes to the earliest of those just before it with the longest
  chains. -/
  step : path.IsChain (BestBefore operations)
  /-- Nothing comes before the first. -/
  first : ∀ a ∈ path.head?, ∀ p, ¬JustBefore operations p a
  /-- No chain is longer. -/
  longest : IsGreatest (List.length '' {chain | DependencyChain operations chain}) path.length
  /-- No chain of that length ends earlier. -/
  last : ∀ b ∈ path.getLast?, ∀ node, Reaches operations node path.length → b ≤ node

variable {operations : List (Nat × Instruction)} {other : List Nat}

/-- There is at most one best operation before another one. -/
theorem BestBefore.unique {a a' b : Nat} (h : BestBefore operations a b)
    (h' : BestBefore operations a' b) : a = a' := by
  obtain ⟨n, hn, hbest⟩ := h.best
  obtain ⟨n', hn', hbest'⟩ := h'.best
  obtain ⟨m, hm, hle⟩ := hbest a' h'.before
  obtain ⟨m', hm', hle'⟩ := hbest' a h.before
  have hmn := hm.unique hn'
  have hmn' := hm'.unique hn
  omega

/-- Lists of one length that end in the same node are the same if each node says which one comes
before it. -/
theorem eq_of_isChain_of_getLast? {R : Nat → Nat → Prop}
    (hR : ∀ a a' b, R a b → R a' b → a = a') (h : path.IsChain R) (h' : other.IsChain R)
    (hlength : path.length = other.length) (hlast : path.getLast? = other.getLast?) :
    path = other := by
  -- Both lists are read from the end: where they agree, only one node can come before.
  induction path using List.reverseRecOn generalizing other with
  | nil => exact (List.length_eq_zero_iff.1 hlength.symm).symm
  | append_singleton path b ih =>
    rw [List.getLast?_concat] at hlast
    obtain ⟨other, rfl⟩ := List.getLast?_eq_some_iff.1 hlast.symm
    obtain ⟨hpath, -, hstep⟩ := List.isChain_append.1 h
    obtain ⟨hother, -, hstep'⟩ := List.isChain_append.1 h'
    have hrest : path.length = other.length := by simpa using hlength
    have hlast : path.getLast? = other.getLast? := by
      rcases List.eq_nil_or_concat path with rfl | ⟨_, a, rfl⟩
      · rw [List.length_eq_zero_iff.1 hrest.symm]
      · rcases List.eq_nil_or_concat other with rfl | ⟨_, a', rfl⟩
        · simp at hrest
        · have heq := hR a a' b (hstep a (by simp) b (by simp)) (hstep' a' (by simp) b (by simp))
          simp [heq]
    rw [ih hpath hother hrest hlast]

/-- The longest chains end in the last node. -/
theorem IsChosen.reaches_last (h : IsChosen operations path) {b : Nat}
    (hb : path.getLast? = some b) : Reaches operations b path.length := by
  obtain ⟨chain, hchain, rfl⟩ := h.chain
  rw [List.getLast?_map] at hb
  refine ⟨⟨chain, ⟨hchain, hb⟩, (List.length_map _).symm⟩, ?_⟩
  rintro _ ⟨other, ⟨hother, -⟩, rfl⟩
  exact h.longest.2 ⟨other, hother, rfl⟩

/-- Only one list of nodes obeys the rules. -/
theorem IsChosen.unique (h : IsChosen operations path) (h' : IsChosen operations other) :
    path = other := by
  have hlength := h.longest.unique h'.longest
  refine eq_of_isChain_of_getLast? (R := BestBefore operations) (fun _ _ _ => BestBefore.unique)
    h.step h'.step hlength ?_
  cases hb : path.getLast? with
  | none =>
    rw [List.getLast?_eq_none_iff] at hb
    rw [hb, List.length_nil] at hlength
    rw [List.length_eq_zero_iff.1 hlength.symm, List.getLast?_nil]
  | some b =>
    cases hb' : other.getLast? with
    | none =>
      rw [List.getLast?_eq_none_iff] at hb'
      rw [hb', List.length_nil, List.length_eq_zero_iff] at hlength
      simp [hlength] at hb
    | some b' =>
      have hle := h.last b hb b' (hlength ▸ h'.reaches_last hb')
      have hge := h'.last b' hb' b (hlength ▸ h.reaches_last hb)
      rw [le_antisymm hle hge]

/-! ## Links and chains -/

namespace Record

variable {r : Record} {i j : Instruction} {before behind : List (Nat × Instruction)}

/-- A node belongs to one operation. -/
theorem Sound.instruction_inj (h : r.Sound) (hi : (node, i) ∈ r.accepted)
    (hj : (node, j) ∈ r.accepted) : i = j := by
  rw [← h.ops, mem_ops] at hi hj
  simpa using hi.symm.trans hj

/-- The operations just before another one lead to it by an edge. -/
theorem Sound.mem_opPredecessors_iff (h : r.Sound) {p : Nat} (hi : (node, i) ∈ r.accepted) :
    p ∈ r.graph.opPredecessors node ↔ JustBefore r.accepted p node := by
  have hnode : r.graph.isOp node = true := h.isOp_iff.2 ⟨i, hi⟩
  rw [Dag.mem_opPredecessors_iff]
  constructor
  · rintro ⟨hop, w, he⟩
    exact ⟨w, (mem_pieces_iff.1 ((h.mem_edges_iff hop hnode).1 he)).2⟩
  · rintro ⟨w, hpart⟩
    have hop : r.graph.isOp p = true :=
      h.isOp_of_mem_stopsOf p (hpart.subset List.mem_cons_self)
    exact ⟨hop, w, (h.mem_edges_iff hop hnode).2 (mem_pieces_iff.2 ⟨rfl, hpart⟩)⟩

/-- Just before an operation come accepted ones that share a bit with it. -/
theorem Sound.meets_of_justBefore (h : r.Sound) {a b : Nat} (hab : JustBefore r.accepted a b)
    (hi : (a, i) ∈ r.accepted) (hj : (b, j) ∈ r.accepted) : i.Meets j := by
  obtain ⟨w, hpart⟩ := hab
  obtain ⟨i', hi', hw⟩ := mem_stopsOf.1 (hpart.subset List.mem_cons_self)
  obtain ⟨j', hj', hw'⟩ := mem_stopsOf.1 (hpart.subset (List.mem_cons_of_mem a List.mem_cons_self))
  rw [h.instruction_inj hi hi', h.instruction_inj hj hj']
  exact Instruction.meets_iff.2 ⟨w, hw, hw'⟩

/-- The chains that end in an operation are those of the operations up to it. -/
theorem Sound.mem_chainsTo_iff (h : r.Sound) (hsplit : r.accepted = before ++ (node, i) :: behind)
    {chain : List (Nat × Instruction)} :
    chain ∈ chainsTo before (node, i) ↔
      DependencyChain r.accepted chain ∧ chain.getLast?.map (·.1) = some node := by
  constructor
  · rintro hchain
    have hdependent : DependencyChain r.accepted chain := by
      have hfront := (dependencyChain_concat_iff.2 (.inr hchain)).of_append behind
      rwa [List.append_assoc, List.singleton_append, ← hsplit] at hfront
    obtain ⟨front, -, -, rfl⟩ := hchain
    exact ⟨hdependent, by simp⟩
  · rintro ⟨⟨hsublist, hmeets⟩, hlast⟩
    obtain ⟨⟨last, j⟩, hj, rfl⟩ := Option.map_eq_some_iff.1 hlast
    obtain ⟨front, rfl⟩ := List.getLast?_eq_some_iff.1 hj
    have hi : (last, i) ∈ r.accepted := by simp [hsplit]
    have hmem : (last, j) ∈ r.accepted := hsublist.subset (by simp)
    obtain rfl : j = i := h.instruction_inj hmem hi
    obtain ⟨hmeets, hleads⟩ := isChain_concat_iff.1 hmeets
    have hsorted := h.pairwise_accepted
    rw [hsplit, List.pairwise_append, List.pairwise_cons] at hsorted
    have hnot : (last, j) ∉ behind := fun hmem => lt_irrefl last (hsorted.2.1.1 _ hmem)
    rw [hsplit] at hsublist
    exact ⟨front, ⟨sublist_of_concat_sublist hsublist hnot, hmeets⟩, hleads, rfl⟩

/-- The link of an operation holds the length of the longest chains that end in it. -/
theorem Sound.reaches (h : r.Sound) (hi : (node, i) ∈ r.accepted) :
    Reaches r.accepted node (r.graph.links.lengthTo node) := by
  obtain ⟨before, behind, hsplit⟩ := List.append_of_mem hi
  have hfresh (j : Instruction) : (node, j) ∉ before := by
    have hsorted := h.pairwise_accepted
    rw [hsplit, List.pairwise_append] at hsorted
    intro hmem
    exact lt_irrefl node (hsorted.2.2 _ hmem (node, i) (by simp))
  have htop := h.top_opPredecessors hsplit (level_levelsOf (d := r.graph) hfresh)
    (h.levelsOf_eq (fun _ => 1) hsplit).2
  have hsplit' : r.accepted = (before ++ [(node, i)]) ++ behind := by simp [hsplit]
  have hlength : r.graph.links.lengthTo node =
      (Instruction.scheduled (fun _ => 1) (before.map (·.2))).top i.wires + 1 := by
    rw [h.lengthTo_eq hsplit' (List.mem_append_right _ List.mem_cons_self), (linksOf_eq _).1,
      levelsOf_concat, addLevel, Levels.level_put_of_mem (by simp), htop]
  have hgreatest := concat_isGreatest (o := (node, i))
    (top_isGreatest (i := i) (scheduled_isGreatest (fun _ => 1) before).1)
  have hset : chainsTo before (node, i) = {chain | DependencyChain r.accepted chain ∧
      chain.getLast?.map (·.1) = some node} := Set.ext fun _ => h.mem_chainsTo_iff hsplit
  rw [Reaches, ← hset, hlength]
  simpa [weightOf, Set.image] using hgreatest

/-- The parent of an operation is the best of those just before it. -/
theorem Sound.bestBefore_of_parent? (h : r.Sound) (hclbits : ∀ o ∈ r.accepted, o.2.clbits.Nodup)
    (hp : r.graph.links.parent? node = some parent) : BestBefore r.accepted parent node := by
  obtain ⟨i, hi⟩ := h.exists_of_parent? hp
  obtain ⟨before, behind, hsplit⟩ := List.append_of_mem hi
  have hbefore : ∀ q ∈ r.graph.opPredecessors node, ∃ j, (q, j) ∈ before := by
    intro q hq
    refine (h.eq_or_mem_before hsplit hq).resolve_left ?_
    rintro rfl
    exact (h.mem_opPredecessors_self_iff hi).1 hq (hclbits _ hi)
  have hreaches : ∀ q ∈ r.graph.opPredecessors node,
      Reaches r.accepted q ((r.graph.linksOf before).lengthTo q) := by
    intro q hq
    obtain ⟨j, hj⟩ := hbefore q hq
    rw [← h.lengthTo_eq hsplit hj]
    exact h.reaches (i := j) (by simp [hsplit, hj])
  rw [h.parent?_eq hsplit] at hp
  have hspec := foldl_betterEnd_spec (r.graph.linksOf before) (r.graph.opPredecessors node)
  rw [hp] at hspec
  refine ⟨(h.mem_opPredecessors_iff hi).1 hspec.1, _, hreaches parent hspec.1, fun q hq => ?_⟩
  have hq := (h.mem_opPredecessors_iff hi).2 hq
  exact ⟨_, hreaches q hq, le_of_foldl_betterEnd hp q hq⟩

/-- What comes just before something is an accepted operation. -/
theorem Sound.exists_of_justBefore (h : r.Sound) {a b : Nat} (hab : JustBefore r.accepted a b) :
    ∃ i, (a, i) ∈ r.accepted := by
  obtain ⟨w, hpart⟩ := hab
  exact h.isOp_iff.1 (h.isOp_of_mem_stopsOf a (hpart.subset List.mem_cons_self))

/-! ## The chain that is read back -/

/-- No operation to which chains of the greatest length lead is earlier than the best link. -/
theorem Sound.node_le_of_reaches (h : r.Sound) {l : Link} (hbest : r.graph.links.best? = some l)
    (hreaches : Reaches r.accepted node l.length) : l.node ≤ node := by
  obtain ⟨chain, ⟨hchain, hlast⟩, -⟩ := hreaches.1
  obtain ⟨⟨last, i⟩, ho, rfl⟩ := Option.map_eq_some_iff.1 hlast
  have hi := hchain.sublist.subset (List.mem_of_getLast? ho)
  have hlength := (h.reaches hi).unique hreaches
  obtain ⟨l', hl', hnode⟩ : ∃ l' ∈ r.graph.links, l'.node = last := by
    rw [← List.mem_map, h.links_eq, map_node_linksOf, List.mem_reverse]
    exact List.mem_map_of_mem hi
  rw [← hnode, (h.of_mem_links hl').2] at hlength
  rcases Links.le_of_best? h.pairwise_links hbest l' hl' with hlt | ⟨-, hle⟩
  · exact absurd hlength hlt.ne
  · rwa [hnode] at hle

/-- A longest chain is as long as no other. -/
theorem Sound.longestPath_isGreatest (h : r.Sound)
    (hclbits : ∀ o ∈ r.accepted, o.2.clbits.Nodup) (hpath : r.graph.longestPath = some path) :
    IsGreatest (List.length '' {chain | DependencyChain r.accepted chain}) path.length := by
  have hpeak := (scheduled_isGreatest (fun _ => 1) r.accepted).2
  rw [← h.peak_levelsOf, ← h.length_longestPath hclbits hpath] at hpeak
  simpa [chainWeights, weightOf, Set.image] using hpeak

/-- Increasing nodes of operations, each just before the next, are those of a chain. -/
theorem Sound.exists_dependencyChain (h : r.Sound)
    (hmem : ∀ node ∈ path, ∃ i, (node, i) ∈ r.accepted) (hsorted : path.Pairwise (· < ·))
    (hstep : path.IsChain (JustBefore r.accepted)) :
    ∃ chain, DependencyChain r.accepted chain ∧ chain.map (·.1) = path := by
  have hnodes : (r.accepted.map (·.1)).Pairwise (· < ·) :=
    List.pairwise_map.2 h.pairwise_accepted
  have hsubset : path ⊆ r.accepted.map (·.1) := by
    intro node hnode
    obtain ⟨i, hi⟩ := hmem node hnode
    exact List.mem_map.2 ⟨(node, i), hi, rfl⟩
  -- Both lists of nodes increase, so a part of the operations is also a sublist of them.
  have hsubperm := List.subperm_of_subset (hsorted.imp Nat.ne_of_lt) hsubset
  obtain ⟨chain, hchain, rfl⟩ := List.sublist_map_iff.1
    (List.sublist_of_subperm_of_pairwise hsubperm (hsorted.imp le_of_lt) (hnodes.imp le_of_lt))
  refine ⟨chain, ⟨hchain, ?_⟩, rfl⟩
  refine ((List.isChain_map _).1 hstep).imp_of_mem_imp fun a b ha hb hab => ?_
  exact h.meets_of_justBefore hab (hchain.subset ha) (hchain.subset hb)

/-- The longest chain obeys the rules if no operation names a classical bit twice. -/
theorem Sound.isChosen_longestPath (h : r.Sound) (hclbits : ∀ o ∈ r.accepted, o.2.clbits.Nodup)
    (hpath : r.graph.longestPath = some path) : IsChosen r.accepted path := by
  have hlongest := h.longestPath_isGreatest hclbits hpath
  have hspec := Links.best?_spec r.graph.links
  rw [longestPath_eq_some_iff] at hpath
  cases hbest : r.graph.links.best? with
  | none =>
    rw [hbest] at hpath
    obtain rfl : path = [] := hpath
    exact ⟨⟨[], .nil, rfl⟩, .nil, .nil, by simp, hlongest, by simp⟩
  | some l =>
    rw [hbest] at hspec hpath
    have htraced : r.graph.links.Traced l.node path := hpath
    obtain ⟨hop, hlength⟩ := h.of_mem_links hspec.1
    have hstep : path.IsChain (BestBefore r.accepted) :=
      htraced.isChain.imp fun a b => h.bestBefore_of_parent? hclbits
    -- A parent is never later, and it is the operation itself only if a bit is named twice.
    have hsorted : path.Pairwise (· < ·) := by
      refine List.isChain_iff_pairwise.1 (htraced.isChain.imp fun a b hab => h.parent?_lt hab ?_)
      rintro rfl
      exact (h.ordered_iff.2 hclbits).irreflexive a (h.parent?_self_iff.1 hab).1
    have hmem : ∀ node ∈ path, ∃ i, (node, i) ∈ r.accepted :=
      htraced.forall_mem (P := fun n => ∃ i, (n, i) ∈ r.accepted) (fun n p hp _ =>
        h.exists_of_justBefore (h.bestBefore_of_parent? hclbits hp).before) hop
    refine ⟨h.exists_dependencyChain hmem hsorted (hstep.imp fun _ _ => BestBefore.before), hsorted,
      hstep, ?_, hlongest, ?_⟩
    · intro a ha p hp
      obtain ⟨i, hi⟩ := hmem a (List.mem_of_head? ha)
      have hparent := h.parent?_spec hi
      rw [htraced.parent?_head a ha] at hparent
      have hpred := (h.mem_opPredecessors_iff hi).2 hp
      simp [hparent] at hpred
    · intro b hb node hreaches
      obtain rfl : l.node = b := by simpa [htraced.getLast?] using hb
      have hpos : 0 < r.graph.links.lengthTo l.node := by
        rw [h.links_eq]
        exact lengthTo_linksOf_pos_iff.2 hop
      rw [htraced.length_eq (fun node => h.linked hclbits) hpos, hlength] at hreaches
      exact h.node_le_of_reaches hbest hreaches

/-- The longest chain after any requests none of whose accepted operations names a classical bit
twice: there is one.  Going back along the parents from the best link comes to an end and meets just
the nodes of the chain.  They are the only list of nodes that obeys the rules, whatever the order of
the edges.  There are at least as many as layers, and as many if no operation is a barrier. -/
theorem longestPath_after (requests : List Request)
    (hclbits : ∀ o ∈ (after requests).accepted, o.2.clbits.Nodup) :
    let r := after requests
    ∃ path, r.graph.longestPath = some path ∧
      (∀ l, r.graph.links.best? = some l → r.graph.links.Traced l.node path) ∧
      (∀ other, IsChosen r.accepted other ↔ other = path) ∧
      r.graph.depth ≤ path.length ∧
      ((∀ o ∈ r.accepted, o.2.isBarrier = false) → path.length = r.graph.depth) := by
  intro r
  have h : r.Sound := sound_after requests
  obtain ⟨path, hpath⟩ := h.exists_longestPath hclbits
  have hchosen := h.isChosen_longestPath hclbits hpath
  have hdepth := h.isGreatest_depth
  refine ⟨path, hpath, fun l hbest => ?_,
    fun other => ⟨fun hother => hother.unique hchosen, ?_⟩, ?_, fun hbarrier => ?_⟩
  · rw [longestPath_eq_some_iff, hbest] at hpath
    exact hpath
  · rintro rfl
    exact hchosen
  · obtain ⟨chain, hchain, hcount⟩ := hdepth.1
    exact hcount ▸ List.countP_le_length.trans (hchosen.longest.2 ⟨chain, hchain, rfl⟩)
  · refine hchosen.longest.unique ?_
    have hcount {chain : List (Nat × Instruction)} (hchain : DependencyChain r.accepted chain) :
        (chain.countP fun o => !o.2.isBarrier) = chain.length := by
      rw [List.countP_eq_length]
      intro o ho
      simpa using hbarrier o (hchain.sublist.subset ho)
    obtain ⟨⟨chain, hchain, hweight⟩, hmax⟩ := hdepth
    refine ⟨⟨chain, hchain, (hcount hchain).symm.trans hweight⟩, ?_⟩
    rintro _ ⟨other, hother, rfl⟩
    exact hmax ⟨other, hother, hcount hother⟩

/-- Two gates on one qubit each, nodes 4 and 5, come just before a gate on both, node 6, and a
barrier behind it, node 7, adds no layer.  Of the two first gates the earlier one is taken. -/
theorem longestPath_after_pair :
    let r := after [.addQubit 0, .addQubit 1, .apply (.ofGate (.zeroed .h) [0]),
      .apply (.ofGate (.zeroed .x) [1]), .apply (.ofGate (.zeroed .cx) [1, 0]),
      .apply (.barrier [0, 1])]
    (∀ o ∈ r.accepted, o.2.clbits.Nodup) ∧ r.graph.longestPath = some [4, 6, 7] ∧
      IsChosen r.accepted [4, 6, 7] ∧ r.graph.depth = 2 := by
  intro r
  have hclbits : ∀ o ∈ r.accepted, o.2.clbits.Nodup := by decide
  have hpath : r.graph.longestPath = some [4, 6, 7] := by decide
  obtain ⟨path, hread, -, hchosen, -, -⟩ := longestPath_after _ hclbits
  obtain rfl := Option.some.inj (hread.symm.trans hpath)
  exact ⟨hclbits, hpath, (hchosen _).2 rfl, by decide⟩

end Record

end PathSelection.Dag
