import Mathlib.Data.List.Induction
import PathSelection.Circuit.Chain
import PathSelection.Proofs.Circuit.Trail

/-!
# The order of operations

Nodes of operations are numbered in the order in which the operations were
accepted.  An edge between two operations never leads downwards.  It leads from an
operation to itself exactly if the operation names a classical bit twice, since
the wire of that bit then stops there twice in a row.

Main results:

- Theorem `Record.Sound.mem_opPredecessors_self_iff`: which operations come before themselves.
- Theorem `Record.Sound.parent?_self_iff`: an operation is its own parent exactly if no other
  operation comes before it, but it does.
- Theorem `Record.ordered_after_iff`: the order of nodes is an order of the operations
  exactly if no accepted instruction names a classical bit twice.
- Theorem `Record.not_ordered_after_repeated_clbit`: one measurement into a repeated bit
  breaks the order.
-/

namespace PathSelection.Dag

variable {d : Dag} {w : Wire} {node : Nat}

/-! ## Repeated wires -/

/-- On a walk that never leads downwards a node is followed by itself if it is met twice. -/
theorem loop_mem_pieces_iff {walk : List Nat} (hsorted : walk.Pairwise (· ≤ ·)) :
    (⟨node, node, w⟩ : Edge) ∈ pieces w walk ↔ 2 ≤ walk.count node := by
  simp only [mem_pieces_iff, true_and]
  constructor
  · intro h
    simpa using h.sublist.count_le node
  · intro h
    induction walk with
    | nil => simp at h
    | cons a walk ih =>
      rcases List.pairwise_cons.1 hsorted with ⟨hle, hrest⟩
      by_cases ha : a = node
      · subst ha
        have hmem : a ∈ walk := by
          rw [List.count_cons_self] at h
          exact List.count_pos_iff.1 (by omega)
        cases walk with
        | nil => simp at hmem
        | cons b walk =>
          have hba : b ≤ a := by
            rcases List.mem_cons.1 hmem with rfl | hmem
            · exact le_rfl
            · exact (List.pairwise_cons.1 hrest).1 a hmem
          obtain rfl : a = b := le_antisymm (hle b List.mem_cons_self) hba
          exact List.infix_cons_iff.2 (.inl (by simp))
      · rw [List.count_cons_of_ne ha] at h
        exact (ih hrest h).trans (List.suffix_cons a walk).isInfix

/-- A wire stops at an operation as often as the operation names it. -/
theorem count_stopsOf {operations : List (Nat × Instruction)} {i : Instruction}
    (hsorted : operations.Pairwise (·.1 < ·.1)) (hmem : (node, i) ∈ operations) :
    (stopsOf w operations).count node = i.wires.count w := by
  induction operations with
  | nil => simp at hmem
  | cons o operations ih =>
    rcases List.pairwise_cons.1 hsorted with ⟨hlt, hrest⟩
    have hcons : stopsOf w (o :: operations) =
        List.replicate (o.2.wires.count w) o.1 ++ stopsOf w operations := rfl
    rw [hcons, List.count_append, List.count_replicate]
    rcases List.mem_cons.1 hmem with rfl | hmem
    · have hnot : node ∉ stopsOf w operations := by
        intro hstop
        rcases mem_stopsOf.1 hstop with ⟨j, hj, _⟩
        exact lt_irrefl node (hlt _ hj)
      simp [List.count_eq_zero_of_not_mem hnot]
    · have hne : o.1 ≠ node := (hlt _ hmem).ne
      simp [hne, ih hrest hmem]

/-- An instruction on distinct qubits names a wire twice exactly if it so names a classical bit. -/
theorem exists_two_le_count_wires_iff {i : Instruction} (h : i.qubits.Nodup) :
    (∃ w, 2 ≤ i.wires.count w) ↔ ¬i.clbits.Nodup := by
  have hwires : i.wires.Nodup ↔ i.clbits.Nodup := by
    have hqubit : Function.Injective Wire.qubit := fun _ _ => Wire.qubit.inj
    have hclbit : Function.Injective Wire.clbit := fun _ _ => Wire.clbit.inj
    rw [Instruction.wires, List.nodup_append, List.nodup_map_iff hqubit, List.nodup_map_iff hclbit]
    simp [h]
  rw [← hwires, List.nodup_iff_count_le_one]
  push Not
  rfl

/-! ## Edges between operations -/

/-- The predecessors of a node are the operations with an edge to it. -/
theorem mem_opPredecessors_iff {p : Nat} :
    p ∈ d.opPredecessors node ↔ d.isOp p = true ∧ ∃ w, (⟨p, node, w⟩ : Edge) ∈ d.edges := by
  simp only [opPredecessors, List.mem_map, List.mem_filter, Bool.and_eq_true, beq_iff_eq]
  constructor
  · rintro ⟨⟨source, target, w⟩, ⟨he, rfl, hop⟩, rfl⟩
    exact ⟨hop, w, he⟩
  · rintro ⟨hop, w, he⟩
    exact ⟨⟨p, node, w⟩, ⟨he, rfl, hop⟩, rfl⟩

namespace Record

variable {r : Record}

/-- The operations of a sound graph are the accepted ones. -/
theorem Sound.isOp_iff (h : r.Sound) : r.graph.isOp node = true ↔ ∃ i, (node, i) ∈ r.accepted := by
  rw [Dag.isOp_iff, h.ops]

/-- Operations are accepted in ascending order of their nodes. -/
theorem Sound.pairwise_accepted (h : r.Sound) : r.accepted.Pairwise (·.1 < ·.1) :=
  h.ops ▸ pairwise_ops

/-- The edges between operations are the pieces between the stops of wires. -/
theorem Sound.mem_edges_iff (h : r.Sound) {e : Edge} (hsource : r.graph.isOp e.source = true)
    (htarget : r.graph.isOp e.target = true) :
    e ∈ r.graph.edges ↔ e ∈ pieces e.wire (stopsOf e.wire r.accepted) := by
  have hwalk {s : Strand} (hs : s ∈ r.graph.strands) (hwire : s.wire = e.wire) :
      e ∈ r.graph.edges ↔ e ∈ pieces e.wire (s.walk (stopsOf e.wire r.accepted)) := by
    have hpieces := (h.wired.threaded s hs).pieces
    rw [hwire] at hpieces
    rw [← hpieces.mem_iff, piecesOf, List.mem_filter]
    simp
  constructor
  · intro he
    rcases hasWire_iff.1 (h.wired.edge e he) with ⟨s, hs, hwire⟩
    have hthreaded := h.wired.threaded s hs
    refine mem_pieces_inner ((hwalk hs hwire).1 he) ?_ ?_
    · intro heq
      simp [heq, not_isOp_of_input hthreaded.input] at hsource
    · intro heq
      simp [heq, not_isOp_of_output hthreaded.output] at htarget
  · intro he
    rcases mem_pieces_iff.1 he with ⟨_, hpart⟩
    have hwire : r.graph.hasWire e.wire = true := by
      by_contra hnot
      rw [h.wired.absent e.wire (by simpa using hnot)] at hpart
      simpa using hpart.length_le
    rcases hasWire_iff.1 hwire with ⟨s, hs, hsw⟩
    refine (hwalk hs hsw).2 (mem_pieces_iff.2 ⟨rfl, hpart.trans ?_⟩)
    exact ⟨[s.input], [s.output], by simp [Strand.walk]⟩

/-- No edge between operations leads downwards. -/
theorem Sound.source_le_target (h : r.Sound) {e : Edge} (he : e ∈ r.graph.edges)
    (hsource : r.graph.isOp e.source = true) (htarget : r.graph.isOp e.target = true) :
    e.source ≤ e.target :=
  isChain_iff_forall_mem_pieces.1 h.pairwise_stopsOf.isChain e
    ((h.mem_edges_iff hsource htarget).1 he)

/-- An operation comes before itself exactly if it names a classical bit twice. -/
theorem Sound.mem_opPredecessors_self_iff (h : r.Sound) {i : Instruction}
    (hi : (node, i) ∈ r.accepted) :
    node ∈ r.graph.opPredecessors node ↔ ¬i.clbits.Nodup := by
  have hop := h.isOp_iff.2 ⟨i, hi⟩
  have hloop (w : Wire) : (⟨node, node, w⟩ : Edge) ∈ r.graph.edges ↔ 2 ≤ i.wires.count w := by
    rw [h.mem_edges_iff hop hop, loop_mem_pieces_iff h.pairwise_stopsOf,
      count_stopsOf h.pairwise_accepted hi]
  rw [mem_opPredecessors_iff, ← exists_two_le_count_wires_iff (h.qubits _ hi)]
  simp [hop, hloop]

end Record

/-! ## Parent links -/

/-- The operation before another one on its longest chain. -/
def Links.parent? (links : Links) (node : Nat) : Option Nat := (links.of? node).bind (·.parent)

/-- Following the parents from a node comes to an end. -/
inductive Links.Ends (links : Links) : Nat → Prop where
  | last {node : Nat} : links.parent? node = none → Ends links node
  | next {node parent : Nat} : links.parent? node = some parent → Ends links parent →
    Ends links node

/-- The parents of an operation that is its own parent come to no end. -/
theorem Links.not_ends_of_parent?_self {links : Links} (h : links.parent? node = some node) :
    ¬links.Ends node := by
  intro hends
  induction hends with
  | last hnone => simp [hnone] at h
  | next hparent _ ih =>
    rw [hparent, Option.some_inj] at h
    subst h
    exact ih hparent

/-- The links of some operations, the latest first. -/
def linksOf (d : Dag) (operations : List (Nat × Instruction)) : Links :=
  operations.foldl d.addLink []

/-- The links of one more operation. -/
theorem linksOf_concat (operations : List (Nat × Instruction)) (o : Nat × Instruction) :
    d.linksOf (operations ++ [o]) = d.addLink (d.linksOf operations) o := by
  simp [linksOf]

/-- The link of a new operation ends a chain behind the best of its predecessors. -/
theorem of?_addLink_self (links : Links) (o : Nat × Instruction) :
    ∃ length, 0 < length ∧ Links.of? (d.addLink links o) o.1 =
      some ⟨o.1, length, (d.opPredecessors o.1).foldl (betterEnd links) none⟩ := by
  unfold addLink
  cases (d.opPredecessors o.1).foldl (betterEnd links) none with
  | none => exact ⟨1, Nat.one_pos, by simp [Links.of?]⟩
  | some p => exact ⟨links.lengthTo p + 1, Nat.succ_pos _, by simp [Links.of?]⟩

/-- A new operation leaves the links of the others alone. -/
theorem of?_addLink_of_ne (links : Links) {o : Nat × Instruction} (h : o.1 ≠ node) :
    Links.of? (d.addLink links o) node = Links.of? links node := by
  simp [Links.of?, addLink, h]

/-- Just the operations with a link end chains. -/
theorem lengthTo_linksOf_pos_iff {operations : List (Nat × Instruction)} :
    0 < (d.linksOf operations).lengthTo node ↔ ∃ i, (node, i) ∈ operations := by
  induction operations using List.reverseRecOn with
  | nil => simp [linksOf, Links.lengthTo, Links.of?]
  | append_singleton operations o ih =>
    rw [linksOf_concat]
    by_cases h : o.1 = node
    · subst h
      rcases of?_addLink_self (d := d) (d.linksOf operations) o with ⟨length, hpos, hlink⟩
      refine iff_of_true ?_ ⟨o.2, by simp⟩
      simpa [Links.lengthTo, hlink] using hpos
    · have hlength : (d.addLink (d.linksOf operations) o).lengthTo node =
          (d.linksOf operations).lengthTo node := by
        unfold Links.lengthTo
        rw [of?_addLink_of_ne _ h]
      have hne (i : Instruction) : (node, i) ≠ o := fun heq => h (heq ▸ rfl)
      simp [hlength, ih, hne]

private theorem lengthTo_linksOf_eq_zero {operations : List (Nat × Instruction)}
    (h : ∀ o ∈ operations, o.1 < node) : (d.linksOf operations).lengthTo node = 0 := by
  by_contra hne
  rcases lengthTo_linksOf_pos_iff.1 (Nat.pos_of_ne_zero hne) with ⟨i, hi⟩
  exact lt_irrefl node (h _ hi)

/-- Among some operations one is chosen to which no chain is longer; only of none is none chosen. -/
theorem foldl_betterEnd_spec (links : Links) (nodes : List Nat) :
    match nodes.foldl (betterEnd links) none with
    | none => nodes = []
    | some p => p ∈ nodes ∧ ∀ q ∈ nodes, links.lengthTo q ≤ links.lengthTo p := by
  induction nodes using List.reverseRecOn with
  | nil => rfl
  | append_singleton nodes n ih =>
    rw [List.foldl_concat]
    cases hchosen : nodes.foldl (betterEnd links) none with
    | none =>
      obtain rfl : nodes = [] := by simpa [hchosen] using ih
      simp [betterEnd]
    | some p =>
      obtain ⟨hp, hmax⟩ : p ∈ nodes ∧ ∀ q ∈ nodes, links.lengthTo q ≤ links.lengthTo p := by
        simpa [hchosen] using ih
      by_cases hbetter : links.lengthTo p < links.lengthTo n ∨
          (links.lengthTo n = links.lengthTo p ∧ n < p)
      · simp only [betterEnd, if_pos hbetter]
        refine ⟨by simp, fun q hq => ?_⟩
        rcases List.mem_append.1 hq with hq | hq
        · have hle := hmax q hq
          omega
        · rw [List.mem_singleton.1 hq]
      · simp only [betterEnd, if_neg hbetter]
        refine ⟨by simp [hp], fun q hq => ?_⟩
        rcases List.mem_append.1 hq with hq | hq
        · exact hmax q hq
        · rw [List.mem_singleton.1 hq]
          omega

/-- The parent of an operation is chosen when its link is made, from the links before it. -/
theorem parent?_linksOf {before behind : List (Nat × Instruction)} {o : Nat × Instruction}
    (h : ∀ a ∈ behind, o.1 < a.1) :
    (d.linksOf (before ++ o :: behind)).parent? o.1 =
      (d.opPredecessors o.1).foldl (betterEnd (d.linksOf before)) none := by
  induction behind using List.reverseRecOn with
  | nil =>
    rcases of?_addLink_self (d := d) (d.linksOf before) o with ⟨length, _, hlink⟩
    rw [linksOf_concat]
    simp [Links.parent?, hlink]
  | append_singleton behind a ih =>
    have hne : a.1 ≠ o.1 := (h a (by simp)).ne'
    rw [← List.cons_append, ← List.append_assoc, linksOf_concat, Links.parent?,
      of?_addLink_of_ne _ hne]
    exact ih fun b hb => h b (by simp [hb])

/-- Only operations have parents. -/
theorem parent?_linksOf_eq_none {operations : List (Nat × Instruction)}
    (h : ∀ i, (node, i) ∉ operations) : (d.linksOf operations).parent? node = none := by
  induction operations using List.reverseRecOn with
  | nil => rfl
  | append_singleton operations o ih =>
    have hne : o.1 ≠ node := by
      rintro rfl
      exact h o.2 (by simp)
    rw [linksOf_concat, Links.parent?, of?_addLink_of_ne _ hne]
    exact ih fun i hi => h i (by simp [hi])

namespace Record

variable {r : Record}

/-- The links of a sound graph are those of the accepted operations. -/
theorem Sound.links_eq (h : r.Sound) : r.graph.links = r.graph.linksOf r.accepted := by
  rw [links, h.ops, linksOf]

/-- What comes before an operation is the operation itself or was accepted before it. -/
theorem Sound.eq_or_mem_before (h : r.Sound) {q : Nat} {i : Instruction}
    {before behind : List (Nat × Instruction)}
    (hsplit : r.accepted = before ++ (node, i) :: behind)
    (hq : q ∈ r.graph.opPredecessors node) : q = node ∨ ∃ j, (q, j) ∈ before := by
  rcases mem_opPredecessors_iff.1 hq with ⟨hop, w, he⟩
  rcases h.isOp_iff.1 hop with ⟨j, hj⟩
  have hi : (node, i) ∈ r.accepted := by simp [hsplit]
  have hle : q ≤ node := h.source_le_target he hop (h.isOp_iff.2 ⟨i, hi⟩)
  have hsorted := h.pairwise_accepted
  rw [hsplit, List.pairwise_append, List.pairwise_cons] at hsorted
  rw [hsplit] at hj
  rcases List.mem_append.1 hj with hbefore | hj
  · exact .inr ⟨j, hbefore⟩
  · rcases List.mem_cons.1 hj with heq | hbehind
    · exact .inl (congrArg Prod.fst heq)
    · have hlt : node < q := hsorted.2.1.1 _ hbehind
      omega

/-- An operation's parent is one of the operations before it; those without any have no parent. -/
theorem Sound.parent?_spec (h : r.Sound) {i : Instruction} (hi : (node, i) ∈ r.accepted) :
    match r.graph.links.parent? node with
    | none => r.graph.opPredecessors node = []
    | some p => p ∈ r.graph.opPredecessors node ∧
        (p = node → ∀ q ∈ r.graph.opPredecessors node, q = node) := by
  rcases List.append_of_mem hi with ⟨before, behind, hsplit⟩
  have hsorted := h.pairwise_accepted
  rw [hsplit, List.pairwise_append, List.pairwise_cons] at hsorted
  rcases hsorted with ⟨_, ⟨hbehind, _⟩, hbefore⟩
  rw [h.links_eq, hsplit, parent?_linksOf (o := (node, i)) hbehind]
  -- What is chosen has the longest chain among the links before it.
  have hspec := foldl_betterEnd_spec (r.graph.linksOf before) (r.graph.opPredecessors node)
  cases hparent : (r.graph.opPredecessors node).foldl (betterEnd (r.graph.linksOf before)) none with
  | none => simpa [hparent] using hspec
  | some p =>
    rw [hparent] at hspec
    refine ⟨hspec.1, ?_⟩
    rintro rfl q hq
    -- The operation has no link yet, so no other operation before it has one either.
    have hnone : (r.graph.linksOf before).lengthTo p = 0 :=
      lengthTo_linksOf_eq_zero fun o ho => hbefore o ho (p, i) (by simp)
    rcases h.eq_or_mem_before hsplit hq with heq | hmem
    · exact heq
    · have hpos := lengthTo_linksOf_pos_iff (d := r.graph).2 hmem
      have hle := hspec.2 q hq
      omega

/-- What has a parent is an operation. -/
theorem Sound.exists_of_parent? (h : r.Sound) {p : Nat}
    (hp : r.graph.links.parent? node = some p) : ∃ i, (node, i) ∈ r.accepted := by
  by_contra hnone
  have hparent := parent?_linksOf_eq_none (d := r.graph) (not_exists.1 hnone)
  rw [← h.links_eq, hp] at hparent
  simp at hparent

/-- A parent other than the operation itself is an earlier operation. -/
theorem Sound.parent?_lt (h : r.Sound) {p : Nat} (hp : r.graph.links.parent? node = some p)
    (hne : p ≠ node) : p < node := by
  rcases h.exists_of_parent? hp with ⟨i, hi⟩
  have hspec := h.parent?_spec hi
  rw [hp] at hspec
  rcases mem_opPredecessors_iff.1 hspec.1 with ⟨hparent, w, he⟩
  have hle : p ≤ node := h.source_le_target he hparent (h.isOp_iff.2 ⟨i, hi⟩)
  omega

/-- An operation is its own parent exactly if it alone comes before itself. -/
theorem Sound.parent?_self_iff (h : r.Sound) :
    r.graph.links.parent? node = some node ↔
      node ∈ r.graph.opPredecessors node ∧ ∀ p ∈ r.graph.opPredecessors node, p = node := by
  constructor
  · intro hself
    rcases h.exists_of_parent? hself with ⟨i, hi⟩
    have hspec := h.parent?_spec hi
    rw [hself] at hspec
    exact ⟨hspec.1, hspec.2 rfl⟩
  · rintro ⟨hmem, hall⟩
    rcases h.isOp_iff.1 (mem_opPredecessors_iff.1 hmem).1 with ⟨i, hi⟩
    have hspec := h.parent?_spec hi
    cases hparent : r.graph.links.parent? node with
    | none =>
      rw [hparent] at hspec
      simp [hspec] at hmem
    | some p =>
      rw [hparent] at hspec
      rw [hall p hspec.1]

/-- The parents of all nodes come to an end exactly if no operation is its own parent. -/
theorem Sound.ends_iff (h : r.Sound) :
    (∀ node, r.graph.links.Ends node) ↔ ∀ node, r.graph.links.parent? node ≠ some node := by
  constructor
  · intro hends node hself
    exact Links.not_ends_of_parent?_self hself (hends node)
  · intro hself node
    induction node using Nat.strong_induction_on with
    | _ node ih =>
      cases hparent : r.graph.links.parent? node with
      | none => exact .last hparent
      | some p =>
        have hne : p ≠ node := by
          rintro rfl
          exact hself p hparent
        exact .next hparent (ih p (h.parent?_lt hparent hne))

end Record

/-! ## Ordered graphs -/

/-- The numbers of nodes are an order of the operations. -/
structure Ordered (d : Dag) : Prop where
  /-- Edges between operations lead strictly upwards. -/
  forward : ∀ e ∈ d.edges, d.isOp e.source = true → d.isOp e.target = true → e.source < e.target
  /-- No operation comes before itself. -/
  irreflexive : ∀ node, node ∉ d.opPredecessors node
  /-- Following the parents from any node comes to an end. -/
  ends : ∀ node, d.links.Ends node

namespace Record

variable {r : Record}

/-- A sound graph is ordered exactly if no operation names a classical bit twice. -/
theorem Sound.ordered_iff (h : r.Sound) :
    r.graph.Ordered ↔ ∀ o ∈ r.accepted, o.2.clbits.Nodup := by
  constructor
  · intro hordered o ho
    by_contra hrepeated
    exact hordered.irreflexive o.1 ((h.mem_opPredecessors_self_iff ho).2 hrepeated)
  · intro hnodup
    have hirreflexive : ∀ node, node ∉ r.graph.opPredecessors node := by
      intro node hmem
      rcases h.isOp_iff.1 (mem_opPredecessors_iff.1 hmem).1 with ⟨i, hi⟩
      exact (h.mem_opPredecessors_self_iff hi).1 hmem (hnodup _ hi)
    refine ⟨fun e he hsource htarget => ?_, hirreflexive, h.ends_iff.2 fun node hself => ?_⟩
    · refine lt_of_le_of_ne (h.source_le_target he hsource htarget) fun heq => ?_
      have hmem : e.source ∈ r.graph.opPredecessors e.target :=
        mem_opPredecessors_iff.2 ⟨hsource, e.wire, he⟩
      rw [heq] at hmem
      exact hirreflexive e.target hmem
    · exact hirreflexive node (h.parent?_self_iff.1 hself).1

/-- After any requests nodes are an order of the operations exactly if no accepted operation
names a classical bit twice.  Edges never lead downwards in any case, and an operation that
repeats a bit comes before itself; its parents go round in a circle if nothing else comes
before it. -/
theorem ordered_after_iff (requests : List Request) :
    ((after requests).graph.Ordered ↔ ∀ o ∈ (after requests).accepted, o.2.clbits.Nodup) ∧
    (∀ e ∈ (after requests).graph.edges, (after requests).graph.isOp e.source = true →
      (after requests).graph.isOp e.target = true → e.source ≤ e.target) ∧
    (∀ o ∈ (after requests).accepted,
      o.1 ∈ (after requests).graph.opPredecessors o.1 ↔ ¬o.2.clbits.Nodup) ∧
    ((∀ node, (after requests).graph.links.Ends node) ↔
      ∀ o ∈ (after requests).accepted, ¬o.2.clbits.Nodup →
        ∃ p ∈ (after requests).graph.opPredecessors o.1, p ≠ o.1) := by
  have h := sound_after requests
  refine ⟨h.ordered_iff, fun e he => h.source_le_target he, ?_, ?_⟩
  · intro o ho
    exact h.mem_opPredecessors_self_iff ho
  · rw [h.ends_iff]
    constructor
    · intro hends o ho hrepeated
      by_contra hnone
      push Not at hnone
      have hself := (h.mem_opPredecessors_self_iff ho).2 hrepeated
      exact hends o.1 (h.parent?_self_iff.2 ⟨hself, hnone⟩)
    · intro hother node hparent
      rcases h.parent?_self_iff.1 hparent with ⟨hmem, hall⟩
      rcases h.isOp_iff.1 (mem_opPredecessors_iff.1 hmem).1 with ⟨i, hi⟩
      have hrepeated := (h.mem_opPredecessors_self_iff hi).1 hmem
      rcases hother (node, i) hi hrepeated with ⟨p, hp, hne⟩
      exact hne (hall p hp)

/-- One measurement of a qubit into the same classical bit twice is accepted as node 4.  It
comes before itself, and its parents come to no end. -/
theorem not_ordered_after_repeated_clbit :
    let d := (after [.addQubit 0, .addClbit 0, .apply ⟨.measure, [0], [0, 0]⟩]).graph
    d.ops.map (·.1) = [4] ∧ 4 ∈ d.opPredecessors 4 ∧ ¬d.links.Ends 4 ∧ ¬d.Ordered := by
  intro d
  have hself : 4 ∈ d.opPredecessors 4 := by decide
  have hparent : d.links.parent? 4 = some 4 := by decide
  refine ⟨by decide, hself, Links.not_ends_of_parent?_self hparent, fun hordered => ?_⟩
  exact hordered.irreflexive 4 hself

end Record

end PathSelection.Dag
