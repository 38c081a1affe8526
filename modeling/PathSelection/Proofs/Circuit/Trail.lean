import Mathlib.Data.List.Perm.Basic
import Mathlib.Data.List.Sort
import PathSelection.Proofs.Circuit.Editing

/-!
# Trails of wires

The pieces of a wire form one trail from its input to its output.  The trail
stops at each operation as often as the operation names the wire, in the order in
which the operations were accepted.

The invariant behind this is `Wired`: it says where the pieces of every wire run,
for any choice of stops.  A spliced node is one more stop of its wire, and all
other wires keep theirs, so one instruction is a list of splices.

Main results:

- Theorem `Wired.splice`: splicing a node adds it to the stops of its wire only.
- Theorem `Record.sound_after`: the invariant holds after every list of requests.
- Theorem `Record.trails_after`: the structure of all wires, with the trail of
  each being the only one.
-/

namespace PathSelection.Dag

/-! ## Pieces of a walk -/

/-- The pieces of a wire along a walk from node to node. -/
def pieces (w : Wire) : (walk : List Nat) → List Edge
  | a :: b :: rest => ⟨a, b, w⟩ :: pieces w (b :: rest)
  | _ => []

section Pieces

variable {w : Wire} {walk : List Nat} {e : Edge}

/-- The pieces of a walk lead from each of its nodes to the next. -/
theorem mem_pieces_iff : e ∈ pieces w walk ↔ e.wire = w ∧ [e.source, e.target] <:+: walk := by
  fun_induction pieces w walk with
  | case1 a b rest ih =>
    rcases e with ⟨source, target, wire⟩
    simp only [List.mem_cons, ih, List.infix_cons_iff, Edge.mk.injEq, List.cons_prefix_cons,
      List.nil_prefix, and_true]
    tauto
  | case2 walk hshort =>
    have hlength : walk.length ≤ 1 := by
      match walk, hshort with
      | [], _ => simp
      | [_], _ => simp
      | a :: b :: rest, hshort => exact (hshort a b rest rfl).elim
    have hnot : ¬[e.source, e.target] <:+: walk := by
      intro h
      have htwo := h.length_le
      simp only [List.length_cons, List.length_nil] at htwo
      omega
    simp [hnot]

/-- One more node at the end of a walk is one more piece. -/
theorem pieces_concat {a : Nat} (h : walk.getLast? = some a) (b : Nat) :
    pieces w (walk ++ [b]) = pieces w walk ++ [⟨a, b, w⟩] := by
  fun_induction pieces w walk with
  | case1 x y rest ih =>
    have hrest : (y :: rest).getLast? = some a := by simpa [List.getLast?_cons_cons] using h
    simpa [pieces] using ih hrest
  | case2 walk hshort =>
    match walk, hshort with
    | [], _ => simp at h
    | [x], _ =>
      obtain rfl : x = a := by simpa using h
      rfl
    | x :: y :: rest, hshort => exact (hshort x y rest rfl).elim

/-- The pieces start at all nodes of a walk but the last. -/
theorem map_source_pieces : (pieces w walk).map (·.source) = walk.dropLast := by
  fun_induction pieces w walk with
  | case1 a b rest ih => simp [ih]
  | case2 walk h =>
    match walk, h with
    | [], _ => rfl
    | [_], _ => rfl
    | a :: b :: rest, h => exact (h a b rest rfl).elim

/-- The pieces end at all nodes of a walk but the first. -/
theorem map_target_pieces : (pieces w walk).map (·.target) = walk.tail := by
  fun_induction pieces w walk with
  | case1 a b rest ih => simp [ih]
  | case2 walk h =>
    match walk, h with
    | [], _ => rfl
    | [_], _ => rfl
    | a :: b :: rest, h => exact (h a b rest rfl).elim

/-- Neighbours on a walk are related if the ends of all its pieces are. -/
theorem isChain_iff_forall_mem_pieces {R : Nat → Nat → Prop} :
    walk.IsChain R ↔ ∀ e ∈ pieces w walk, R e.source e.target := by
  fun_induction pieces w walk with
  | case1 a b rest ih => simp [List.isChain_cons_cons, ih]
  | case2 walk h =>
    match walk, h with
    | [], _ => simp
    | [_], _ => simp
    | a :: b :: rest, h => exact (h a b rest rfl).elim

/-- A piece of a walk between nodes other than its two ends is a piece between them. -/
theorem mem_pieces_inner {a b : Nat} {inner : List Nat} (h : e ∈ pieces w (a :: (inner ++ [b])))
    (ha : e.source ≠ a) (hb : e.target ≠ b) : e ∈ pieces w inner := by
  rw [mem_pieces_iff] at h ⊢
  rcases h with ⟨hwire, hpart⟩
  refine ⟨hwire, ?_⟩
  rcases List.infix_cons_iff.1 hpart with hprefix | hpart
  · exact (ha (List.cons_prefix_cons.1 hprefix).1).elim
  rcases List.infix_concat_iff.1 hpart with hsuffix | hpart
  · have hlast := hsuffix.getLast (List.cons_ne_nil _ _)
    simp at hlast
    exact (hb hlast).elim
  · exact hpart

end Pieces

/-! ## Threaded strands -/

/-- The pieces of a wire in a graph. -/
def piecesOf (d : Dag) (w : Wire) : List Edge := d.edges.filter (·.wire == w)

/-- The input node of a wire, which was made just before its output node. -/
def Strand.input (s : Strand) : Nat := s.output - 1

/-- The nodes of a strand in order if it has some stops. -/
def Strand.walk (s : Strand) (stops : List Nat) : List Nat := s.input :: (stops ++ [s.output])

/-- The pieces of a strand run from its input over some stops to its output. -/
structure Strand.Threaded (d : Dag) (s : Strand) (stops : List Nat) : Prop where
  input : d.nodes[s.input]? = some (.input s.wire)
  output : d.nodes[s.output]? = some (.output s.wire)
  front : (s.input :: stops).getLast? = some s.front
  pieces : (d.piecesOf s.wire).Perm (pieces s.wire (s.walk stops))

/-- All wires are distinct and run over their stops, and there are no ends, pieces or stops of
others. -/
structure Wired (d : Dag) (stops : Wire → List Nat) : Prop where
  nodup : (d.strands.map (·.wire)).Nodup
  threaded : ∀ s ∈ d.strands, s.Threaded d (stops s.wire)
  input : ∀ n w, d.nodes[n]? = some (.input w) → (w, n) ∈ d.strands.map fun s => (s.wire, s.input)
  output : ∀ n w, d.nodes[n]? = some (.output w) →
    (w, n) ∈ d.strands.map fun s => (s.wire, s.output)
  edge : ∀ e ∈ d.edges, d.hasWire e.wire = true
  absent : ∀ w, d.hasWire w = false → stops w = []

variable {d : Dag} {s : Strand} {w : Wire} {node : Nat} {stops : Wire → List Nat}

/-- The last piece of a strand leads from its front to its output. -/
theorem Strand.pieces_walk {l : List Nat} (h : (s.input :: l).getLast? = some s.front) :
    Dag.pieces s.wire (s.walk l) =
      Dag.pieces s.wire (s.input :: l) ++ [⟨s.front, s.output, s.wire⟩] := by
  rw [Strand.walk, ← List.cons_append, pieces_concat h]

/-- The front of a threaded strand is followed by its output. -/
theorem Strand.Threaded.mem_edges {l : List Nat} (h : s.Threaded d l) :
    (⟨s.front, s.output, s.wire⟩ : Edge) ∈ d.edges := by
  have hlast : (⟨s.front, s.output, s.wire⟩ : Edge) ∈ Dag.pieces s.wire (s.walk l) := by
    rw [Strand.pieces_walk h.front]
    simp
  exact (List.mem_filter.1 (h.pieces.mem_iff.2 hlast)).1

/-- Rerouting a wire replaces its last piece by two. -/
theorem piecesOf_reroute_self :
    (d.reroute s node).piecesOf s.wire =
      ⟨node, s.output, s.wire⟩ :: ⟨s.front, node, s.wire⟩
        :: (d.piecesOf s.wire).erase ⟨s.front, s.output, s.wire⟩ := by
  simp [piecesOf, reroute, List.erase_filter]

/-- Rerouting a wire leaves the pieces of all others. -/
theorem piecesOf_reroute_of_ne (h : w ≠ s.wire) :
    (d.reroute s node).piecesOf w = d.piecesOf w := by
  simp [piecesOf, reroute, h.symm, ← List.erase_filter]

/-- A strand that is rerouted through a node has it as its last stop. -/
theorem Strand.Threaded.reroute {l : List Nat} (h : s.Threaded d l) :
    Strand.Threaded (d.reroute s node) { s with front := node } (l ++ [node]) where
  input := h.input
  output := h.output
  front := by simp [List.getLast?_cons]
  pieces := by
    have hwalk : Dag.pieces s.wire (Strand.walk { s with front := node } (l ++ [node])) =
        Dag.pieces s.wire (s.input :: l) ++ [⟨s.front, node, s.wire⟩]
          ++ [⟨node, s.output, s.wire⟩] := by
      rw [← pieces_concat h.front]
      exact Strand.pieces_walk (s := { s with front := node }) (by simp [List.getLast?_cons])
    have hrest : ((d.piecesOf s.wire).erase ⟨s.front, s.output, s.wire⟩).Perm
        (Dag.pieces s.wire (s.input :: l)) := by
      have hpieces := h.pieces
      rw [Strand.pieces_walk h.front] at hpieces
      have hlast := (List.perm_append_singleton (⟨s.front, s.output, s.wire⟩ : Edge)
        (Dag.pieces s.wire (s.input :: l))).erase ⟨s.front, s.output, s.wire⟩
      rw [List.erase_cons_head] at hlast
      exact (hpieces.erase _).trans hlast
    rw [piecesOf_reroute_self, hwalk]
    exact (((hrest.cons _).cons _).trans ((List.perm_append_singleton _ _).symm.cons _)).trans
      (List.perm_append_singleton _ _).symm

/-- Another strand keeps its stops. -/
theorem Strand.Threaded.reroute_of_ne {t : Strand} {l : List Nat} (h : t.Threaded d l)
    (hne : t.wire ≠ s.wire) : t.Threaded (d.reroute s node) l where
  input := h.input
  output := h.output
  front := h.front
  pieces := by
    rw [piecesOf_reroute_of_ne hne]
    exact h.pieces

/-- Two strands of one wire are the same. -/
theorem Wired.strand_inj {t : Strand} (h : Wired d stops) (hs : s ∈ d.strands) (ht : t ∈ d.strands)
    (heq : t.wire = s.wire) : t = s :=
  List.inj_on_of_nodup_map h.nodup ht hs heq

/-- The input of a strand is the only input of its wire. -/
theorem Wired.input_iff (h : Wired d stops) (hs : s ∈ d.strands) (n : Nat) :
    d.nodes[n]? = some (.input s.wire) ↔ n = s.input := by
  constructor
  · intro hn
    rcases List.mem_map.1 (h.input n s.wire hn) with ⟨t, ht, heq⟩
    rcases Prod.mk.inj heq with ⟨hwire, rfl⟩
    rw [h.strand_inj hs ht hwire]
  · rintro rfl
    exact (h.threaded s hs).input

/-- The output of a strand is the only output of its wire. -/
theorem Wired.output_iff (h : Wired d stops) (hs : s ∈ d.strands) (n : Nat) :
    d.nodes[n]? = some (.output s.wire) ↔ n = s.output := by
  constructor
  · intro hn
    rcases List.mem_map.1 (h.output n s.wire hn) with ⟨t, ht, heq⟩
    rcases Prod.mk.inj heq with ⟨hwire, rfl⟩
    rw [h.strand_inj hs ht hwire]
  · rintro rfl
    exact (h.threaded s hs).output

/-! ## Editing wired graphs -/

/-- Nodes that are there stay where they are when one is put behind them. -/
theorem getElem?_of_push {c : Dag} {n m : Node} {k : Nat} (h : c.nodes = d.nodes.push n)
    (hm : d.nodes[k]? = some m) : c.nodes[k]? = some m := by
  have hlt : k < d.nodes.size := (Array.getElem?_eq_some_iff.1 hm).1
  rw [h, Array.getElem?_push]
  simpa [hlt.ne] using hm

/-- A node that is not the last one was there before it was put. -/
theorem getElem?_of_push_of_ne {c : Dag} {n m : Node} {k : Nat} (h : c.nodes = d.nodes.push n)
    (hm : c.nodes[k]? = some m) (hne : m ≠ n) : d.nodes[k]? = some m := by
  rw [h, Array.getElem?_push] at hm
  split at hm
  · exact (hne (Option.some.inj hm).symm).elim
  · exact hm

/-- A threaded strand stays threaded when nodes and pieces of other wires come in. -/
theorem Strand.Threaded.mono {c : Dag} {l : List Nat} (h : s.Threaded d l)
    (hnodes : ∀ {k : Nat} {m : Node}, d.nodes[k]? = some m → c.nodes[k]? = some m)
    (hpieces : c.piecesOf s.wire = d.piecesOf s.wire) : s.Threaded c l :=
  ⟨hnodes h.input, hnodes h.output, h.front, hpieces ▸ h.pieces⟩

/-- The node of an operation does not touch the wires. -/
theorem Wired.withNode {i : Instruction} (h : Wired d stops) : Wired (d.withNode i) stops where
  nodup := h.nodup
  threaded := fun s hs => (h.threaded s hs).mono (getElem?_of_push rfl) rfl
  input := fun n w hn => h.input n w (getElem?_of_push_of_ne rfl hn (by simp))
  output := fun n w hn => h.output n w (getElem?_of_push_of_ne rfl hn (by simp))
  edge := h.edge
  absent := h.absent

/-- The count of operations does not touch the wires. -/
theorem Wired.withNumOps (h : Wired d stops) (n : Nat) : Wired { d with numOps := n } stops where
  nodup := h.nodup
  threaded := fun s hs => (h.threaded s hs).mono id rfl
  input := h.input
  output := h.output
  edge := h.edge
  absent := h.absent

/-- The strand of a new wire has no stop. -/
theorem Wired.threaded_withWire (h : Wired d stops) (hw : d.hasWire w = false) :
    Strand.Threaded (d.withWire w) ⟨w, d.nodes.size + 1, d.nodes.size⟩ (stops w) where
  input := by
    have hfirst : (d.nodes.push (.input w))[d.nodes.size]? = some (.input w) := by simp
    exact getElem?_of_push (d := { d with nodes := d.nodes.push (.input w) }) rfl hfirst
  output := by
    have hlast : ((d.nodes.push (.input w)).push (.output w))[(d.nodes.push (.input w)).size]? =
        some (.output w) := Array.getElem?_push_size
    rwa [Array.size_push] at hlast
  front := by simp [h.absent w hw, Strand.input]
  pieces := by
    have hnone : d.piecesOf w = [] := by
      refine List.filter_eq_nil_iff.2 fun e he heq => ?_
      have hwire := h.edge e he
      simp [beq_iff_eq.1 heq, hw] at hwire
    have hone : (d.withWire w).piecesOf w = [⟨d.nodes.size, d.nodes.size + 1, w⟩] := by
      rw [piecesOf] at hnone
      simp [withWire, piecesOf, hnone]
    simp [hone, h.absent w hw, Strand.walk, Strand.input, Dag.pieces]

/-- A new wire comes in without a stop, and the others keep theirs. -/
theorem Wired.withWire (h : Wired d stops) (hw : d.hasWire w = false) :
    Wired (d.withWire w) stops := by
  have hfresh : ∀ s ∈ d.strands, s.wire ≠ w := by
    intro s hs heq
    rw [hasWire_iff.2 ⟨s, hs, heq⟩] at hw
    cases hw
  refine ⟨?_, ?_, ?_, ?_, ?_, ?_⟩
  · simp only [Dag.withWire, List.map_cons, List.nodup_cons]
    exact ⟨by simpa using hfresh, h.nodup⟩
  · intro s hs
    rcases List.mem_cons.1 hs with rfl | hs
    · exact h.threaded_withWire hw
    · refine (h.threaded s hs).mono (fun hm => ?_) ?_
      · exact getElem?_of_push (d := { d with nodes := d.nodes.push (.input w) }) rfl
          (getElem?_of_push rfl hm)
      · simp [Dag.withWire, piecesOf, (hfresh s hs).symm]
  · intro n v hn
    have hfirst : (d.nodes.push (.input w))[n]? = some (.input v) :=
      getElem?_of_push_of_ne (d := { d with nodes := d.nodes.push (.input w) }) rfl hn (by simp)
    rw [Array.getElem?_push] at hfirst
    split at hfirst
    · rename_i hlast
      obtain rfl : w = v := by simpa using hfirst
      simp [Dag.withWire, Strand.input, hlast]
    · exact List.mem_cons_of_mem _ (h.input n v hfirst)
  · intro n v hn
    rw [Dag.withWire, Array.getElem?_push] at hn
    split at hn
    · rename_i hlast
      obtain rfl : w = v := by simpa using hn
      simp [Dag.withWire, hlast]
    · refine List.mem_cons_of_mem _ (h.output n v ?_)
      have hn := getElem?_of_push_of_ne (c := { d with nodes := d.nodes.push (.input w) }) rfl hn
      exact hn (by simp)
  · intro e he
    rcases List.mem_cons.1 he with rfl | he
    · simp [hasWire_withWire]
    · simp [hasWire_withWire, h.edge e he]
  · intro v hv
    rw [← Bool.not_eq_true, hasWire_withWire, not_or, Bool.not_eq_true] at hv
    exact h.absent v hv.1

/-- Adding a wire keeps the stops of all wires. -/
theorem Wired.addWire (h : Wired d stops) (w : Wire) : Wired (d.addWire w) stops := by
  cases hw : d.hasWire w with
  | true => rwa [addWire_of_hasWire hw]
  | false =>
    rw [addWire_of_not_hasWire hw]
    exact h.withWire hw

/-- A spliced node is one more stop of its wire, and the other wires keep theirs. -/
theorem Wired.splice (node : Nat) (h : Wired d stops) (hw : d.hasWire w = true) :
    ∃ s, Dag.splice node w d = .ok () (d.reroute s node) ∧
      Wired (d.reroute s node) (fun v => stops v ++ if v = w then [node] else []) := by
  rcases Option.isSome_iff_exists.1 hw with ⟨s, hs⟩
  rcases strand?_eq_some hs with ⟨hmem, rfl⟩
  have hthreaded := h.threaded s hmem
  refine ⟨s, splice_of_mem hs hthreaded.mem_edges, ?_, ?_, ?_, ?_, ?_, ?_⟩
  · rw [map_strands_reroute _ fun _ => rfl]
    exact h.nodup
  · intro t' ht'
    rcases List.mem_map.1 ht' with ⟨t, ht, rfl⟩
    by_cases heq : t.wire = s.wire
    · obtain rfl : t = s := h.strand_inj hmem ht heq
      simpa using hthreaded.reroute
    · simpa [heq] using (h.threaded t ht).reroute_of_ne heq
  · intro n v hn
    rw [map_strands_reroute _ fun _ => rfl]
    exact h.input n v hn
  · intro n v hn
    rw [map_strands_reroute _ fun _ => rfl]
    exact h.output n v hn
  · intro e he
    rw [hasWire_reroute]
    simp only [reroute, List.mem_cons] at he
    rcases he with rfl | rfl | he
    · exact hw
    · exact hw
    · exact h.edge e (List.mem_of_mem_erase he)
  · intro v hv
    rw [hasWire_reroute] at hv
    have hne : v ≠ s.wire := by
      rintro rfl
      simp [hw] at hv
    simp [h.absent v hv, hne]

/-- Splicing a node into a list of wires adds it to the stops of each as often as the list
has it. -/
theorem Wired.forM_splice (node : Nat) {ws : List Wire} (h : Wired d stops)
    (hws : ∀ w ∈ ws, d.hasWire w = true) :
    ∃ d', forM ws (Dag.splice node) d = .ok () d' ∧ d'.nodes = d.nodes ∧ d'.numOps = d.numOps ∧
      (∀ v, d'.hasWire v = d.hasWire v) ∧
      Wired d' (fun v => stops v ++ List.replicate (ws.count v) node) := by
  induction ws generalizing d stops with
  | nil => exact ⟨d, rfl, rfl, rfl, fun _ => rfl, by simpa using h⟩
  | cons w ws ih =>
    rcases h.splice node (hws w (by simp)) with ⟨s, hsplice, hwired⟩
    obtain ⟨d', hrun, hnodes, hcount, hwires, hd'⟩ :=
      ih hwired (fun v hv => by simpa using hws v (by simp [hv]))
    refine ⟨d', ?_, hnodes, hcount, fun v => by simpa using hwires v, ?_⟩
    · simp [bind, EStateM.bind, hsplice, hrun]
    · have hstops : (fun v => (stops v ++ if v = w then [node] else []) ++
          List.replicate (ws.count v) node) =
          fun v => stops v ++ List.replicate ((w :: ws).count v) node := by
        funext v
        by_cases hv : v = w
        · subst hv
          simp [List.replicate_succ]
        · simp [hv, List.count_cons_of_ne (Ne.symm hv)]
      exact hstops ▸ hd'

/-- An instruction that passes its checks is accepted with the next node, at which each of its wires
stops as often as it is named. -/
theorem Wired.apply {i : Instruction} (h : Wired d stops) (hcheck : d.check i = .ok ()) :
    ∃ d', Dag.apply i d = .ok d.nodes.size d' ∧ d'.nodes = d.nodes.push (.op i) ∧
      d'.numOps = d.numOps + 1 ∧ (∀ v, d'.hasWire v = d.hasWire v) ∧
      Wired d' (fun v => stops v ++ List.replicate (i.wires.count v) d.nodes.size) := by
  rcases check_eq_ok_iff.1 hcheck with ⟨_, hwires, _⟩
  obtain ⟨d', hrun, hnodes, hcount, hsame, hwired⟩ :=
    Wired.forM_splice d.nodes.size (h.withNode (i := i)) hwires
  refine ⟨_, apply_of_check_ok hcheck hrun, hnodes, ?_, hsame, hwired.withNumOps _⟩
  rw [hcount]
  rfl

/-! ## Records -/

/-- The nodes of the operations that name a wire, each as often as its operation names it. -/
def stopsOf (w : Wire) (operations : List (Nat × Instruction)) : List Nat :=
  operations.flatMap fun o => List.replicate (o.2.wires.count w) o.1

namespace Record

/-- The graph of a record has just the wires that were asked for and just the
accepted operations. -/
structure Sound (r : Record) : Prop where
  wired : Wired r.graph (stopsOf · r.accepted)
  ops : r.graph.ops = r.accepted
  numOps : r.graph.numOps = r.accepted.length
  wires : ∀ w, r.graph.hasWire w = true ↔ w ∈ r.wires
  qubits : ∀ o ∈ r.accepted, o.2.qubits.Nodup

private theorem sound_empty : Sound empty where
  wired :=
    { nodup := List.nodup_nil
      threaded := by simp [empty, Dag.empty]
      input := by simp [empty, Dag.empty]
      output := by simp [empty, Dag.empty]
      edge := by simp [empty, Dag.empty]
      absent := fun _ _ => rfl }
  ops := rfl
  numOps := rfl
  wires := by simp [empty, Dag.empty, hasWire, strand?]
  qubits := by simp [empty]

/-- Adding a wire keeps a record sound. -/
theorem Sound.addWire {r : Record} (h : r.Sound) (w : Wire) :
    Sound { r with graph := r.graph.addWire w, wires := r.wires ++ [w] } where
  wired := h.wired.addWire w
  ops := by rw [ops_addWire, h.ops]
  numOps := by rw [numOps_addWire, h.numOps]
  wires := by
    intro v
    simp [hasWire_addWire, h.wires]
  qubits := h.qubits

/-- A request keeps a record sound. -/
theorem Sound.step {r : Record} (h : r.Sound) (request : Request) : (r.step request).Sound := by
  cases request with
  | addQubit id => exact h.addWire (.qubit id)
  | addClbit id => exact h.addWire (.clbit id)
  | apply i =>
    cases hcheck : r.graph.check i with
    | error e =>
      have hstep : r.step (.apply i) = r := by simp [Record.step, apply_of_check_error hcheck]
      rwa [hstep]
    | ok u =>
      rcases h.wired.apply hcheck with ⟨d, hrun, hnodes, hcount, hsame, hwired⟩
      have hstep : r.step (.apply i) =
          { r with graph := d, accepted := r.accepted ++ [(r.graph.nodes.size, i)] } := by
        simp [Record.step, hrun]
      rw [hstep]
      exact
        { wired := by simpa [stopsOf] using hwired
          ops := by simp [ops_of_push hnodes, h.ops, Node.instruction?]
          numOps := by simp [hcount, h.numOps]
          wires := fun w => (hsame w).symm ▸ h.wires w
          qubits := by
            intro o ho
            rcases List.mem_append.1 ho with ho | ho
            · exact h.qubits o ho
            · obtain rfl := List.mem_singleton.1 ho
              exact (check_eq_ok_iff.1 hcheck).2.2 }

/-- Every list of requests leaves a sound record. -/
theorem sound_after (requests : List Request) : (after requests).Sound := by
  suffices h : ∀ r : Record, r.Sound → (requests.foldl step r).Sound from h empty sound_empty
  induction requests with
  | nil => exact fun r h => h
  | cons request requests ih => exact fun r h => ih _ (h.step request)

end Record

/-! ## The only trail -/

/-- The stops of a wire come in the order of their nodes. -/
theorem pairwise_stopsOf {operations : List (Nat × Instruction)}
    (h : operations.Pairwise (·.1 < ·.1)) : (stopsOf w operations).Pairwise (· ≤ ·) := by
  rw [stopsOf, List.pairwise_flatMap]
  refine ⟨fun o _ => List.pairwise_replicate.2 (.inr le_rfl), h.imp ?_⟩
  intro o p hop x hx y hy
  rw [List.eq_of_mem_replicate hx, List.eq_of_mem_replicate hy]
  exact hop.le

/-- A wire stops at the operations that are on it. -/
theorem mem_stopsOf {operations : List (Nat × Instruction)} :
    node ∈ stopsOf w operations ↔ ∃ i, (node, i) ∈ operations ∧ w ∈ i.wires := by
  simp only [stopsOf, List.mem_flatMap, List.mem_replicate, ne_eq, List.count_eq_zero, not_not]
  constructor
  · rintro ⟨⟨n, i⟩, ho, hw, rfl⟩
    exact ⟨i, ho, hw⟩
  · rintro ⟨i, ho, hw⟩
    exact ⟨(node, i), ho, hw, rfl⟩

/-- A walk over all pieces of a wire, each once, from an input to an output of the wire. -/
structure IsTrail (d : Dag) (w : Wire) (walk : List Nat) : Prop where
  first : ∃ a, walk.head? = some a ∧ d.nodes[a]? = some (.input w)
  last : ∃ b, walk.getLast? = some b ∧ d.nodes[b]? = some (.output w)
  covers : (pieces w walk).Perm (d.piecesOf w)

private theorem Strand.getLast?_walk (l : List Nat) : (s.walk l).getLast? = some s.output := by
  rw [Strand.walk, ← List.cons_append, List.getLast?_concat]

/-- The nodes of a threaded strand are a trail. -/
theorem Strand.Threaded.isTrail {l : List Nat} (h : s.Threaded d l) :
    d.IsTrail s.wire (s.walk l) where
  first := ⟨s.input, rfl, h.input⟩
  last := ⟨s.output, s.getLast?_walk l, h.output⟩
  covers := h.pieces.symm

/-- An input is no operation. -/
theorem not_isOp_of_input {a : Nat} (h : d.nodes[a]? = some (.input w)) : d.isOp a = false := by
  simp [isOp, instruction?, h, Node.instruction?]

/-- An output is no operation. -/
theorem not_isOp_of_output {b : Nat} (h : d.nodes[b]? = some (.output w)) : d.isOp b = false := by
  simp [isOp, instruction?, h, Node.instruction?]

/-- A trail of a threaded strand whose stops are operations in order is the walk over
these stops. -/
theorem IsTrail.eq_walk {l walk : List Nat} (htrail : d.IsTrail s.wire walk) (h : s.Threaded d l)
    (hops : ∀ n ∈ l, d.isOp n = true) (hsorted : l.Pairwise (· ≤ ·)) : walk = s.walk l := by
  have hperm := htrail.covers.trans h.pieces
  rcases htrail.first with ⟨a, hfirst, ha⟩
  rcases htrail.last with ⟨b, hlast, hb⟩
  rcases List.head?_eq_some_iff.1 hfirst with ⟨rest, rfl⟩
  have htargets : rest.Perm (l ++ [s.output]) := by
    have hmap := hperm.map Edge.target
    rwa [map_target_pieces, map_target_pieces] at hmap
  have hrest : rest ≠ [] := by
    rintro rfl
    simpa using htargets.length_eq
  obtain ⟨inner, rfl⟩ : ∃ inner, rest = inner ++ [b] := by
    rw [List.getLast?_cons_of_ne_nil hrest] at hlast
    exact List.getLast?_eq_some_iff.1 hlast
  have hsources : (a :: inner).Perm (s.input :: l) := by
    have hmap := hperm.map Edge.source
    rwa [map_source_pieces, map_source_pieces, Strand.walk, ← List.cons_append,
      ← List.cons_append, List.dropLast_concat, List.dropLast_concat] at hmap
  -- The ends are no operations, so they are the ends of the strand.
  obtain rfl : a = s.input := by
    rcases List.mem_cons.1 (hsources.mem_iff.1 List.mem_cons_self) with hae | hal
    · exact hae
    · exact absurd (hops a hal) (by simp [not_isOp_of_input ha])
  obtain rfl : b = s.output := by
    have hmem := htargets.mem_iff.1 (List.mem_append_right inner (List.mem_singleton_self b))
    rcases List.mem_append.1 hmem with hbl | hbe
    · exact absurd (hops b hbl) (by simp [not_isOp_of_output hb])
    · exact List.mem_singleton.1 hbe
  -- The inner nodes are the stops, and every piece between them leads upwards.
  have hinner : inner.Perm l := (List.perm_cons _).1 hsources
  have hchain : inner.IsChain (· ≤ ·) := by
    refine isChain_iff_forall_mem_pieces.2 fun e (he : e ∈ pieces s.wire inner) => ?_
    rcases mem_pieces_iff.1 he with ⟨hwire, hpart⟩
    have hwalk : e ∈ pieces s.wire (s.walk l) :=
      hperm.mem_iff.1 (mem_pieces_iff.2 ⟨hwire, hpart.trans ⟨[s.input], [s.output], by simp⟩⟩)
    have hsource : d.isOp e.source = true := hops _ (hinner.subset (hpart.subset (by simp)))
    have htarget : d.isOp e.target = true := hops _ (hinner.subset (hpart.subset (by simp)))
    refine isChain_iff_forall_mem_pieces.1 hsorted.isChain e (mem_pieces_inner hwalk ?_ ?_)
    · intro heq
      simp [heq, not_isOp_of_input h.input] at hsource
    · intro heq
      simp [heq, not_isOp_of_output h.output] at htarget
  have heq : inner = l := hinner.eq_of_pairwise (fun _ _ _ _ => le_antisymm)
    (List.isChain_iff_pairwise.1 hchain) hsorted
  rw [heq, Strand.walk]

namespace Record

/-- The stops of a wire in a record come in the order of their nodes. -/
theorem Sound.pairwise_stopsOf {r : Record} (h : r.Sound) :
    (stopsOf w r.accepted).Pairwise (· ≤ ·) :=
  Dag.pairwise_stopsOf (h.ops ▸ pairwise_ops)

/-- The stops of a wire in a record are operations. -/
theorem Sound.isOp_of_mem_stopsOf {r : Record} (h : r.Sound) :
    ∀ n ∈ stopsOf w r.accepted, r.graph.isOp n = true := by
  intro n hn
  rcases mem_stopsOf.1 hn with ⟨i, hi, _⟩
  exact isOp_iff.2 ⟨i, h.ops ▸ hi⟩

/-- What requests leave of a graph.  Every wire that was asked for, and no other, has one input, one
output and one trail between them; the operations on the trail are the accepted ones that name the
wire, in their order and as often as they name it, and the front of the wire is the node before its
output.  The graph lists and counts just the accepted operations. -/
theorem trails_after (requests : List Request) :
    let r := after requests
    (∀ w, r.graph.hasWire w = true ↔ w ∈ r.wires) ∧
      (∀ w ∈ r.wires, ∃ a b,
        (∀ n, r.graph.nodes[n]? = some (.input w) ↔ n = a) ∧
        (∀ n, r.graph.nodes[n]? = some (.output w) ↔ n = b) ∧
        (∀ walk, r.graph.IsTrail w walk ↔ walk = a :: (stopsOf w r.accepted ++ [b])) ∧
        r.graph.front? w = (a :: stopsOf w r.accepted).getLast? ∧ r.graph.output? w = some b) ∧
      (∀ e ∈ r.graph.edges, e.wire ∈ r.wires) ∧
      r.graph.numOps = r.graph.nodes.countP (·.instruction?.isSome) ∧
      r.graph.ops = r.accepted := by
  intro r
  have h : r.Sound := sound_after requests
  refine ⟨h.wires, ?_, ?_, ?_, h.ops⟩
  · intro w hw
    rcases Option.isSome_iff_exists.1 ((h.wires w).2 hw) with ⟨s, hs⟩
    rcases strand?_eq_some hs with ⟨hmem, rfl⟩
    have hthreaded := h.wired.threaded s hmem
    refine ⟨s.input, s.output, h.wired.input_iff hmem, h.wired.output_iff hmem, ?_, ?_, ?_⟩
    · intro walk
      constructor
      · intro htrail
        exact htrail.eq_walk hthreaded h.isOp_of_mem_stopsOf h.pairwise_stopsOf
      · rintro rfl
        exact hthreaded.isTrail
    · rw [hthreaded.front, front?, hs, Option.map_some]
    · rw [output?, hs, Option.map_some]
  · intro e he
    exact (h.wires _).1 (h.wired.edge e he)
  · rw [h.numOps, ← h.ops, length_ops]

end Record

end PathSelection.Dag
