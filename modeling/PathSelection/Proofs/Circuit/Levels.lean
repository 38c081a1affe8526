import PathSelection.Proofs.Circuit.Building
import PathSelection.Proofs.Circuit.Order
import PathSelection.Proofs.Lists

/-!
# Levels of operations

The depth of a graph is found by putting each operation above the highest of its
predecessors.  The same levels are reached without a graph: each wire keeps the
level of the last operation on it, and an instruction puts all its wires above the
highest of them.

The invariant behind this is `Record.Sound.levelsOf_eq`: the level of a wire is that
of its last stop.  It holds for any weights of instructions, so the depth of a
circuit is the peak of the schedule of its instructions.

Main results:

- Theorem `Record.Sound.mem_opPredecessors_iff_getLast?`: an operation comes just behind the last
  stops of its wires.
- Theorem `Record.Sound.levelsOf_eq`: operations are as high as wires.
- Theorem `Circuit.Sound.depth_eq`: the depth is the peak of the schedule in which barriers
  have no weight.
-/

namespace PathSelection

/-! ## Levels -/

/-- The levels of some keys and the highest level on which one was put. -/
structure Levels (κ : Type) where
  level : κ → Nat
  peak : Nat

namespace Levels

variable {κ : Type} {s : Levels κ} {keys others : List κ} {m n : Nat}

/-- All keys are at the bottom. -/
def start : Levels κ := ⟨fun _ => 0, 0⟩

/-- The highest level of some keys. -/
def top (s : Levels κ) (keys : List κ) : Nat := (keys.map s.level).foldl max 0

/-- Puts some keys on a level. -/
def put [DecidableEq κ] (s : Levels κ) (keys : List κ) (n : Nat) : Levels κ where
  level := fun k => if k ∈ keys then n else s.level k
  peak := max s.peak n

/-- The maximum of a list and of one more number. -/
theorem foldl_max_cons (x : Nat) (l : List Nat) : (x :: l).foldl max 0 = max (l.foldl max 0) x := by
  apply eq_of_forall_ge_iff
  intro n
  rw [foldl_max_le_iff, max_le_iff, foldl_max_le_iff, List.forall_mem_cons]
  tauto

/-- The top level is the least upper bound of the levels. -/
theorem top_le_iff : s.top keys ≤ n ↔ ∀ k ∈ keys, s.level k ≤ n := by
  simp [top, foldl_max_le_iff]

/-- No level is above the top. -/
theorem level_le_top {k : κ} (h : k ∈ keys) : s.level k ≤ s.top keys :=
  top_le_iff.1 le_rfl k h

variable [DecidableEq κ]

/-- Keys that are put on a level are on it. -/
theorem level_put_of_mem {k : κ} (h : k ∈ keys) : (s.put keys n).level k = n := if_pos h

/-- All other keys stay where they are. -/
theorem level_put_of_not_mem {k : κ} (h : k ∉ keys) : (s.put keys n).level k = s.level k := if_neg h

/-- Keys that were not put keep their highest level. -/
theorem top_put (h : keys.Disjoint others) : (s.put others n).top keys = s.top keys := by
  have hlevel : keys.map (s.put others n).level = keys.map s.level :=
    List.map_congr_left fun k hk => level_put_of_not_mem (h hk)
  rw [top, hlevel, top]

/-- Different keys can be put in either order. -/
theorem put_comm (h : keys.Disjoint others) :
    (s.put keys m).put others n = (s.put others n).put keys m := by
  simp only [put, mk.injEq]
  refine ⟨funext fun k => ?_, by omega⟩
  by_cases hk : k ∈ keys
  · simp only [if_pos hk, if_neg (h hk)]
  · simp only [if_neg hk]

end Levels

/-! ## Schedules of instructions -/

namespace Instruction

variable {i j : Instruction} {s : Levels Wire} {weight : Instruction → Nat}

/-- The weight of an instruction in the depth: a barrier adds no layer. -/
def layers (i : Instruction) : Nat := if i.isBarrier then 0 else 1

/-- An instruction puts all its wires above the highest of them. -/
def schedule (weight : Instruction → Nat) (s : Levels Wire) (i : Instruction) : Levels Wire :=
  s.put i.wires (s.top i.wires + weight i)

/-- The levels of wires after some instructions. -/
def scheduled (weight : Instruction → Nat) (is : List Instruction) : Levels Wire :=
  is.foldl (schedule weight) .start

/-- The schedule of one more instruction. -/
theorem scheduled_concat (is : List Instruction) (i : Instruction) :
    scheduled weight (is ++ [i]) = schedule weight (scheduled weight is) i := by
  simp [scheduled]

/-- Instructions without a common wire are scheduled in either order. -/
theorem schedule_comm (h : i.wires.Disjoint j.wires) :
    schedule weight (schedule weight s i) j = schedule weight (schedule weight s j) i := by
  simp only [schedule]
  rw [Levels.top_put h.symm, Levels.top_put h, Levels.put_comm h]

end Instruction

/-! ## Levels of operations -/

namespace Dag

variable {d : Dag} {node : Nat} {weight : Instruction → Nat}

/-- An operation is put above the highest of its predecessors. -/
def addLevel (d : Dag) (weight : Instruction → Nat) (s : Levels Nat) (o : Nat × Instruction) :
    Levels Nat :=
  s.put [o.1] (s.top (d.opPredecessors o.1) + weight o.2)

/-- The levels of some operations. -/
def levelsOf (d : Dag) (weight : Instruction → Nat) (operations : List (Nat × Instruction)) :
    Levels Nat :=
  operations.foldl (d.addLevel weight) .start

/-- The levels of one more operation. -/
theorem levelsOf_concat (operations : List (Nat × Instruction)) (o : Nat × Instruction) :
    d.levelsOf weight (operations ++ [o]) = d.addLevel weight (d.levelsOf weight operations) o := by
  simp [levelsOf]

/-- What is no operation yet is at the bottom. -/
theorem level_levelsOf {operations : List (Nat × Instruction)}
    (h : ∀ i, (node, i) ∉ operations) : (d.levelsOf weight operations).level node = 0 := by
  induction operations using List.reverseRecOn with
  | nil => rfl
  | append_singleton operations o ih =>
    have hne : node ∉ [o.1] := by
      intro hmem
      exact h o.2 (by simp [List.mem_singleton.1 hmem])
    rw [levelsOf_concat, addLevel, Levels.level_put_of_not_mem hne]
    exact ih fun i hi => h i (by simp [hi])

private theorem stopsOf_append (w : Wire) (operations others : List (Nat × Instruction)) :
    stopsOf w (operations ++ others) = stopsOf w operations ++ stopsOf w others := by
  simp [stopsOf]

/-- What stands in front of the first occurrence of a node. -/
theorem eq_of_append_cons_eq {before before' behind behind' : List Nat} (h : node ∉ before)
    (h' : node ∉ before') (heq : before ++ node :: behind = before' ++ node :: behind') :
    before = before' := by
  have htake {l : List Nat} (hl : node ∉ l) (rest : List Nat) :
      (l ++ node :: rest).takeWhile (· != node) = l := by
    rw [List.takeWhile_append_of_pos, List.takeWhile_cons_of_neg (by simp), List.append_nil]
    intro n hn
    simpa using ne_of_mem_of_not_mem hn hl
  rw [← htake h behind, heq, htake h']

namespace Record

variable {r : Record} {before behind : List (Nat × Instruction)} {i : Instruction}

/-- An operation comes just behind the last stops of its wires, and behind nothing else but
itself. -/
theorem Sound.mem_opPredecessors_iff_getLast? (h : r.Sound)
    (hsplit : r.accepted = before ++ (node, i) :: behind) {p : Nat} (hne : p ≠ node) :
    p ∈ r.graph.opPredecessors node ↔ ∃ w ∈ i.wires, (stopsOf w before).getLast? = some p := by
  have hsorted := h.pairwise_accepted
  rw [hsplit, List.pairwise_append] at hsorted
  have hstops (w : Wire) : stopsOf w r.accepted =
      stopsOf w before ++ (List.replicate (i.wires.count w) node ++ stopsOf w behind) := by
    rw [hsplit, stopsOf_append]
    rfl
  have hfresh (w : Wire) : node ∉ stopsOf w before := by
    intro hmem
    obtain ⟨j, hj, -⟩ := mem_stopsOf.1 hmem
    exact lt_irrefl node (hsorted.2.2 _ hj (node, i) (by simp))
  have hi : (node, i) ∈ r.accepted := by simp [hsplit]
  have hnode : r.graph.isOp node = true := h.isOp_iff.2 ⟨i, hi⟩
  rw [mem_opPredecessors_iff]
  constructor
  · rintro ⟨hop, w, he⟩
    obtain ⟨-, u, v, hpart⟩ := mem_pieces_iff.1 ((h.mem_edges_iff hop hnode).1 he)
    simp only at hpart
    have hw : w ∈ i.wires := by
      rw [← List.count_pos_iff, ← count_stopsOf h.pairwise_accepted hi, List.count_pos_iff,
        ← hpart]
      simp
    -- Both lists are what the wire stops at before it stops at the node for the first time.
    have hnot : node ∉ u ++ [p] := by
      have hle := h.pairwise_stopsOf (w := w)
      rw [← hpart, List.append_assoc, List.pairwise_append] at hle
      intro hmem
      rcases List.mem_append.1 hmem with hmem | hmem
      · have hup : node ≤ p := hle.2.2 node hmem p (by simp)
        have hdown : p ≤ node := (List.pairwise_cons.1 hle.2.1).1 node (by simp)
        omega
      · exact hne (List.mem_singleton.1 hmem).symm
    obtain ⟨k, hk⟩ : ∃ k, i.wires.count w = k + 1 :=
      Nat.exists_eq_add_one.2 (List.count_pos_iff.2 hw)
    have heq : u ++ [p] ++ node :: v =
        stopsOf w before ++ node :: (List.replicate k node ++ stopsOf w behind) := by
      rw [← List.cons_append, ← List.replicate_succ, ← hk, ← hstops, ← hpart]
      simp
    refine ⟨w, hw, ?_⟩
    rw [← eq_of_append_cons_eq hnot (hfresh w) heq, List.getLast?_concat]
  · rintro ⟨w, hw, hlast⟩
    obtain ⟨u, hu⟩ := List.getLast?_eq_some_iff.1 hlast
    obtain ⟨j, hj, -⟩ := mem_stopsOf.1 (List.mem_of_getLast? hlast)
    have hop : r.graph.isOp p = true := h.isOp_iff.2 ⟨j, by simp [hsplit, hj]⟩
    obtain ⟨k, hk⟩ : ∃ k, i.wires.count w = k + 1 :=
      Nat.exists_eq_add_one.2 (List.count_pos_iff.2 hw)
    refine ⟨hop, w, (h.mem_edges_iff hop hnode).2 (mem_pieces_iff.2 ⟨rfl, ?_⟩)⟩
    refine ⟨u, List.replicate k node ++ stopsOf w behind, ?_⟩
    simp only [hstops, hu, hk, List.replicate_succ]
    simp

/-- The predecessors of an operation reach as high as its wires. -/
theorem Sound.top_opPredecessors (h : r.Sound)
    (hsplit : r.accepted = before ++ (node, i) :: behind) {s : Levels Nat} {t : Levels Wire}
    (hself : s.level node = 0)
    (hwires : ∀ w, t.level w = ((stopsOf w before).getLast?.map s.level).getD 0) :
    s.top (r.graph.opPredecessors node) = t.top i.wires := by
  apply le_antisymm
  · rw [Levels.top_le_iff]
    intro p hp
    by_cases hne : p = node
    · rw [hne, hself]
      exact Nat.zero_le _
    · obtain ⟨w, hw, hlast⟩ := (h.mem_opPredecessors_iff_getLast? hsplit hne).1 hp
      have hlevel : t.level w = s.level p := by
        rw [hwires, hlast]
        rfl
      exact hlevel ▸ Levels.level_le_top hw
  · rw [Levels.top_le_iff]
    intro w hw
    rw [hwires]
    cases hlast : (stopsOf w before).getLast? with
    | none => exact Nat.zero_le _
    | some p =>
      by_cases hne : p = node
      · simp [hne, hself]
      · exact Levels.level_le_top ((h.mem_opPredecessors_iff_getLast? hsplit hne).2 ⟨w, hw, hlast⟩)

/-- The level of a wire is that of its last stop, and both kinds of levels have one peak. -/
theorem Sound.levelsOf_eq (h : r.Sound) (weight : Instruction → Nat)
    {operations behind : List (Nat × Instruction)} (hsplit : r.accepted = operations ++ behind) :
    (Instruction.scheduled weight (operations.map (·.2))).peak =
        (r.graph.levelsOf weight operations).peak ∧
      ∀ w, (Instruction.scheduled weight (operations.map (·.2))).level w =
        ((stopsOf w operations).getLast?.map
          (r.graph.levelsOf weight operations).level).getD 0 := by
  induction operations using List.reverseRecOn generalizing behind with
  | nil => exact ⟨rfl, fun w => rfl⟩
  | append_singleton operations o ih =>
    obtain ⟨node, i⟩ := o
    rw [List.append_assoc, List.singleton_append] at hsplit
    obtain ⟨hpeak, hlevel⟩ := ih hsplit
    have hfresh (j : Instruction) : (node, j) ∉ operations := by
      have hsorted := h.pairwise_accepted
      rw [hsplit, List.pairwise_append] at hsorted
      intro hmem
      exact lt_irrefl node (hsorted.2.2 _ hmem (node, i) (by simp))
    have hnew : (r.graph.levelsOf weight operations).level node = 0 := level_levelsOf hfresh
    have htop := h.top_opPredecessors hsplit hnew hlevel
    rw [List.map_append, List.map_singleton, Instruction.scheduled_concat, levelsOf_concat]
    simp only [Instruction.schedule, addLevel, htop]
    refine ⟨by simp only [Levels.put, hpeak], fun w => ?_⟩
    have hstops : stopsOf w (operations ++ [(node, i)]) =
        stopsOf w operations ++ List.replicate (i.wires.count w) node := by
      simp [stopsOf]
    rw [hstops]
    by_cases hw : w ∈ i.wires
    · obtain ⟨k, hk⟩ : ∃ k, i.wires.count w = k + 1 :=
        Nat.exists_eq_add_one.2 (List.count_pos_iff.2 hw)
      rw [Levels.level_put_of_mem hw, hk, List.replicate_succ', ← List.append_assoc,
        List.getLast?_concat]
      simp [Levels.level_put_of_mem]
    · rw [Levels.level_put_of_not_mem hw, hlevel, List.count_eq_zero_of_not_mem hw,
        List.replicate_zero, List.append_nil]
      cases hlast : (stopsOf w operations).getLast? with
      | none => rfl
      | some p =>
        obtain ⟨j, hj, -⟩ := mem_stopsOf.1 (List.mem_of_getLast? hlast)
        have hne : p ∉ [node] := by
          intro hmem
          exact hfresh j (List.mem_singleton.1 hmem ▸ hj)
        simp only [Option.map_some, Option.getD_some]
        rw [Levels.level_put_of_not_mem hne]

/-- The highest level of the graph is that of the schedule of its instructions. -/
theorem Sound.peak_levelsOf (h : r.Sound) (weight : Instruction → Nat) :
    (r.graph.levelsOf weight r.accepted).peak =
      (Instruction.scheduled weight (r.accepted.map (·.2))).peak :=
  (h.levelsOf_eq weight (List.append_nil _).symm).1.symm

end Record

/-! ## Depth -/

/-- The layers up to operations are their levels if barriers have no weight. -/
theorem layers_eq (operations : List (Nat × Instruction)) :
    Layers.upTo (operations.foldl d.addLayer []) =
        (d.levelsOf Instruction.layers operations).level ∧
      ((operations.foldl d.addLayer []).map (·.2)).foldl max 0 =
        (d.levelsOf Instruction.layers operations).peak := by
  induction operations using List.reverseRecOn with
  | nil => exact ⟨rfl, rfl⟩
  | append_singleton operations o ih =>
    obtain ⟨hlevel, hpeak⟩ := ih
    rw [List.foldl_concat, levelsOf_concat]
    have hlayer : (if o.2.isBarrier then (d.levelsOf Instruction.layers operations).top
          (d.opPredecessors o.1)
        else (d.levelsOf Instruction.layers operations).top (d.opPredecessors o.1) + 1) =
          (d.levelsOf Instruction.layers operations).top (d.opPredecessors o.1) + o.2.layers := by
      unfold Instruction.layers
      split <;> rfl
    have hstep : d.addLayer (operations.foldl d.addLayer []) o =
        (o.1, (d.levelsOf Instruction.layers operations).top (d.opPredecessors o.1) + o.2.layers)
          :: operations.foldl d.addLayer [] := by
      rw [addLayer, hlevel, ← hlayer]
      rfl
    rw [hstep]
    constructor
    · funext node
      rw [addLevel, Layers.upTo, List.lookup_cons]
      by_cases hne : node = o.1
      · simp [hne, Levels.level_put_of_mem]
      · rw [Levels.level_put_of_not_mem (by simpa using hne), ← hlevel]
        rw [beq_false_of_ne hne]
        rfl
    · rw [List.map_cons, Levels.foldl_max_cons, hpeak]
      rfl

end Dag

namespace Circuit

variable {c : Circuit}

/-- The depth of a circuit is the peak of the schedule in which barriers have no weight. -/
theorem Sound.depth_eq (h : c.Sound) :
    c.depth = (Instruction.scheduled Instruction.layers c.instructions).peak := by
  have hpeak := Dag.Record.Sound.peak_levelsOf h Instruction.layers
  exact (Dag.layers_eq c.dag.ops).2.trans hpeak

end Circuit

end PathSelection
