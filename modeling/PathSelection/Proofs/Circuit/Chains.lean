import Mathlib.Order.Bounds.Basic
import PathSelection.Proofs.Circuit.Levels

/-!
# Chains of dependent operations

A chain picks some operations in their order such that each shares a bit with the next.
The levels of wires are the weights of such chains: a wire is as high as the heaviest
chain that ends on it.  So the depth, which is found from the nodes just before each
operation, is the weight of the heaviest of all chains if barriers have no weight.

The induction is on the operations.  A chain either leaves the last operation out or ends
in it, and then what stands before is a chain that ends on one of its wires.

Main results:

- Theorem `dependencyChain_concat_iff`: the chains of one more operation.
- Theorem `scheduled_isGreatest`: levels of wires are weights of heaviest chains.
- Theorem `Record.Sound.isGreatest_depth`: the depth is the greatest number of operations other
  than barriers on a chain.
-/

namespace PathSelection

namespace Instruction

variable {i j : Instruction}

/-- Two instructions share a qubit or a classical bit. -/
def Meets (i j : Instruction) : Prop :=
  (∃ q ∈ i.qubits, q ∈ j.qubits) ∨ ∃ b ∈ i.clbits, b ∈ j.clbits

/-- Instructions meet if they share a wire. -/
theorem meets_iff : i.Meets j ↔ ∃ w ∈ i.wires, w ∈ j.wires := by
  simp only [Meets, wires, List.mem_append, List.mem_map]
  constructor
  · rintro (⟨q, hi, hj⟩ | ⟨b, hi, hj⟩)
    · exact ⟨.qubit q, .inl ⟨q, hi, rfl⟩, .inl ⟨q, hj, rfl⟩⟩
    · exact ⟨.clbit b, .inr ⟨b, hi, rfl⟩, .inr ⟨b, hj, rfl⟩⟩
  · rintro ⟨_, ⟨q, hi, rfl⟩ | ⟨b, hi, rfl⟩, hj⟩
    · exact .inl ⟨q, hi, by simpa using hj⟩
    · exact .inr ⟨b, hi, by simpa using hj⟩

end Instruction

/-- The highest level of some keys is that of one of them, if it is not the bottom. -/
theorem Levels.top_eq_zero_or {κ : Type} (s : Levels κ) (keys : List κ) :
    s.top keys = 0 ∨ ∃ k ∈ keys, s.level k = s.top keys := by
  induction keys with
  | nil => exact .inl rfl
  | cons k keys ih =>
    have htop : s.top (k :: keys) = max (s.top keys) (s.level k) := foldl_max_cons _ _
    rcases le_total (s.top keys) (s.level k) with hle | hle
    · exact .inr ⟨k, List.mem_cons_self, by rw [htop, max_eq_right hle]⟩
    · rw [htop, max_eq_left hle]
      exact ih.imp_right fun ⟨k', hmem, hk'⟩ => ⟨k', List.mem_cons_of_mem k hmem, hk'⟩

namespace Dag

/-! ## Chains -/

/-- Some operations in their order, each of which shares a bit with the next. -/
structure DependencyChain (operations chain : List (Nat × Instruction)) : Prop where
  sublist : chain.Sublist operations
  meets : chain.IsChain fun a b => a.2.Meets b.2

/-- The last operation of a chain, if it has one, shares a bit with an instruction. -/
def LeadsTo (i : Instruction) (chain : List (Nat × Instruction)) : Prop :=
  ∀ o ∈ chain.getLast?, o.2.Meets i

/-- The last operation of a chain, if it has one, is on a wire. -/
def EndsOn (w : Wire) (chain : List (Nat × Instruction)) : Prop :=
  ∀ o ∈ chain.getLast?, w ∈ o.2.wires

/-- The chains that end in one more operation. -/
def chainsTo (operations : List (Nat × Instruction)) (o : Nat × Instruction) :
    Set (List (Nat × Instruction)) :=
  {chain | ∃ front, DependencyChain operations front ∧ LeadsTo o.2 front ∧ front ++ [o] = chain}

/-- The weight of the operations of a chain. -/
def weightOf (weight : Instruction → Nat) (chain : List (Nat × Instruction)) : Nat :=
  (chain.map fun o => weight o.2).sum

/-- The weights of the chains with a property. -/
def chainWeights (weight : Instruction → Nat) (operations : List (Nat × Instruction))
    (P : List (Nat × Instruction) → Prop) : Set Nat :=
  {n | ∃ chain, DependencyChain operations chain ∧ P chain ∧ weightOf weight chain = n}

variable {operations chain front : List (Nat × Instruction)} {o : Nat × Instruction} {w : Wire}
  {i : Instruction} {weight : Instruction → Nat}

/-- No operation at all is a chain. -/
theorem DependencyChain.nil : DependencyChain operations [] := ⟨List.nil_sublist _, .nil⟩

/-- A chain of some operations is one of more operations. -/
theorem DependencyChain.of_append (h : DependencyChain operations chain)
    (others : List (Nat × Instruction)) : DependencyChain (operations ++ others) chain :=
  ⟨List.sublist_append_of_sublist_left h.sublist, h.meets⟩

/-- A chain goes on with an operation if its last one, if there is any, leads there. -/
theorem isChain_concat_iff :
    (front ++ [o]).IsChain (fun a b => a.2.Meets b.2) ↔
      front.IsChain (fun a b => a.2.Meets b.2) ∧ LeadsTo o.2 front := by
  simp [List.isChain_append, LeadsTo]

/-- A chain of one more operation ends in it or does without it. -/
theorem dependencyChain_concat_iff :
    DependencyChain (operations ++ [o]) chain ↔
      DependencyChain operations chain ∨ chain ∈ chainsTo operations o := by
  constructor
  · rintro ⟨hsublist, hmeets⟩
    obtain ⟨front, last, rfl, hfront, hlast⟩ := List.sublist_append_iff.1 hsublist
    rcases List.sublist_singleton.1 hlast with rfl | rfl
    · rw [List.append_nil] at hmeets ⊢
      exact .inl ⟨hfront, hmeets⟩
    · obtain ⟨hmeets, hleads⟩ := isChain_concat_iff.1 hmeets
      exact .inr ⟨front, ⟨hfront, hmeets⟩, hleads, rfl⟩
  · rintro (h | ⟨front, hfront, hleads, rfl⟩)
    · exact h.of_append [o]
    · exact ⟨hfront.sublist.append (.refl [o]), isChain_concat_iff.2 ⟨hfront.meets, hleads⟩⟩

private theorem weightOf_concat :
    weightOf weight (front ++ [o]) = weightOf weight front + weight o.2 := by
  simp [weightOf]

/-- A chain that ends on a wire leads to every instruction on that wire. -/
theorem EndsOn.leadsTo (h : EndsOn w chain) (hw : w ∈ i.wires) : LeadsTo i chain :=
  fun o ho => Instruction.meets_iff.2 ⟨w, h o ho, hw⟩

private theorem endsOn_concat_iff : EndsOn w (front ++ [o]) ↔ w ∈ o.2.wires := by
  simp [EndsOn]

/-! ## Heaviest chains -/

/-- The wires of an instruction reach as high as the heaviest chain that leads to it. -/
theorem top_isGreatest {s : Levels Wire}
    (h : ∀ w, IsGreatest (chainWeights weight operations (EndsOn w)) (s.level w)) :
    IsGreatest (chainWeights weight operations (LeadsTo i)) (s.top i.wires) := by
  constructor
  · rcases s.top_eq_zero_or i.wires with hzero | ⟨w, hw, htop⟩
    · exact ⟨[], .nil, by simp [LeadsTo], hzero.symm⟩
    · obtain ⟨chain, hchain, hends, hweight⟩ := (h w).1
      exact ⟨chain, hchain, hends.leadsTo hw, hweight.trans htop⟩
  · rintro n ⟨chain, hchain, hleads, rfl⟩
    cases hlast : chain.getLast? with
    | none =>
      rw [List.getLast?_eq_none_iff.1 hlast]
      exact Nat.zero_le _
    | some o =>
      obtain ⟨w, hw, hi⟩ := Instruction.meets_iff.1 (hleads o hlast)
      have hends : EndsOn w chain := by simpa [EndsOn, hlast] using hw
      exact ((h w).2 ⟨chain, hchain, hends, rfl⟩).trans (Levels.level_le_top hi)

/-- The heaviest chain that ends in one more operation has its weight on top of the heaviest chain
that leads to it. -/
theorem concat_isGreatest {n : Nat}
    (h : IsGreatest (chainWeights weight operations (LeadsTo o.2)) n) :
    IsGreatest (weightOf weight '' chainsTo operations o) (n + weight o.2) := by
  constructor
  · obtain ⟨front, hfront, hleads, rfl⟩ := h.1
    exact ⟨front ++ [o], ⟨front, hfront, hleads, rfl⟩, weightOf_concat⟩
  · rintro _ ⟨_, ⟨front, hfront, hleads, rfl⟩, rfl⟩
    rw [weightOf_concat]
    exact Nat.add_le_add_right (h.2 ⟨front, hfront, hleads, rfl⟩) _

/-- All chains that end on a wire of one more operation lead to it, so on that wire the heaviest
chain ends in it. -/
theorem endsOn_isGreatest_of_mem {n : Nat} (hw : w ∈ o.2.wires)
    (h : IsGreatest (chainWeights weight operations (LeadsTo o.2)) n) :
    IsGreatest (chainWeights weight (operations ++ [o]) (EndsOn w)) (n + weight o.2) := by
  obtain ⟨⟨_, ⟨front, hfront, hleads, rfl⟩, hweight⟩, hlast⟩ := concat_isGreatest h
  refine ⟨⟨front ++ [o], dependencyChain_concat_iff.2 (.inr ⟨front, hfront, hleads, rfl⟩),
    endsOn_concat_iff.2 hw, hweight⟩, ?_⟩
  rintro _ ⟨chain, hchain, hends, rfl⟩
  rcases dependencyChain_concat_iff.1 hchain with hold | hnew
  · exact (h.2 ⟨chain, hold, hends.leadsTo hw, rfl⟩).trans (Nat.le_add_right _ _)
  · exact hlast ⟨chain, hnew, rfl⟩

/-- No new chain ends on a wire that one more operation is not on. -/
theorem endsOn_isGreatest_of_not_mem {n : Nat} (hw : w ∉ o.2.wires)
    (h : IsGreatest (chainWeights weight operations (EndsOn w)) n) :
    IsGreatest (chainWeights weight (operations ++ [o]) (EndsOn w)) n := by
  obtain ⟨⟨chain, hchain, hends, hweight⟩, hmax⟩ := h
  refine ⟨⟨chain, hchain.of_append [o], hends, hweight⟩, ?_⟩
  rintro _ ⟨other, hother, hends, rfl⟩
  rcases dependencyChain_concat_iff.1 hother with hold | ⟨front, -, -, rfl⟩
  · exact hmax ⟨other, hold, hends, rfl⟩
  · exact absurd (endsOn_concat_iff.1 hends) hw

/-- The heaviest chain of one more operation is the heaviest one before or ends in it. -/
theorem max_isGreatest {m n : Nat}
    (hall : IsGreatest (chainWeights weight operations fun _ => True) m)
    (h : IsGreatest (chainWeights weight operations (LeadsTo o.2)) n) :
    IsGreatest (chainWeights weight (operations ++ [o]) fun _ => True)
      (max m (n + weight o.2)) := by
  obtain ⟨⟨chain, hchain, -, hweight⟩, hmax⟩ := hall
  obtain ⟨⟨_, ⟨front, hfront, hleads, rfl⟩, hnew⟩, hlast⟩ := concat_isGreatest h
  constructor
  · rcases le_total m (n + weight o.2) with hle | hle
    · rw [max_eq_right hle]
      exact ⟨front ++ [o], dependencyChain_concat_iff.2 (.inr ⟨front, hfront, hleads, rfl⟩),
        trivial, hnew⟩
    · rw [max_eq_left hle]
      exact ⟨chain, hchain.of_append [o], trivial, hweight⟩
  · rintro _ ⟨other, hother, -, rfl⟩
    rcases dependencyChain_concat_iff.1 hother with hold | hends
    · exact (hmax ⟨other, hold, trivial, rfl⟩).trans (le_max_left _ _)
    · exact (hlast ⟨other, hends, rfl⟩).trans (le_max_right _ _)

/-- Without operations there is only the chain of none. -/
theorem nil_isGreatest {P : List (Nat × Instruction) → Prop} (hP : P []) :
    IsGreatest (chainWeights weight [] P) 0 := by
  refine ⟨⟨[], .nil, hP, rfl⟩, ?_⟩
  rintro n ⟨chain, hchain, -, rfl⟩
  rw [List.sublist_nil.1 hchain.sublist]
  exact le_rfl

/-- The level of a wire is the weight of the heaviest chain that ends on it, and the peak is that of
the heaviest chain. -/
theorem scheduled_isGreatest (weight : Instruction → Nat)
    (operations : List (Nat × Instruction)) :
    (∀ w, IsGreatest (chainWeights weight operations (EndsOn w))
        ((Instruction.scheduled weight (operations.map (·.2))).level w)) ∧
      IsGreatest (chainWeights weight operations fun _ => True)
        (Instruction.scheduled weight (operations.map (·.2))).peak := by
  induction operations using List.reverseRecOn with
  | nil => exact ⟨fun w => nil_isGreatest (by simp [EndsOn]), nil_isGreatest trivial⟩
  | append_singleton operations o ih =>
    obtain ⟨hlevel, hpeak⟩ := ih
    have hleads := top_isGreatest (i := o.2) hlevel
    rw [List.map_append, List.map_singleton, Instruction.scheduled_concat, Instruction.schedule]
    refine ⟨fun w => ?_, max_isGreatest hpeak hleads⟩
    by_cases hw : w ∈ o.2.wires
    · rw [Levels.level_put_of_mem hw]
      exact endsOn_isGreatest_of_mem hw hleads
    · rw [Levels.level_put_of_not_mem hw]
      exact endsOn_isGreatest_of_not_mem hw (hlevel w)

/-! ## Depth -/

/-- If barriers have no weight, a chain weighs as much as it has other operations. -/
theorem weightOf_layers (chain : List (Nat × Instruction)) :
    weightOf Instruction.layers chain = chain.countP fun o => !o.2.isBarrier := by
  induction chain with
  | nil => rfl
  | cons o chain ih =>
    have hcons : weightOf Instruction.layers (o :: chain) =
        o.2.layers + weightOf Instruction.layers chain := by simp [weightOf]
    rw [hcons, ih, List.countP_cons, Instruction.layers, Nat.add_comm]
    cases o.2.isBarrier <;> rfl

namespace Record

variable {r : Record}

private theorem Sound.depth_eq (h : r.Sound) :
    r.graph.depth = (Instruction.scheduled Instruction.layers (r.accepted.map (·.2))).peak := by
  rw [← h.peak_levelsOf, ← h.ops]
  exact (layers_eq r.graph.ops).2

/-- The depth is the greatest number of operations other than barriers on a chain. -/
theorem Sound.isGreatest_depth (h : r.Sound) :
    IsGreatest {n | ∃ chain, DependencyChain r.accepted chain ∧
      (chain.countP fun o => !o.2.isBarrier) = n} r.graph.depth := by
  have hpeak := (scheduled_isGreatest Instruction.layers r.accepted).2
  rw [← h.depth_eq] at hpeak
  simpa only [chainWeights, true_and, weightOf_layers] using hpeak

/-- There is no layer exactly if all operations are barriers. -/
theorem Sound.depth_eq_zero_iff (h : r.Sound) :
    r.graph.depth = 0 ↔ ∀ o ∈ r.accepted, o.2.isBarrier = true := by
  obtain ⟨⟨chain, hchain, hcount⟩, hmax⟩ := h.isGreatest_depth
  constructor
  · intro hzero o ho
    have hone : DependencyChain r.accepted [o] := ⟨List.singleton_sublist.2 ho, .singleton o⟩
    have hle := hmax ⟨[o], hone, rfl⟩
    simpa [hzero] using hle
  · intro hall
    rw [← hcount, List.countP_eq_zero]
    intro o ho
    simpa using hall o (hchain.sublist.subset ho)

/-- After any requests the depth of a graph is the greatest number of operations other than barriers
on a chain of accepted operations, each of which shares a bit with the next.  It is zero
exactly if there are no such operations. -/
theorem depth_isGreatest (requests : List Request) :
    let r := after requests
    IsGreatest {n | ∃ chain, DependencyChain r.accepted chain ∧
        (chain.countP fun o => !o.2.isBarrier) = n} r.graph.depth ∧
      (r.graph.depth = 0 ↔ ∀ o ∈ r.accepted, o.2.isBarrier = true) :=
  ⟨(sound_after requests).isGreatest_depth, (sound_after requests).depth_eq_zero_iff⟩

end Record

end Dag

end PathSelection
