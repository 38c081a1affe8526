import PathSelection.Proofs.Circuit.Chains

/-!
# Inserted instructions

An instruction puts its wires no lower than they were, and what comes behind it puts wires the
higher the higher they were.  So one more instruction at any place lowers no wire, and with it no
depth.

Main results:

- Theorem `Levels.Below.schedule`: an instruction keeps the order of levels.
- Theorem `Instruction.below_scheduled_insert`: one more instruction at any place lowers no wire.
- Theorem `Circuit.Sound.depth_le_of_insert`: it makes no circuit less deep.
- Theorem `Circuit.Sound.depth_le`: there are no more layers than operations other than barriers.
-/

namespace PathSelection

namespace Levels

variable {κ : Type} {s t : Levels κ} {keys : List κ}

/-- No key is lower, nor is the peak. -/
structure Below (s t : Levels κ) : Prop where
  level : ∀ k, s.level k ≤ t.level k
  peak : s.peak ≤ t.peak

private theorem Below.top_le (h : s.Below t) (keys : List κ) : s.top keys ≤ t.top keys :=
  top_le_iff.2 fun k hk => (h.level k).trans (level_le_top hk)

variable [DecidableEq κ]

/-- Some keys that are put higher come to be higher. -/
theorem Below.put (h : s.Below t) {m n : Nat} (hle : m ≤ n) :
    (s.put keys m).Below (t.put keys n) where
  level := by
    intro k
    by_cases hk : k ∈ keys
    · rwa [level_put_of_mem hk, level_put_of_mem hk]
    · rw [level_put_of_not_mem hk, level_put_of_not_mem hk]
      exact h.level k
  peak := max_le_max h.peak hle

/-- No key is put lower than the highest of them was. -/
theorem below_put {n : Nat} (h : s.top keys ≤ n) : s.Below (s.put keys n) where
  level := by
    intro k
    by_cases hk : k ∈ keys
    · rw [level_put_of_mem hk]
      exact (level_le_top hk).trans h
    · rw [level_put_of_not_mem hk]
  peak := le_max_left _ _

variable {s t : Levels Wire} {weight : Instruction → Nat}

/-- An instruction keeps the order of levels. -/
theorem Below.schedule (h : s.Below t) (i : Instruction) :
    (Instruction.schedule weight s i).Below (Instruction.schedule weight t i) :=
  h.put (Nat.add_le_add_right (h.top_le i.wires) _)

/-- Instructions keep the order of levels. -/
theorem Below.foldl_schedule (h : s.Below t) (is : List Instruction) :
    (is.foldl (Instruction.schedule weight) s).Below
      (is.foldl (Instruction.schedule weight) t) := by
  induction is generalizing s t with
  | nil => exact h
  | cons i is ih => exact ih (h.schedule i)

end Levels

/-- One more instruction at any place lowers no wire. -/
theorem Instruction.below_scheduled_insert (weight : Instruction → Nat)
    (before : List Instruction) (i : Instruction) (behind : List Instruction) :
    (scheduled weight (before ++ behind)).Below (scheduled weight (before ++ i :: behind)) := by
  rw [scheduled, scheduled, List.foldl_append, List.foldl_append, List.foldl_cons]
  exact (Levels.below_put (Nat.le_add_right _ _)).foldl_schedule behind

namespace Circuit

variable {c c' : Circuit}

/-- One more instruction at any place makes no circuit less deep. -/
theorem Sound.depth_le_of_insert (h : c.Sound) (h' : c'.Sound) {before behind : List Instruction}
    {i : Instruction} (hc : c.instructions = before ++ behind)
    (hc' : c'.instructions = before ++ i :: behind) : c.depth ≤ c'.depth := by
  rw [h.depth_eq, h'.depth_eq, hc, hc']
  exact (Instruction.below_scheduled_insert _ before i behind).peak

/-- There are no more layers than operations other than barriers. -/
theorem Sound.depth_le (h : c.Sound) :
    c.depth ≤ c.instructions.countP fun i => !i.isBarrier := by
  obtain ⟨⟨chain, hchain, hdepth⟩, -⟩ := Dag.Record.Sound.isGreatest_depth h
  calc
    c.depth = chain.countP fun o => !o.2.isBarrier := hdepth.symm
    _ ≤ c.dag.ops.countP fun o => !o.2.isBarrier := hchain.sublist.countP_le
    _ = c.instructions.countP fun i => !i.isBarrier := by
      rw [instructions, List.countP_map]
      rfl

end Circuit

end PathSelection
