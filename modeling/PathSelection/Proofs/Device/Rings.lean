import Mathlib.Logic.Relation
import PathSelection.Proofs.Device.Layouts

/-!
# Rings of eight qubits

The qubits of ring `j` are those from `8 * j` on.  Each is coupled with the next one around its
ring, and two with qubits of the ring before.  The links between rings are found from either end:
each qubit has at most one of them, and its place in the ring says how far away the other end is.

- Definition `RingLink`: the couplers that are wanted, each in one direction.

Main results:

- Theorem `contains_ringOfRings_iff`: the layout has these couplers and no others.
- Theorem `RingLink.eq_or_eq_or_eq`: a qubit has at most three neighbours.
- Theorem `reaches_zero`: couplers lead from each qubit to the first one.
- Theorem `ringShape_ringOfRings`: the shape of the layout for every number of rings.
-/

namespace PathSelection

namespace CouplingMap

variable {rings start count ring base a b q : Nat}

/-! ## Links -/

/-- The links between rings.  A ring has two to the one before it, but the first ring of the second
row of ten rings has none; then each ring of the first row has two to the one below it. -/
inductive CrossLink (rings : Nat) : Nat → Nat → Prop
  | outer (ring : Nat) (hpos : 0 < ring) (hring : ring < rings) (hrow : rings = 10 → ring ≠ 5) :
    CrossLink rings (8 * ring - 6) (8 * ring + 5)
  | inner (ring : Nat) (hpos : 0 < ring) (hring : ring < rings) (hrow : rings = 10 → ring ≠ 5) :
    CrossLink rings (8 * ring - 7) (8 * ring + 6)
  | left (ring : Nat) (hten : rings = 10) (hring : ring < 5) :
    CrossLink rings (8 * ring + 3) (8 * ring + 40)
  | right (ring : Nat) (hten : rings = 10) (hring : ring < 5) :
    CrossLink rings (8 * ring + 4) (8 * ring + 47)

/-- The couplers of rings, each in one direction: the cycles of eight qubits and the links between
them. -/
inductive RingLink (rings : Nat) : Nat → Nat → Prop
  | around (ring i : Nat) (hring : ring < rings) (hi : i < 8) :
    RingLink rings (8 * ring + i) (8 * ring + (i + 1) % 8)
  | across {a b : Nat} (h : CrossLink rings a b) : RingLink rings a b

/-- The next qubit around a ring. -/
def nextInRing (q : Nat) : Nat := 8 * (q / 8) + (q + 1) % 8

/-- The qubit before one around a ring. -/
def previousInRing (q : Nat) : Nat := 8 * (q / 8) + (q + 7) % 8

/-- The only qubit of another ring that a qubit can be linked to. -/
def otherEnd (q : Nat) : Nat :=
  match q % 8 with
  | 0 => q - 37
  | 1 => q + 13
  | 2 => q + 11
  | 3 => q + 37
  | 4 => q + 43
  | 5 => q - 11
  | 6 => q - 13
  | _ => q - 43

private theorem RingLink.next (h : q < 8 * rings) : RingLink rings q (nextInRing q) := by
  have hlink : RingLink rings _ _ := .around (q / 8) (q % 8) (by omega) (by omega)
  rwa [Nat.div_add_mod, Nat.mod_add_mod] at hlink

private theorem RingLink.previous (h : q < 8 * rings) : RingLink rings (previousInRing q) q := by
  have hprevious : previousInRing q < 8 * rings := by
    unfold previousInRing
    omega
  have hback : nextInRing (previousInRing q) = q := by
    unfold nextInRing previousInRing
    omega
  have hlink := RingLink.next hprevious
  rwa [hback] at hlink

/-- Each end of a link between rings determines the other. -/
theorem CrossLink.otherEnd_eq (h : CrossLink rings a b) : otherEnd a = b ∧ otherEnd b = a := by
  unfold otherEnd
  cases h with
  | outer ring hpos =>
    have ha : (8 * ring - 6) % 8 = 2 := by omega
    have hb : (8 * ring + 5) % 8 = 5 := by omega
    simp only [ha, hb]
    omega
  | inner ring hpos =>
    have ha : (8 * ring - 7) % 8 = 1 := by omega
    have hb : (8 * ring + 6) % 8 = 6 := by omega
    simp only [ha, hb]
    omega
  | left ring =>
    have ha : (8 * ring + 3) % 8 = 3 := by omega
    have hb : (8 * ring + 40) % 8 = 0 := by omega
    simp only [ha, hb, true_and]
    omega
  | right ring =>
    have ha : (8 * ring + 4) % 8 = 4 := by omega
    have hb : (8 * ring + 47) % 8 = 7 := by omega
    simp only [ha, hb, true_and]
    omega

/-- A qubit is coupled with at most three others. -/
theorem RingLink.eq_or_eq_or_eq (h : RingLink rings q b ∨ RingLink rings b q) :
    b = nextInRing q ∨ b = previousInRing q ∨ b = otherEnd q := by
  obtain h | h := h
  · cases h with
    | around ring i hring hi =>
      unfold nextInRing
      omega
    | across h => exact .inr (.inr h.otherEnd_eq.1.symm)
  · cases h with
    | around ring i hring hi =>
      unfold previousInRing
      omega
    | across h => exact .inr (.inr h.otherEnd_eq.2.symm)

private theorem RingLink.lt (h : RingLink rings a b) : a < 8 * rings ∧ b < 8 * rings := by
  cases h with
  | around => omega
  | across h => cases h <;> omega

/-! ## Pairs -/

private theorem mem_octagonPairs_iff :
    (a, b) ∈ octagonPairs base ↔
      (∃ i < 7, a = base + i ∧ b = base + i + 1) ∨ a = base ∧ b = base + 7 := by
  simp [octagonPairs, eq_comm]

private theorem nodup_octagonPairs (base : Nat) : (octagonPairs base).Nodup := by
  refine (List.nodup_range.map fun i j h => ?_).append (List.nodup_singleton _) ?_
  · exact Nat.add_left_cancel (Prod.mk.inj h).1
  · simp

/-- The pairs of one ring in a row: its cycle and the links to the ring before it. -/
def rowRing (start j : Nat) : List (Nat × Nat) :=
  octagonPairs (start + j * 8) ++ if j = 0 then []
    else [(start + j * 8 - 6, start + j * 8 + 5), (start + j * 8 - 7, start + j * 8 + 6)]

private theorem ringRowPairs_eq (start count : Nat) :
    ringRowPairs start count = (List.range count).flatMap (rowRing start) := rfl

private theorem mem_rowRing_iff {j : Nat} :
    (a, b) ∈ rowRing start j ↔ (a, b) ∈ octagonPairs (start + j * 8) ∨
      j ≠ 0 ∧ (a = start + j * 8 - 6 ∧ b = start + j * 8 + 5 ∨
        a = start + j * 8 - 7 ∧ b = start + j * 8 + 6) := by
  rw [rowRing, List.mem_append]
  refine or_congr_right ?_
  by_cases hj : j = 0 <;> simp [hj]

/-- The second qubit of a pair belongs to the ring of the pair, the first to this ring or to the one
before it. -/
theorem lt_of_mem_rowRing {j : Nat} (h : (a, b) ∈ rowRing start j) :
    start ≤ a ∧ a < b ∧ start + 8 * j < b ∧ b < start + 8 * j + 8 := by
  obtain hmem | ⟨hj, hmem⟩ := mem_rowRing_iff.1 h
  · obtain ⟨i, hi, rfl, rfl⟩ | ⟨rfl, rfl⟩ := mem_octagonPairs_iff.1 hmem <;> omega
  · omega

private theorem nodup_rowRing (start j : Nat) : (rowRing start j).Nodup := by
  refine (nodup_octagonPairs _).append ?_ ?_
  · split
    · exact List.nodup_nil
    · simp
  · rintro ⟨a, b⟩ hcycle hlinks
    split at hlinks
    · simp at hlinks
    · simp only [List.mem_cons, List.not_mem_nil, or_false, Prod.mk.injEq] at hlinks
      obtain ⟨i, hi, rfl, rfl⟩ | ⟨rfl, rfl⟩ := mem_octagonPairs_iff.1 hcycle <;> omega

private theorem length_rowRing (start j : Nat) :
    (rowRing start j).length = if j = 0 then 8 else 10 := by
  unfold rowRing octagonPairs
  split <;> simp

private theorem mem_ringRowPairs_iff :
    (a, b) ∈ ringRowPairs start count ↔ ∃ j < count, (a, b) ∈ rowRing start j := by
  rw [ringRowPairs_eq, List.mem_flatMap]
  simp only [List.mem_range]

private theorem lt_of_mem_ringRowPairs (h : (a, b) ∈ ringRowPairs start count) :
    start ≤ a ∧ a < b ∧ b < start + 8 * count := by
  obtain ⟨j, hj, hmem⟩ := mem_ringRowPairs_iff.1 h
  have hbounds := lt_of_mem_rowRing hmem
  omega

private theorem layout_ringRowPairs (start count : Nat) : Layout (ringRowPairs start count) where
  lt := fun _ hp => (lt_of_mem_ringRowPairs hp).2.1
  nodup := by
    refine List.nodup_flatMap.2 ⟨fun j _ => nodup_rowRing start j, ?_⟩
    refine List.nodup_range.imp fun {i j} hne => ?_
    rintro ⟨a, b⟩ hi hj
    have hbounds := lt_of_mem_rowRing hi
    have hbounds' := lt_of_mem_rowRing hj
    omega

private theorem length_ringRowPairs (start count : Nat) :
    (ringRowPairs start count).length = 8 * count + 2 * (count - 1) := by
  induction count with
  | zero => rfl
  | succ count ih =>
    rw [ringRowPairs_eq] at ih ⊢
    rw [List.range_succ, List.flatMap_append, List.length_append, ih, List.flatMap_singleton,
      length_rowRing]
    split <;> omega

/-- The links between the two rows of ten rings. -/
def rowLinks : List (Nat × Nat) :=
  (List.range 5).flatMap fun n => [(n * 8 + 3, n * 8 + 40), (n * 8 + 4, n * 8 + 47)]

private theorem mem_rowLinks_iff :
    (a, b) ∈ rowLinks ↔ ∃ n < 5, a = 8 * n + 3 ∧ b = 8 * n + 40 ∨ a = 8 * n + 4 ∧ b = 8 * n + 47 := by
  simp only [rowLinks, List.mem_flatMap, List.mem_range, List.mem_cons, List.not_mem_nil, or_false,
    Prod.mk.injEq, Nat.mul_comm _ 8]

private theorem ringOfRingsPairs_ten :
    ringOfRingsPairs 10 = ringRowPairs 0 5 ++ ringRowPairs 40 5 ++ rowLinks := rfl

/-- All rings are built in the same way, but for those of the device with ten. -/
theorem ringOfRingsPairs_of_ne (h : rings ≠ 10) : ringOfRingsPairs rings = ringRowPairs 0 rings :=
  if_neg h

private theorem layout_ringOfRingsPairs (rings : Nat) : Layout (ringOfRingsPairs rings) := by
  by_cases hten : rings = 10
  · subst hten
    have hlinks : Layout rowLinks := ⟨by decide, by decide⟩
    refine ((layout_ringRowPairs 0 5).append (layout_ringRowPairs 40 5) ?_).append hlinks ?_
    · rintro ⟨a, b⟩ hfirst hsecond
      have hbounds := lt_of_mem_ringRowPairs hfirst
      have hbounds' := lt_of_mem_ringRowPairs hsecond
      omega
    · rintro ⟨a, b⟩ hrows hlinks
      obtain ⟨n, hn, hends⟩ := mem_rowLinks_iff.1 hlinks
      obtain hmem | hmem := List.mem_append.1 hrows
      · have hbounds := lt_of_mem_ringRowPairs hmem
        omega
      · have hbounds := lt_of_mem_ringRowPairs hmem
        omega
  · rw [ringOfRingsPairs_of_ne hten]
    exact layout_ringRowPairs 0 rings

private theorem length_ringOfRingsPairs (rings : Nat) :
    (ringOfRingsPairs rings).length = if rings = 10 then 106 else 8 * rings + 2 * (rings - 1) := by
  split
  · subst rings
    rfl
  · rw [ringOfRingsPairs_of_ne ‹_›, length_ringRowPairs]

/-! ## The layout -/

/-- A pair of a ring in a row is a link, if the row starts where a ring does. -/
theorem RingLink.of_mem_rowRing {j : Nat} (ring : Nat) (h : (a, b) ∈ rowRing start j)
    (hstart : start + j * 8 = 8 * ring) (hring : ring < rings)
    (hrow : rings = 10 → ring = 5 → j = 0) : RingLink rings a b ∨ RingLink rings b a := by
  rw [mem_rowRing_iff, mem_octagonPairs_iff, hstart] at h
  obtain (⟨i, hi, rfl, rfl⟩ | ⟨rfl, rfl⟩) | ⟨hj, ⟨rfl, rfl⟩ | ⟨rfl, rfl⟩⟩ := h
  · have hlink := RingLink.around ring i hring (by omega)
    rw [Nat.mod_eq_of_lt (by omega)] at hlink
    exact .inl hlink
  · exact .inr (.around ring 7 hring (by omega))
  · exact .inl (.across (.outer ring (by omega) hring (by omega)))
  · exact .inl (.across (.inner ring (by omega) hring (by omega)))

private theorem RingLink.of_mem_ringOfRingsPairs (h : (a, b) ∈ ringOfRingsPairs rings) :
    RingLink rings a b ∨ RingLink rings b a := by
  by_cases hten : rings = 10
  · subst hten
    rw [ringOfRingsPairs_ten, List.mem_append, List.mem_append] at h
    obtain (h | h) | h := h
    · obtain ⟨j, hj, hmem⟩ := mem_ringRowPairs_iff.1 h
      exact of_mem_rowRing j hmem (by omega) (by omega) (by omega)
    · obtain ⟨j, hj, hmem⟩ := mem_ringRowPairs_iff.1 h
      exact of_mem_rowRing (j + 5) hmem (by omega) (by omega) (by omega)
    · obtain ⟨n, hn, ⟨rfl, rfl⟩ | ⟨rfl, rfl⟩⟩ := mem_rowLinks_iff.1 h
      · exact .inl (.across (.left n rfl hn))
      · exact .inl (.across (.right n rfl hn))
  · rw [ringOfRingsPairs_of_ne hten] at h
    obtain ⟨j, hj, hmem⟩ := mem_ringRowPairs_iff.1 h
    exact of_mem_rowRing j hmem (by omega) hj (by omega)

/-- A pair of some ring is a pair of the layout. -/
theorem mem_ringOfRingsPairs_of_mem_rowRing (hring : ring < rings)
    (h : (a, b) ∈ octagonPairs (8 * ring) ∨ ring ≠ 0 ∧ (rings = 10 → ring ≠ 5) ∧
      (a = 8 * ring - 6 ∧ b = 8 * ring + 5 ∨ a = 8 * ring - 7 ∧ b = 8 * ring + 6)) :
    (a, b) ∈ ringOfRingsPairs rings := by
  by_cases hten : rings = 10
  · subst hten
    rw [ringOfRingsPairs_ten, List.mem_append, List.mem_append, mem_ringRowPairs_iff,
      mem_ringRowPairs_iff]
    rcases Nat.lt_or_ge ring 5 with hrow | hrow
    · refine .inl (.inl ⟨ring, hrow, mem_rowRing_iff.2 ?_⟩)
      rw [show 0 + ring * 8 = 8 * ring by omega]
      exact h.imp_right fun ⟨hpos, _, hends⟩ => ⟨hpos, hends⟩
    · refine .inl (.inr ⟨ring - 5, by omega, mem_rowRing_iff.2 ?_⟩)
      rw [show 40 + (ring - 5) * 8 = 8 * ring by omega]
      exact h.imp_right fun ⟨_, hfirst, hends⟩ => ⟨by have := hfirst rfl; omega, hends⟩
  · rw [ringOfRingsPairs_of_ne hten, mem_ringRowPairs_iff]
    refine ⟨ring, hring, mem_rowRing_iff.2 ?_⟩
    rw [show 0 + ring * 8 = 8 * ring by omega]
    exact h.imp_right fun ⟨hpos, _, hends⟩ => ⟨hpos, hends⟩

private theorem RingLink.mem_ringOfRingsPairs (h : RingLink rings a b) :
    (a, b) ∈ ringOfRingsPairs rings ∨ (b, a) ∈ ringOfRingsPairs rings := by
  cases h with
  | around ring i hring hi =>
    rcases Nat.lt_or_ge i 7 with hlt | hge
    · refine .inl (mem_ringOfRingsPairs_of_mem_rowRing hring (.inl (mem_octagonPairs_iff.2 ?_)))
      exact .inl ⟨i, hlt, rfl, by omega⟩
    · refine .inr (mem_ringOfRingsPairs_of_mem_rowRing hring (.inl (mem_octagonPairs_iff.2 ?_)))
      exact .inr (by omega)
  | across h =>
    refine .inl ?_
    cases h with
    | outer ring hpos hring hrow =>
      exact mem_ringOfRingsPairs_of_mem_rowRing hring (.inr ⟨hpos.ne', hrow, .inl ⟨rfl, rfl⟩⟩)
    | inner ring hpos hring hrow =>
      exact mem_ringOfRingsPairs_of_mem_rowRing hring (.inr ⟨hpos.ne', hrow, .inr ⟨rfl, rfl⟩⟩)
    | left ring hten hring =>
      subst hten
      rw [ringOfRingsPairs_ten, List.mem_append, mem_rowLinks_iff]
      exact .inr ⟨ring, hring, .inl ⟨rfl, rfl⟩⟩
    | right ring hten hring =>
      subst hten
      rw [ringOfRingsPairs_ten, List.mem_append, mem_rowLinks_iff]
      exact .inr ⟨ring, hring, .inr ⟨rfl, rfl⟩⟩

/-- The layout couples the ends of links and nothing else. -/
theorem contains_ringOfRings_iff :
    (Topology.ringOfRings rings).couplingMap.contains a b = true ↔
      RingLink rings a b ∨ RingLink rings b a := by
  rw [Topology.couplingMap, contains_ofUndirected_iff]
  constructor
  · rintro (hmem | hmem)
    · exact RingLink.of_mem_ringOfRingsPairs hmem
    · exact (RingLink.of_mem_ringOfRingsPairs hmem).symm
  · rintro (hlink | hlink)
    · exact hlink.mem_ringOfRingsPairs
    · exact hlink.mem_ringOfRingsPairs.symm

/-- The next qubit and the one before are different neighbours, and there is one more at most. -/
theorem length_neighbors_ringOfRings (hq : q < 8 * rings) :
    ((Topology.ringOfRings rings).couplingMap.neighbors q).length = 2 ∨
      ((Topology.ringOfRings rings).couplingMap.neighbors q).length = 3 := by
  have hrecords : (Topology.ringOfRings rings).couplingMap.Records _ :=
    records_ofUndirected (ringOfRingsPairs rings)
  have hmem (b : Nat) : b ∈ (Topology.ringOfRings rings).couplingMap.neighbors q ↔
      RingLink rings q b ∨ RingLink rings b q := by
    rw [← contains_ringOfRings_iff, hrecords.mem_neighbors_iff]
  have hnodup := hrecords.nodup_neighbors q
  generalize (Topology.ringOfRings rings).couplingMap.neighbors q = neighbors at hmem hnodup ⊢
  have hmost : neighbors ⊆ [nextInRing q, previousInRing q, otherEnd q] := by
    intro b hb
    simpa using RingLink.eq_or_eq_or_eq ((hmem b).1 hb)
  have hleast : [nextInRing q, previousInRing q] ⊆ neighbors := by
    simp only [List.cons_subset, List.nil_subset, and_true, hmem]
    exact ⟨.inl (.next hq), .inr (.previous hq)⟩
  have hdistinct : [nextInRing q, previousInRing q].Nodup := by
    have hne : nextInRing q ≠ previousInRing q := by
      unfold nextInRing previousInRing
      omega
    simpa using hne
  have hle := (List.subperm_of_subset hnodup hmost).length_le
  have hge := (List.subperm_of_subset hdistinct hleast).length_le
  simp only [List.length_cons, List.length_nil] at hle hge
  omega

/-! ## Ways along couplers -/

/-- A way along the couplers of a map. -/
def Reaches (m : CouplingMap) : Nat → Nat → Prop :=
  Relation.ReflTransGen fun a b => m.contains a b = true

private theorem Reaches.symm {pairs : List (Nat × Nat)} (h : (ofUndirected pairs).Reaches a b) :
    (ofUndirected pairs).Reaches b a := by
  have hsymm : Std.Symm fun a b => (ofUndirected pairs).contains a b = true :=
    ⟨(records_ofUndirected pairs).isSymmetric_iff.1 (isSymmetric_ofUndirected pairs)⟩
  exact Relation.ReflTransGen.stdSymm.symm a b h

/-- Couplers lead from each qubit to the first one: back around a ring to where it starts, and from
there over its last two qubits to the ring before, or up to the first row. -/
theorem reaches_zero (hq : q < 8 * rings) :
    (Topology.ringOfRings rings).couplingMap.Reaches q 0 := by
  have hstep {a b : Nat} (h : RingLink rings a b) :
      (Topology.ringOfRings rings).couplingMap.contains b a = true :=
    contains_ringOfRings_iff.2 (.inr h)
  induction q using Nat.strong_induction_on with
  | h q ih =>
    by_cases hplace : q % 8 = 0
    · obtain ⟨ring, rfl⟩ := Nat.dvd_of_mod_eq_zero hplace
      by_cases hfirst : ring = 0
      · subst hfirst
        exact .refl
      have hring : ring < rings := by omega
      by_cases hrow : rings = 10 ∧ ring = 5
      · obtain ⟨rfl, rfl⟩ := hrow
        exact .head (hstep (.across (.left 0 rfl (by omega)))) (ih 3 (by omega) (by omega))
      · have hlast := hstep (.around ring 7 hring (by omega))
        have hbefore := hstep (.around ring 6 hring (by omega))
        have hacross := hstep (.across (.inner ring (by omega) hring (by omega)))
        exact .head hlast (.head hbefore (.head hacross (ih _ (by omega) (by omega))))
    · have hback : previousInRing q = q - 1 := by
        unfold previousInRing
        omega
      have hlink := hstep (.previous hq)
      rw [hback] at hlink
      exact .head hlink (ih (q - 1) (by omega) (by omega))

/-! ## Shape -/

/-- The shape of a map of rings. -/
structure RingShape (m : CouplingMap) (rings : Nat) : Prop where
  physicalQubits : m.physicalQubits = List.range (8 * rings)
  /-- the cycles of eight qubits and the links between them, and nothing else -/
  contains_iff : ∀ a b, m.contains a b = true ↔ RingLink rings a b ∨ RingLink rings b a
  isSymmetric : m.isSymmetric = true
  contains_self : ∀ q, m.contains q q = false
  /-- the neighbours of a qubit are different, and there are two or three of them -/
  neighbors : ∀ q < 8 * rings, (m.neighbors q).Nodup ∧
    (∀ b, b ∈ m.neighbors q ↔ m.contains q b = true) ∧
    ((m.neighbors q).length = 2 ∨ (m.neighbors q).length = 3)
  connected : ∀ a < 8 * rings, ∀ b < 8 * rings, m.Reaches a b
  size : m.size = if rings = 10 then 212 else 2 * (8 * rings + 2 * (rings - 1))

/-- Rings of any number have the shape of a ring of rings. -/
theorem ringShape_ringOfRings (rings : Nat) :
    (Topology.ringOfRings rings).couplingMap.RingShape rings := by
  have hrecords : (Topology.ringOfRings rings).couplingMap.Records _ :=
    records_ofUndirected (ringOfRingsPairs rings)
  have hlayout := layout_ringOfRingsPairs rings
  refine ⟨physicalQubits_eq_range ?_ ?_, fun _ _ => contains_ringOfRings_iff,
    isSymmetric_ofUndirected _, hlayout.contains_self,
    fun q hq => ⟨hrecords.nodup_neighbors q, fun b => hrecords.mem_neighbors_iff,
      length_neighbors_ringOfRings hq⟩,
    fun a ha b hb => (reaches_zero ha).trans (Reaches.symm (reaches_zero hb)), ?_⟩
  · rintro ⟨a, b⟩ he
    obtain hlink | hlink := contains_ringOfRings_iff.1 (hrecords.mem_edges_iff.1 he)
    · exact hlink.lt
    · exact hlink.lt.symm
  · intro q hq
    have hedge := contains_ringOfRings_iff.2 (.inl (RingLink.next hq))
    exact ⟨_, hrecords.mem_edges_iff.2 hedge, .inl rfl⟩
  · rw [Topology.couplingMap, hlayout.size, length_ringOfRingsPairs]
    split <;> rfl

end CouplingMap

end PathSelection
