import Mathlib.Data.List.Nodup
import PathSelection.Device.Topology
import PathSelection.Proofs.Lists

/-!
# Couplers of a coupling map

A coupling map holds its couplers three times: in their order, by their targets and by
their sources.  Every question is answered from one of the three, so the answers fit
together only if all three agree.

- Structure `CouplingMap.Records`: the three agree on the couplers of a history.
- Structure `CouplingMap.Represents`: what follows for the questions.

Main results:

- Theorem `Records.addDirected`: one more coupler keeps them in agreement, also one that
  is there already.
- Theorem `records_after`: so does every sequence of insertions.
- Theorem `represents_after`: what the questions about such a map are answered, and that
  the maps of all layouts are of this kind.
-/

namespace PathSelection

namespace CouplingMap

variable {m : CouplingMap} {history : List (Nat × Nat)}

/-! ## Insertions -/

/-- One insertion into a map. -/
inductive Insertion where
  /-- a coupler from one qubit to another -/
  | directed (a b : Nat)
  /-- a coupler in both directions -/
  | both (a b : Nat)

namespace Insertion

/-- The couplers of an insertion, in the order in which they are added. -/
def couplers : Insertion → List (Nat × Nat)
  | directed a b => [(a, b)]
  | both a b => [(a, b), (b, a)]

/-- The map after an insertion. -/
def into (m : CouplingMap) : Insertion → CouplingMap
  | directed a b => m.addDirected a b
  | both a b => m.addEdge a b

end Insertion

/-- The map after some insertions into the empty one. -/
def after (insertions : List Insertion) : CouplingMap := insertions.foldl Insertion.into empty

/-- Insertions add their couplers one after another. -/
theorem after_eq (insertions : List Insertion) :
    after insertions = ofDirected (insertions.flatMap Insertion.couplers) := by
  unfold after ofDirected
  rw [List.foldl_flatMap]
  congr 1
  funext m insertion
  cases insertion <;> rfl

/-- A map of directed pairs comes from insertions in one direction. -/
theorem ofDirected_eq (pairs : List (Nat × Nat)) :
    ofDirected pairs = after (pairs.map fun (a, b) => .directed a b) := by
  unfold after ofDirected
  rw [List.foldl_map]
  rfl

/-- A symmetric map comes from insertions in both directions. -/
theorem ofUndirected_eq (pairs : List (Nat × Nat)) :
    ofUndirected pairs = after (pairs.map fun (a, b) => .both a b) := by
  unfold after ofUndirected
  rw [List.foldl_map]
  rfl

/-! ## Agreement of the records -/

/-- All records of a map hold the distinct couplers of a history. -/
structure Records (m : CouplingMap) (history : List (Nat × Nat)) : Prop where
  edges : m.edges.toList = history.eraseDups
  contains_iff : ∀ a b, m.contains a b = true ↔ (a, b) ∈ history
  neighbors : ∀ a, m.neighbors a = (history.eraseDups.filter (·.1 = a)).map Prod.snd

/-- The empty map records no couplers. -/
theorem records_empty : empty.Records [] where
  edges := rfl
  contains_iff := fun _ _ => by simp [empty, contains, Partners.of]
  neighbors := fun _ => rfl

/-- A coupler more is held, and no other. -/
theorem contains_addDirected_iff {a b c d : Nat} :
    (m.addDirected a b).contains c d = true ↔ m.contains c d = true ∨ c = a ∧ d = b := by
  by_cases hold : m.contains a b = true
  · rw [addDirected, if_pos hold]
    refine ⟨.inl, ?_⟩
    rintro (h | ⟨rfl, rfl⟩)
    · exact h
    · exact hold
  · rw [addDirected, if_neg hold]
    by_cases hd : d = b
    · subst hd
      simp [contains]
    · simp [contains, Partners.of_add_of_ne hd, hd]

/-- One more coupler keeps the records in agreement. -/
theorem Records.addDirected (h : m.Records history) (a b : Nat) :
    (m.addDirected a b).Records (history ++ [(a, b)]) := by
  have hcontains : ∀ c d, (m.addDirected a b).contains c d = true ↔
      (c, d) ∈ history ++ [(a, b)] := by
    intro c d
    rw [contains_addDirected_iff, h.contains_iff, List.mem_append, List.mem_singleton,
      Prod.mk.injEq]
  by_cases hold : m.contains a b = true
  · have herase := eraseDups_concat_of_mem ((h.contains_iff a b).1 hold)
    have hsame : m.addDirected a b = m := if_pos hold
    refine ⟨?_, hcontains, ?_⟩
    · rw [herase, hsame, h.edges]
    · rw [herase, hsame]
      exact h.neighbors
  · have hnew : (a, b) ∉ history := fun hmem => hold ((h.contains_iff a b).2 hmem)
    rw [Bool.not_eq_true] at hold
    refine ⟨?_, hcontains, fun c => ?_⟩
    · rw [eraseDups_concat_of_not_mem hnew, ← h.edges]
      simp [CouplingMap.addDirected, hold]
    · rw [eraseDups_concat_of_not_mem hnew, List.filter_append, List.map_append, ← h.neighbors]
      by_cases hc : c = a
      · subst hc
        simp [neighbors_addDirected_self hold]
      · simp [neighbors_addDirected_of_ne hc, Ne.symm hc]

/-- A map of directed pairs records them. -/
theorem records_ofDirected (pairs : List (Nat × Nat)) : (ofDirected pairs).Records pairs := by
  induction pairs using List.reverseRecOn with
  | nil => exact records_empty
  | append_singleton pairs pair ih =>
    unfold ofDirected
    rw [List.foldl_append]
    exact ih.addDirected pair.1 pair.2

/-- A map records all couplers that were inserted. -/
theorem records_after (insertions : List Insertion) :
    (after insertions).Records (insertions.flatMap Insertion.couplers) := by
  rw [after_eq]
  exact records_ofDirected _

/-! ## Ascending qubits -/

/-- An item in front of a list is there afterwards, and the others stay. -/
theorem mem_consUnlessSame {a x : Nat} {rest : List Nat} :
    x ∈ consUnlessSame a rest ↔ x = a ∨ x ∈ rest := by
  unfold consUnlessSame
  split
  · rename_i hhead
    have ha := List.mem_of_head? hhead
    exact ⟨.inr, fun h => h.elim (fun hx => hx ▸ ha) id⟩
  · exact List.mem_cons

/-- Without repeats a list has the same items. -/
theorem mem_dropRepeats {xs : List Nat} {x : Nat} : x ∈ dropRepeats xs ↔ x ∈ xs := by
  induction xs with
  | nil => rfl
  | cons a xs ih =>
    change x ∈ consUnlessSame a (dropRepeats xs) ↔ x ∈ a :: xs
    rw [mem_consUnlessSame, ih, List.mem_cons]

/-- An ascending list ascends strictly without the repeats. -/
theorem pairwise_dropRepeats {xs : List Nat} (h : xs.Pairwise (· ≤ ·)) :
    (dropRepeats xs).Pairwise (· < ·) := by
  induction h with
  | nil => exact List.Pairwise.nil
  | @cons a xs hle _ ih =>
    change (consUnlessSame a (dropRepeats xs)).Pairwise (· < ·)
    have hle' : ∀ x ∈ dropRepeats xs, a ≤ x := fun x hx => hle x (mem_dropRepeats.1 hx)
    unfold consUnlessSame
    split
    · exact ih
    · rename_i hhead
      refine List.pairwise_cons.2 ⟨?_, ih⟩
      -- the first one of the others is no repeat, and all others come behind it
      cases hrest : dropRepeats xs with
      | nil => simp
      | cons b rest =>
        rw [hrest] at ih hle' hhead
        have hab : a < b := by
          refine Nat.lt_of_le_of_ne (hle' b List.mem_cons_self) ?_
          rintro rfl
          exact hhead rfl
        intro x hx
        rcases List.mem_cons.1 hx with rfl | hx
        · exact hab
        · exact hab.trans (List.rel_of_pairwise_cons ih hx)

/-- The qubits of a map ascend strictly. -/
theorem pairwise_physicalQubits (m : CouplingMap) : m.physicalQubits.Pairwise (· < ·) := by
  refine pairwise_dropRepeats (List.Pairwise.imp (fun h => of_decide_eq_true h)
    (List.pairwise_mergeSort ?_ ?_ _))
  · intro a b c hab hbc
    exact decide_eq_true ((of_decide_eq_true hab).trans (of_decide_eq_true hbc))
  · intro a b
    rcases Nat.le_total a b with h | h
    · simp [h]
    · simp [h]

/-- The qubits of a map are the ends of its couplers. -/
theorem mem_physicalQubits_iff {q : Nat} :
    q ∈ m.physicalQubits ↔ ∃ e ∈ m.edges, q = e.1 ∨ q = e.2 := by
  unfold physicalQubits
  rw [mem_dropRepeats, List.mem_mergeSort, List.mem_flatMap]
  simp

/-! ## Answers -/

/-- The answers to the questions about a map with the couplers of a history. -/
structure Represents (m : CouplingMap) (history : List (Nat × Nat)) : Prop where
  /-- the distinct couplers in the order of their first insertion -/
  edges : m.edges.toList = history.eraseDups
  nodup_edges : m.edges.toList.Nodup
  contains_iff : ∀ a b, m.contains a b = true ↔ (a, b) ∈ m.edges
  /-- the targets of the couplers from a qubit, in the order of insertion -/
  neighbors : ∀ a, m.neighbors a = (m.edges.toList.filter (·.1 = a)).map Prod.snd
  nodup_neighbors : ∀ a, (m.neighbors a).Nodup
  size : m.size = history.toFinset.card
  ascending_physicalQubits : m.physicalQubits.Pairwise (· < ·)
  mem_physicalQubits_iff : ∀ q, q ∈ m.physicalQubits ↔ ∃ e ∈ m.edges, q = e.1 ∨ q = e.2
  isSymmetric_iff :
    m.isSymmetric = true ↔ ∀ a b, m.contains a b = true → m.contains b a = true

/-- The couplers in their order are those that the map contains. -/
theorem Records.mem_edges_iff (h : m.Records history) {a b : Nat} :
    (a, b) ∈ m.edges ↔ m.contains a b = true := by
  rw [h.contains_iff, ← Array.mem_toList_iff, h.edges, List.mem_eraseDups]

/-- The neighbours of a qubit are the targets of its couplers. -/
theorem Records.mem_neighbors_iff (h : m.Records history) {a b : Nat} :
    b ∈ m.neighbors a ↔ m.contains a b = true := by
  rw [h.neighbors, h.contains_iff]
  simp

/-- Couplers from the same qubit have different targets. -/
theorem Records.nodup_neighbors (h : m.Records history) (a : Nat) : (m.neighbors a).Nodup := by
  rw [h.neighbors]
  refine List.Nodup.map_on ?_ ((nodup_eraseDups history).filter _)
  intro e he e' he' htargets
  have hsource := of_decide_eq_true (List.mem_filter.1 he).2
  have hsource' := of_decide_eq_true (List.mem_filter.1 he').2
  exact Prod.ext (hsource.trans hsource'.symm) htargets

/-- A map is symmetric if it contains every one of its couplers in the other direction too. -/
theorem Records.isSymmetric_iff (h : m.Records history) :
    m.isSymmetric = true ↔ ∀ a b, m.contains a b = true → m.contains b a = true := by
  rw [isSymmetric, Array.all_eq_true_iff_forall_mem]
  constructor
  · intro hall a b hab
    exact hall (a, b) (h.mem_edges_iff.2 hab)
  · intro hall e he
    exact hall e.1 e.2 (h.mem_edges_iff.1 he)

/-- With records in agreement the answers fit together. -/
theorem Records.represents (h : m.Records history) : m.Represents history where
  edges := h.edges
  nodup_edges := by
    rw [h.edges]
    exact nodup_eraseDups history
  contains_iff := fun _ _ => h.mem_edges_iff.symm
  neighbors := by
    rw [h.edges]
    exact h.neighbors
  nodup_neighbors := h.nodup_neighbors
  size := by
    rw [size, ← Array.length_toList, h.edges, length_eraseDups]
  ascending_physicalQubits := pairwise_physicalQubits m
  mem_physicalQubits_iff := fun _ => CouplingMap.mem_physicalQubits_iff
  isSymmetric_iff := h.isSymmetric_iff

/-! ## Symmetric maps -/

/-- A map of pairs records both directions of each of them. -/
theorem records_ofUndirected (pairs : List (Nat × Nat)) :
    (ofUndirected pairs).Records (pairs.flatMap fun (a, b) => [(a, b), (b, a)]) := by
  have h := records_after (pairs.map fun (a, b) => .both a b)
  rwa [List.flatMap_map, ← ofUndirected_eq] at h

/-- An undirected map couples the pairs that it is made of, in both directions. -/
theorem contains_ofUndirected_iff {pairs : List (Nat × Nat)} {a b : Nat} :
    (ofUndirected pairs).contains a b = true ↔ (a, b) ∈ pairs ∨ (b, a) ∈ pairs := by
  rw [(records_ofUndirected pairs).contains_iff, List.mem_flatMap]
  constructor
  · rintro ⟨⟨c, d⟩, hpair, hmem⟩
    simp only [List.mem_cons, List.not_mem_nil, or_false, Prod.mk.injEq] at hmem
    obtain ⟨rfl, rfl⟩ | ⟨rfl, rfl⟩ := hmem
    · exact .inl hpair
    · exact .inr hpair
  · rintro (hpair | hpair)
    · exact ⟨_, hpair, List.mem_cons_self⟩
    · exact ⟨_, hpair, List.mem_cons_of_mem _ List.mem_cons_self⟩

/-- A symmetric map contains both directions of every pair. -/
theorem isSymmetric_ofUndirected (pairs : List (Nat × Nat)) :
    (ofUndirected pairs).isSymmetric = true := by
  rw [(records_ofUndirected pairs).isSymmetric_iff]
  intro a b
  rw [contains_ofUndirected_iff, contains_ofUndirected_iff]
  exact Or.symm

/-- All layouts but the one with directed couplers are symmetric. -/
theorem isSymmetric_couplingMap_iff {t : Topology} :
    t.couplingMap.isSymmetric = true ↔ t ≠ .lucy := by
  cases t with
  | lucy =>
    have h := records_ofDirected lucyPairs
    refine ⟨fun hsymmetric => ?_, fun hne => absurd rfl hne⟩
    have hback := h.isSymmetric_iff.1 hsymmetric 0 1 ((h.contains_iff 0 1).2 (by decide))
    exact absurd ((h.contains_iff 1 0).1 hback) (by decide)
  | full | linear | ringOfRings | aspenM1 | heavyHex27 | heavyHex127 =>
    exact ⟨fun _ => nofun, fun _ => isSymmetric_ofUndirected _⟩

/-- The maps of all layouts come from insertions. -/
theorem exists_couplingMap_eq_after (t : Topology) :
    ∃ insertions, t.couplingMap = after insertions := by
  cases t with
  | lucy => exact ⟨_, ofDirected_eq _⟩
  | _ => exact ⟨_, ofUndirected_eq _⟩

/--
Whatever couplers are inserted into a map, also again, reversed or from a qubit to itself,
the answers to all questions about it fit together.  The maps of pairs and of layouts
come from such insertions.  A map of insertions in both directions is symmetric.
-/
theorem represents_after :
    (∀ insertions, (after insertions).Represents (insertions.flatMap Insertion.couplers)) ∧
    (∀ pairs, ofDirected pairs = after (pairs.map fun (a, b) => .directed a b)) ∧
    (∀ pairs, ofUndirected pairs = after (pairs.map fun (a, b) => .both a b)) ∧
    (∀ t : Topology, ∃ insertions, t.couplingMap = after insertions) ∧
    (∀ pairs, (ofUndirected pairs).isSymmetric = true) ∧
    ∀ t : Topology, t.couplingMap.isSymmetric = true ↔ t ≠ .lucy := by
  refine ⟨fun insertions => ?_, ofDirected_eq, ofUndirected_eq, exists_couplingMap_eq_after,
    isSymmetric_ofUndirected, fun _ => isSymmetric_couplingMap_iff⟩
  exact (records_after insertions).represents

/-- A coupler that was inserted in both directions is not inserted again. -/
example : (after [.both 0 1, .directed 2 2, .both 1 0]).edges = #[(0, 1), (1, 0), (2, 2)] := by
  decide

end CouplingMap

end PathSelection
