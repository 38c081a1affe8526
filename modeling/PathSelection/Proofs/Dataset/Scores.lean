import Mathlib.Data.List.Induction
import PathSelection.Dataset.Scores
import PathSelection.Proofs.Calibration.Range

/-!
# Best places and available paths

The label of a score vector is its first lowest place, in whichever order the scores are
compared.  Writing scores to places that hold the sentinel makes as many paths available as
there are written scores below it.

Main results:

- Theorem `ScoreVector.foldl_better_spec`: the best place of scores that are compared by keys.
- Theorem `ScoreVector.isFirstLowest_of_best?`: the best place of a vector, read exactly.
- Theorem `ScoreVector.availableCount_written`: how many paths of a written vector are available.
- Theorem `ScoreVector.best?_written_mem_iff`: when the best place of a written vector is one that
  was written to.
-/

namespace PathSelection.ScoreVector

/-! ## The best place -/

section

variable {β : Type} [LinearOrder β]

/-- A place and its score, below which no other score lies and which no earlier one has. -/
structure IsFirstLowest (scores : List β) (place : Nat) (score : β) : Prop where
  here : scores[place]? = some score
  lowest : ∀ (other : Nat) (s : β), scores[other]? = some s → score ≤ s
  first : ∀ (earlier : Nat) (s : β), earlier < place → scores[earlier]? = some s → score < s

variable {scores : List β} {place : Nat} {score s t : β}

omit [LinearOrder β] in
private theorem getElem?_concat_eq_some (h : (scores ++ [s])[place]? = some t) :
    scores[place]? = some t ∨ (place = scores.length ∧ s = t) := by
  rcases Nat.lt_trichotomy place scores.length with hlt | rfl | hgt
  · left
    rwa [List.getElem?_append_left hlt] at h
  · right
    simpa using h
  · have hlength : (scores ++ [s]).length ≤ place := by
      rw [List.length_append, List.length_singleton]
      omega
    simp [List.getElem?_eq_none hlength] at h

/-- A lower score at the end is the first lowest one. -/
theorem IsFirstLowest.of_lower
    (h : ∀ (other : Nat) (t : β), scores[other]? = some t → s < t) :
    IsFirstLowest (scores ++ [s]) scores.length s where
  here := by simp
  lowest := by
    intro other t ht
    rcases getElem?_concat_eq_some ht with ht | ⟨_, rfl⟩
    · exact (h other t ht).le
    · exact le_rfl
  first := by
    intro earlier t hearlier ht
    rcases getElem?_concat_eq_some ht with ht | ⟨rfl, _⟩
    · exact h earlier t ht
    · exact absurd hearlier (lt_irrefl _)

/-- The first lowest score stays so if no lower one comes behind it. -/
theorem IsFirstLowest.concat (h : IsFirstLowest scores place score) (hle : score ≤ s) :
    IsFirstLowest (scores ++ [s]) place score := by
  have hplace : place < scores.length := (List.getElem?_eq_some_iff.1 h.here).1
  refine ⟨?_, ?_, ?_⟩
  · rw [List.getElem?_append_left hplace]
    exact h.here
  · intro other t ht
    rcases getElem?_concat_eq_some ht with ht | ⟨_, rfl⟩
    · exact h.lowest other t ht
    · exact hle
  · intro earlier t hearlier ht
    rcases getElem?_concat_eq_some ht with ht | ⟨rfl, _⟩
    · exact h.first earlier t hearlier ht
    · omega

/-- Where scores are compared by keys, the best place is the first lowest key.  Only the scores of
an empty vector have none. -/
theorem foldl_better_spec {α : Type} [Scalar α] (key : α → β) (scores : List α)
    (hkey : ∀ x ∈ scores, ∀ y ∈ scores, Scalar.lt x y = true ↔ key x < key y) :
    match scores.zipIdx.foldl better none with
    | none => scores = []
    | some (place, score) => score ∈ scores ∧ IsFirstLowest (scores.map key) place (key score) := by
  induction scores using List.reverseRecOn with
  | nil => rfl
  | append_singleton scores s ih =>
    have hrest := ih fun x hx y hy =>
      hkey x (List.mem_append_left _ hx) y (List.mem_append_left _ hy)
    rw [List.zipIdx_append, List.foldl_append, List.map_append, List.map_singleton]
    simp only [List.zipIdx_singleton, Nat.zero_add, List.foldl_cons, List.foldl_nil]
    have hlast : s ∈ scores ++ [s] := List.mem_append_right _ List.mem_cons_self
    have hlower (h : ∀ (other : Nat) (t : β), (scores.map key)[other]? = some t → key s < t) :
        IsFirstLowest (scores.map key ++ [key s]) scores.length (key s) := by
      simpa using IsFirstLowest.of_lower h
    cases hbest : scores.zipIdx.foldl better none with
    | none =>
      obtain rfl : scores = [] := by simpa [hbest] using hrest
      exact ⟨hlast, hlower fun other t ht => by simp at ht⟩
    | some best =>
      rcases best with ⟨place, score⟩
      rw [hbest] at hrest
      rcases hrest with ⟨hmem, hfirst⟩
      have hiff := hkey s hlast score (List.mem_append_left _ hmem)
      -- Only a strictly lower score takes the place, so the earlier of two equals is kept.
      by_cases hlt : key s < key score
      · simp only [better, hiff.2 hlt, if_true]
        exact ⟨hlast, hlower fun other t ht => hlt.trans_le (hfirst.lowest other t ht)⟩
      · simp only [better, mt hiff.1 hlt]
        exact ⟨List.mem_append_left _ hmem, hfirst.concat (not_lt.1 hlt)⟩

end

/-- The best place of a vector is its first lowest one. -/
theorem isFirstLowest_of_best? {v : ScoreVector Rat} {place : Nat} (h : v.best? = some place) :
    ∃ score, IsFirstLowest v.scores place score := by
  rcases Option.map_eq_some_iff.1 h with ⟨⟨best, score⟩, hbest, rfl⟩
  have hspec := foldl_better_spec id v.scores fun x _ y _ => Scalar.lt_rat
  rw [hbest, List.map_id] at hspec
  exact ⟨score, hspec.2⟩

/-! ## Written vectors -/

section

variable {α : Type} [Scalar α] {size place : Nat} {score : α} {entries : List (Nat × α)}

/-- A vector of sentinels to which scores are written, each to its place. -/
def written (size : Nat) (entries : List (Nat × α)) : ScoreVector α :=
  entries.foldl (fun v entry => v.set entry.1 entry.2) (unavailable size)

private theorem written_concat (entry : Nat × α) :
    written size (entries ++ [entry]) = (written size entries).set entry.1 entry.2 := by
  simp [written]

/-- Writing scores leaves the number of scores as it is. -/
theorem length_scores_written : (written size entries).scores.length = size := by
  induction entries using List.reverseRecOn with
  | nil => exact size_unavailable size
  | append_singleton entries entry ih =>
    rw [written_concat]
    exact (size_set _ _ _).trans ih

/-- The score that was last written to a place, or else the sentinel. -/
def finalScore (entries : List (Nat × α)) (place : Nat) : α :=
  (entries.reverse.lookup place).getD sentinelPenalty

private theorem finalScore_concat_self (score : α) :
    finalScore (entries ++ [(place, score)]) place = score := by
  simp [finalScore]

private theorem finalScore_concat_of_ne {entry : Nat × α} (h : entry.1 ≠ place) :
    finalScore (entries ++ [entry]) place = finalScore entries place := by
  rcases entry with ⟨other, score⟩
  simp [finalScore, List.lookup_cons, beq_false_of_ne h.symm]

/-- A place holds what was last written to it. -/
theorem getElem?_written (hplace : place < size) :
    (written size entries).scores[place]? = some (finalScore entries place) := by
  induction entries using List.reverseRecOn with
  | nil => simp [written, unavailable, finalScore, hplace]
  | append_singleton entries entry ih =>
    rcases entry with ⟨other, score⟩
    rw [written_concat, set]
    by_cases h : other = place
    · subst h
      rw [List.getElem?_set_self (by rwa [length_scores_written]), finalScore_concat_self]
    · rw [List.getElem?_set_ne h, ih, finalScore_concat_of_ne h]

/-- A place to which nothing is written holds the sentinel. -/
theorem getElem?_written_of_not_mem (h : place ∉ entries.map (·.1)) (hplace : place < size) :
    (written size entries).scores[place]? = some sentinelPenalty := by
  have hnone : entries.reverse.lookup place = none := by
    rw [List.lookup_eq_none_iff]
    intro entry hentry
    have hne : place ≠ entry.1 := by
      rintro rfl
      exact h (List.mem_map_of_mem (List.mem_reverse.1 hentry))
    simpa using hne
  rw [getElem?_written hplace, finalScore, hnone, Option.getD_none]

/-- A place holds what is written to it, if nothing else is. -/
theorem getElem?_written_of_mem (hnodup : (entries.map (·.1)).Nodup)
    (h : (place, score) ∈ entries) (hplace : place < size) :
    (written size entries).scores[place]? = some score := by
  induction entries using List.reverseRecOn with
  | nil => simp at h
  | append_singleton entries entry ih =>
    rw [List.map_append, List.nodup_append] at hnodup
    rcases hnodup with ⟨hentries, _, hdisjoint⟩
    rw [written_concat, set]
    rcases List.mem_append.1 h with h | h
    · have hne : entry.1 ≠ place :=
        (hdisjoint place (List.mem_map.2 ⟨_, h, rfl⟩) entry.1 (by simp)).symm
      rw [List.getElem?_set_ne hne]
      exact ih hentries h
    · obtain rfl := List.mem_singleton.1 h
      rw [List.getElem?_set_self]
      rwa [length_scores_written]

end

variable {size place : Nat} {entries : List (Nat × Rat)}

/-- As many paths are available as scores below the sentinel are written. -/
theorem availableCount_written (hnodup : (entries.map (·.1)).Nodup)
    (hplaces : ∀ entry ∈ entries, entry.1 < size) :
    (written size entries).availableCount =
      entries.countP fun entry => Scalar.lt entry.2 sentinelPenalty := by
  induction entries using List.reverseRecOn with
  | nil =>
    have hnone : Scalar.lt (sentinelPenalty : Rat) sentinelPenalty = false := by decide
    simp [written, unavailable, availableCount, List.countP_replicate, hnone]
  | append_singleton entries entry ih =>
    rw [List.map_append, List.nodup_append] at hnodup
    rcases hnodup with ⟨hentries, _, hdisjoint⟩
    have hcount := ih hentries fun e he => hplaces e (by simp [he])
    have hplace : entry.1 < size := hplaces entry (by simp)
    have hlength : entry.1 < (written size entries).scores.length := by
      rwa [length_scores_written]
    -- The place was not written before, so no available path is lost there.
    have hnew : entry.1 ∉ entries.map (·.1) := fun hmem =>
      hdisjoint entry.1 hmem entry.1 (by simp) rfl
    have hold : (written size entries).scores[entry.1] = sentinelPenalty :=
      (List.getElem?_eq_some_iff.1 (getElem?_written_of_not_mem hnew hplace)).2
    have hnone : Scalar.lt (sentinelPenalty : Rat) sentinelPenalty = false := by decide
    unfold availableCount at hcount ⊢
    rw [written_concat, set, List.countP_set hlength, hold, hnone, hcount, List.countP_append,
      List.countP_singleton]
    simp

/-- The best place is one that was written to exactly if some written score is not beaten by the
sentinels that are left: it is below them, or as high and in front of them all. -/
theorem best?_written_mem_iff (hnodup : (entries.map (·.1)).Nodup)
    (hplaces : ∀ entry ∈ entries, entry.1 < size)
    (h : (written size entries).best? = some place) :
    place ∈ entries.map (·.1) ↔
      ∃ entry ∈ entries, ∀ other < size, other ∉ entries.map (·.1) →
        entry.2 < sentinelPenalty ∨ (entry.2 = sentinelPenalty ∧ entry.1 < other) := by
  rcases isFirstLowest_of_best? h with ⟨score, hhere, hlowest, hfirst⟩
  have hplace : place < size := by
    have hlength := (List.getElem?_eq_some_iff.1 hhere).1
    rwa [length_scores_written] at hlength
  constructor
  · intro hmem
    rcases List.mem_map.1 hmem with ⟨entry, hentry, rfl⟩
    refine ⟨entry, hentry, fun other hother hleft => ?_⟩
    have hscore : entry.2 = score := by
      have hwritten := getElem?_written_of_mem hnodup hentry hplace
      rw [hhere] at hwritten
      exact (Option.some.inj hwritten).symm
    have hsentinel := getElem?_written_of_not_mem hleft hother
    rcases (hlowest other _ hsentinel).lt_or_eq with hlt | heq
    · exact .inl (hscore ▸ hlt)
    · refine .inr ⟨hscore.trans heq, ?_⟩
      rcases Nat.lt_trichotomy other entry.1 with hbefore | rfl | hbehind
      · exact absurd heq (hfirst other _ hbefore hsentinel).ne
      · exact absurd hmem hleft
      · exact hbehind
  · rintro ⟨entry, hentry, hbeats⟩
    by_contra hleft
    have hwritten := getElem?_written_of_mem hnodup hentry (hplaces entry hentry)
    have hsentinel : score = sentinelPenalty := by
      have heq := getElem?_written_of_not_mem hleft hplace
      rw [hhere] at heq
      exact Option.some.inj heq
    rcases hbeats place hplace hleft with hlt | ⟨heq, hbefore⟩
    · exact absurd (hlowest entry.1 _ hwritten) (hsentinel ▸ hlt).not_ge
    · exact absurd (hfirst entry.1 _ hbefore hwritten) (by simp [hsentinel, heq])

end PathSelection.ScoreVector
