import Mathlib.Order.Bounds.Basic
import PathSelection.Dataset.Example
import PathSelection.Proofs.Dataset.Scores
import PathSelection.Proofs.Number.Order

/-!
# Labels of examples

The label of an example is the first place whose score is not greater than any other.  Doubles
other than NaN are compared as their values with the two infinities around them, so among such
scores there is a lowest one, and ties go to the place in front.

Main results:

- Theorem `ScoreVector.best?_eq_some_iff`: the best place is the least of the lowest places.
- Theorem `ScoreVector.lowestPlaces_written`: the lowest places of a vector that was written to.
- Theorem `TrainingExample.labels_isLeast`: labels, when there is none, and what they depend on.
-/

namespace PathSelection

/-! ## Doubles in order -/

/-- The value of a double, infinities included. -/
def Float.extended (x : Float) : ExtendedRat := (extended? x).getD ⊤

private theorem lt_iff_extended {x y : Float} (hx : x.isNaN = false) (hy : y.isNaN = false) :
    Scalar.lt x y = true ↔ Float.extended x < Float.extended y := by
  obtain ⟨r, hr⟩ := Option.isSome_iff_exists.1 ((Float.isSome_extended? x).trans (by rw [hx]; rfl))
  obtain ⟨q, hq⟩ := Option.isSome_iff_exists.1 ((Float.isSome_extended? y).trans (by rw [hy]; rfl))
  rw [Float.extended, Float.extended, hr, hq]
  exact lt_of_extended? hr hq

namespace ScoreVector

/-! ## The best place -/

section

variable {α : Type} [Scalar α] {v : ScoreVector α}

/-- The places whose score is not greater than any other. -/
def lowestPlaces (v : ScoreVector α) : Set Nat :=
  {place | ∃ score, v.scores[place]? = some score ∧
    ∀ other ∈ v.scores, Scalar.lt other score = false}

/-- There is no best place exactly if there are no scores. -/
theorem best?_eq_none_iff : v.best? = none ↔ v.scores = [] := by
  rw [best?, Option.map_eq_none_iff]
  constructor
  · intro h
    rcases List.eq_nil_or_concat v.scores with hnil | ⟨scores, s, hscores⟩
    · exact hnil
    · rw [hscores, List.concat_eq_append, List.zipIdx_append, List.foldl_append] at h
      simp only [List.zipIdx_singleton, List.foldl_cons, List.foldl_nil, better] at h
      split at h
      · cases h
      · split at h <;> cases h
  · intro h
    rw [h]
    rfl

end

variable {v : ScoreVector Float} {place size : Nat} {entries : List (Nat × Float)}

private theorem isLeast_of_best? (hnan : ∀ s ∈ v.scores, s.isNaN = false)
    (h : v.best? = some place) :
    IsLeast v.lowestPlaces place := by
  obtain ⟨⟨best, score⟩, hbest, rfl⟩ := Option.map_eq_some_iff.1 h
  have hlt : ∀ x ∈ v.scores, ∀ y ∈ v.scores,
      Scalar.lt x y = true ↔ Float.extended x < Float.extended y :=
    fun x hx y hy => lt_iff_extended (hnan x hx) (hnan y hy)
  have hspec := foldl_better_spec Float.extended v.scores hlt
  rw [hbest] at hspec
  obtain ⟨-, hfirst⟩ := hspec
  obtain ⟨s, hs, hvalue⟩ : ∃ s, v.scores[best]? = some s ∧
      Float.extended s = Float.extended score := by
    simpa using hfirst.here
  have hmem : s ∈ v.scores := List.mem_of_getElem? hs
  constructor
  · refine ⟨s, hs, fun other hother => ?_⟩
    obtain ⟨k, hk⟩ := List.mem_iff_getElem?.1 hother
    have hle := hfirst.lowest k (Float.extended other) (by simp [hk])
    rw [← hvalue] at hle
    exact Bool.eq_false_iff.2 fun hlower => ((hlt other hother s hmem).1 hlower).not_ge hle
  · rintro other ⟨t, ht, hlowest⟩
    by_contra hearlier
    have hless := hfirst.first other (Float.extended t) (not_le.1 hearlier) (by simp [ht])
    rw [← hvalue] at hless
    have hlower := (hlt s hmem t (List.mem_of_getElem? ht)).2 hless
    rw [hlowest s hmem] at hlower
    cases hlower

/-- The best place is the first of the lowest places. -/
theorem best?_eq_some_iff (hnan : ∀ s ∈ v.scores, s.isNaN = false) :
    v.best? = some place ↔ IsLeast v.lowestPlaces place := by
  refine ⟨isLeast_of_best? hnan, fun h => ?_⟩
  cases hbest : v.best? with
  | none =>
    obtain ⟨s, hs, -⟩ := h.1
    simp [best?_eq_none_iff.1 hbest] at hs
  | some best => rw [(isLeast_of_best? hnan hbest).unique h]

/-! ## Written vectors -/

private theorem getElem?_written_eq_some_iff {s : Float} :
    (written size entries).scores[place]? = some s ↔
      place < size ∧ finalScore entries place = s := by
  by_cases hplace : place < size
  · simp [getElem?_written hplace, hplace]
  · rw [List.getElem?_eq_none (by rw [length_scores_written]; omega)]
    simp [hplace]

private theorem mem_scores_written_iff {s : Float} :
    s ∈ (written size entries).scores ↔ ∃ place < size, finalScore entries place = s := by
  simp only [List.mem_iff_getElem?, getElem?_written_eq_some_iff]

/-- The lowest places of a vector that was written to are those of its last scores. -/
theorem lowestPlaces_written :
    (written size entries).lowestPlaces =
      {place | place < size ∧ ∀ other < size,
        Scalar.lt (finalScore entries other) (finalScore entries place) = false} := by
  ext place
  constructor
  · rintro ⟨score, hscore, hlowest⟩
    obtain ⟨hlt, rfl⟩ := getElem?_written_eq_some_iff.1 hscore
    exact ⟨hlt, fun other hother => hlowest _ (mem_scores_written_iff.2 ⟨other, hother, rfl⟩)⟩
  · rintro ⟨hlt, hlowest⟩
    refine ⟨_, getElem?_written hlt, fun s hs => ?_⟩
    obtain ⟨other, hother, rfl⟩ := mem_scores_written_iff.1 hs
    exact hlowest other hother

/-- A vector that was written to is determined by its last scores. -/
theorem written_eq_of_finalScore {others : List (Nat × Float)}
    (h : ∀ place < size, finalScore others place = finalScore entries place) :
    written size others = written size entries := by
  have hscores : (written size others).scores = (written size entries).scores := by
    refine List.ext_getElem? fun place => Option.ext fun s => ?_
    rw [getElem?_written_eq_some_iff, getElem?_written_eq_some_iff]
    exact and_congr_right fun hplace => by rw [h place hplace]
  exact congrArg ScoreVector.mk hscores

end ScoreVector

/-! ## Labels -/

namespace TrainingExample

variable {α : Type} [Scalar α] {circuitId : String} {features : FeatureVector α}
  {v : ScoreVector α}

private theorem ofScores_eq_ok_iff {e : TrainingExample α} :
    ofScores circuitId features v = .ok e ↔
      v.best? = some e.bestPath ∧ e = ⟨circuitId, features, e.bestPath, v, none⟩ := by
  unfold ofScores
  cases v.best? with
  | none => simp
  | some best =>
    constructor
    · intro h
      obtain rfl := Except.ok.inj h
      exact ⟨rfl, rfl⟩
    · rintro ⟨hbest, he⟩
      rw [he, Option.some.inj hbest]

/-- Only without any scores there is no label. -/
theorem ofScores_eq_error_iff {err : SelectionError} :
    ofScores circuitId features v = .error err ↔
      v.scores = [] ∧ err = .allPathsUnavailable circuitId := by
  rw [← ScoreVector.best?_eq_none_iff]
  unfold ofScores
  cases v.best? with
  | none => simp [eq_comm]
  | some best => simp

/-- With a score there is a label. -/
theorem exists_ofScores (h : v.scores ≠ []) : ∃ e, ofScores circuitId features v = .ok e := by
  cases hrun : ofScores circuitId features v with
  | ok e => exact ⟨e, rfl⟩
  | error err => exact absurd (ofScores_eq_error_iff.1 hrun).1 h

/-- A new example is labelled with the best place of its own scores. -/
theorem isConsistent_of_ofScores {e : TrainingExample α}
    (h : ofScores circuitId features v = .ok e) : e.isConsistent = true := by
  obtain ⟨hbest, he⟩ := ofScores_eq_ok_iff.1 h
  have hscores : e.scores = v := by rw [he]
  rw [isConsistent, hscores, hbest]
  exact beq_self_eq_true _

open ScoreVector in
/-- Labels are the first of the lowest scores.  A vector of doubles without NaN has no best place
exactly if it is empty, and otherwise the best place is the least place whose score is not greater
than any other.  An example is labelled with it, is consistent, and is refused exactly if the vector
is empty.  A vector of unavailable paths to which scores are written at any places, also the same
one twice or one beyond the end, keeps its size, and each place holds what was last written to it
or else the sentinel.  If these scores are not NaN, the best place is the first of the lowest of
them; in any case the example is the same for all writes that lead to the same scores. -/
theorem labels_isLeast :
    (∀ v : ScoreVector Float, (∀ s ∈ v.scores, s.isNaN = false) →
      (v.best? = none ↔ v.scores = []) ∧
      (∀ place, v.best? = some place ↔ IsLeast v.lowestPlaces place) ∧
      ∀ circuitId features,
        (v.scores ≠ [] → ∃ e, ofScores circuitId features v = .ok e) ∧
        (∀ e, ofScores circuitId features v = .ok e ↔
          IsLeast v.lowestPlaces e.bestPath ∧
            e = ⟨circuitId, features, e.bestPath, v, none⟩) ∧
        (∀ e, ofScores circuitId features v = .ok e → e.isConsistent = true) ∧
        ∀ err, ofScores circuitId features v = .error err ↔
          v.scores = [] ∧ err = .allPathsUnavailable circuitId) ∧
    ∀ (size : Nat) (entries : List (Nat × Float)),
      (written size entries).size = size ∧
      (∀ place < size,
        (written size entries).scores[place]? = some (finalScore entries place)) ∧
      ((∀ place < size, (finalScore entries place).isNaN = false) →
        ∀ place, (written size entries).best? = some place ↔
          IsLeast {i | i < size ∧ ∀ j < size,
            Scalar.lt (finalScore entries j) (finalScore entries i) = false} place) ∧
      ∀ others, (∀ place < size, finalScore others place = finalScore entries place) →
        ∀ circuitId features, ofScores circuitId features (written size others) =
          ofScores circuitId features (written size entries) := by
  constructor
  · intro v hnan
    refine ⟨best?_eq_none_iff, fun place => best?_eq_some_iff hnan, fun circuitId features =>
      ⟨exists_ofScores, fun e => ?_, fun e => isConsistent_of_ofScores,
        fun err => ofScores_eq_error_iff⟩⟩
    rw [ofScores_eq_ok_iff, best?_eq_some_iff hnan]
  · intro size entries
    refine ⟨length_scores_written, fun place => getElem?_written, fun hnan place => ?_,
      fun others hsame circuitId features => by rw [written_eq_of_finalScore hsame]⟩
    rw [← lowestPlaces_written]
    refine best?_eq_some_iff fun s hs => ?_
    obtain ⟨other, hother, rfl⟩ := mem_scores_written_iff.1 hs
    exact hnan other hother

open ScoreVector in
/-- Of two lowest scores behind an infinite one the first is the label.  Written to four times, once
beyond the end and twice at one place, a vector holds what two writes leave as well. -/
theorem labels_isLeast_ties :
    let v : ScoreVector Float := ⟨[1 / 0, 1.5, 1.5, 4]⟩
    let writes : List (Nat × Float) := [(2, 1.5), (7, 0), (1, 4), (1, 1.5)]
    (∀ s ∈ v.scores, s.isNaN = false) ∧ IsLeast v.lowestPlaces 1 ∧
      (∀ features err, ofScores "pair" features v ≠ .error err) ∧
      (written 3 writes).scores[0]? = some sentinelPenalty ∧
      (∀ place < 3, (finalScore writes place).isNaN = false) ∧
      IsLeast {i | i < 3 ∧ ∀ j < 3,
        Scalar.lt (finalScore writes j) (finalScore writes i) = false} 1 ∧
      ∀ features, ofScores "pair" features (written 3 [(1, 1.5), (2, 1.5)]) =
        ofScores "pair" features (written 3 writes) := by
  intro v writes
  have hnan : ∀ s ∈ v.scores, s.isNaN = false := by decide +kernel
  have hfinal : ∀ place < 3, (finalScore writes place).isNaN = false := by decide +kernel
  have hbest : v.best? = some 1 := by decide +kernel
  obtain ⟨-, hiff, hlabels⟩ := labels_isLeast.1 v hnan
  obtain ⟨-, hheld, hfirst, hothers⟩ := labels_isLeast.2 3 writes
  refine ⟨hnan, (hiff 1).1 hbest, fun features err herr => ?_, hheld 0 (by decide), hfinal,
    (hfirst hfinal 1).1 (by decide +kernel), hothers _ ?_ "pair"⟩
  · obtain ⟨-, -, -, hrefused⟩ := hlabels "pair" features
    exact List.cons_ne_nil _ _ ((hrefused err).1 herr).1
  · intro place hplace
    match place, hplace with
    | 0, _ | 1, _ | 2, _ => rfl

end TrainingExample

end PathSelection
