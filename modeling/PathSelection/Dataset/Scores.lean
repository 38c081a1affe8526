import PathSelection.Scoring.Score

/-!
# Score vectors

One score for each path, of which a lower one is better.  The entry of a path
that cannot be used is the sentinel; no entry is absent.

Main results:

- Theorem `ScoreVector.size_set`: writing an entry keeps the size.
- Theorem `ScoreVector.size_unavailable`: a vector of unavailable paths has the size asked for.
-/

namespace PathSelection

/-- The scores of all paths in the order of the catalog. -/
structure ScoreVector (α : Type) where
  scores : List α

namespace ScoreVector

variable {α : Type} [Scalar α]

/-- The scores of a number of paths that cannot be used. -/
def unavailable (size : Nat) : ScoreVector α := ⟨List.replicate size sentinelPenalty⟩

/-- The scores with another one at a place; a place beyond the end is left out. -/
def set (v : ScoreVector α) (place : Nat) (score : α) : ScoreVector α := ⟨v.scores.set place score⟩

omit [Scalar α] in
/-- The number of scores. -/
def size (v : ScoreVector α) : Nat := v.scores.length

omit [Scalar α] in
/-- Are there no scores? -/
def isEmpty (v : ScoreVector α) : Bool := v.scores.isEmpty

/-- The number of scores below the sentinel. -/
def availableCount (v : ScoreVector α) : Nat :=
  v.scores.countP fun s => Scalar.lt s sentinelPenalty

/-- The better one of two places with their scores: the later one only if its score is lower. -/
def better (best : Option (Nat × α)) (entry : α × Nat) : Option (Nat × α) :=
  match best with
  | none => some (entry.2, entry.1)
  | some (place, score) =>
    if Scalar.lt entry.1 score then some (entry.2, entry.1) else some (place, score)

/-- The place of the lowest score, the first one of several. -/
def best? (v : ScoreVector α) : Option Nat := (v.scores.zipIdx.foldl better none).map (·.1)

/-- The document of a score vector. -/
def toJson (v : ScoreVector α) : Json := .list .scalar v.scores

/-- Reads a score vector. -/
def decoder : Json.Decoder (ScoreVector α) := fun v =>
  (Json.Decoder.listOf Json.Decoder.number v).map ScoreVector.mk

omit [Scalar α] in
/-- Writing an entry keeps the size. -/
@[simp]
theorem size_set (v : ScoreVector α) (place : Nat) (score : α) :
    (v.set place score).size = v.size := by
  simp [size, set]

/-- A vector of unavailable paths has the size asked for. -/
@[simp]
theorem size_unavailable (n : Nat) : (unavailable n : ScoreVector α).size = n := by
  simp [size, unavailable]

end ScoreVector

end PathSelection
