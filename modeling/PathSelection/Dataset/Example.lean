import PathSelection.Dataset.Scores
import PathSelection.Error
import PathSelection.Features

/-!
# Training examples

The features of a circuit with the scores of all paths and, as the label, the
place of the best one.
-/

namespace PathSelection

/-- A labelled circuit. -/
structure TrainingExample (α : Type) where
  circuitId : String
  features : FeatureVector α
  /-- the label -/
  bestPath : Nat
  scores : ScoreVector α
  /-- the strategy behind the scores of the paths that can be used -/
  strategy : Option ScoringStrategy

namespace TrainingExample

variable {α : Type} [Scalar α]

/-- The example labelled with the best path, without a strategy. -/
def ofScores (circuitId : String) (features : FeatureVector α) (scores : ScoreVector α) :
    Except SelectionError (TrainingExample α) :=
  match scores.best? with
  | some best => .ok ⟨circuitId, features, best, scores, none⟩
  | none => .error (.allPathsUnavailable circuitId)

/-- Is the label that of the best path? -/
def isConsistent (e : TrainingExample α) : Bool := e.scores.best? == some e.bestPath

/-- The document of an example; a strategy that is absent is left out. -/
def toJson (e : TrainingExample α) : Json :=
  .record ([("circuit_id", .text e.circuitId), ("features", e.features.toJson),
    ("best_path", .nat e.bestPath), ("scores", e.scores.toJson)]
    ++ match e.strategy with
      | some s => [("strategy", s.toJson)]
      | none => [])

/-- Reads an example; its label is taken as it is. -/
def decoder : Json.Decoder (TrainingExample α) :=
  Json.recordOf "TrainingExample"
    (TrainingExample.mk <$> .required "circuit_id" Json.Decoder.text
      <*> .required "features" FeatureVector.decoder
      <*> .required "best_path" Json.Decoder.usize
      <*> .required "scores" ScoreVector.decoder
      <*> .defaulted "strategy" none (Json.Decoder.nullable ScoringStrategy.decoder))

end TrainingExample

end PathSelection
