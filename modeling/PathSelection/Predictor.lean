import PathSelection.Compiler.Basic
import PathSelection.Model.Artifacts

/-!
# Predictors

A predictor chooses the path for a circuit by a stored model and compiles along
it.  It reads the model when it first needs it and holds it from then on; only a
successful reload replaces the model that is held.
-/

namespace PathSelection

/-- What a predictor works with. -/
structure Predictor where
  /-- the directory of the model -/
  directory : String
  compilers : CompilerSet
  deadline : Option Duration

/-- A session and the model that a predictor holds. -/
structure PredictorState (α : Type) where
  session : Session
  model : Option (Model α)

/-- Work of a predictor. -/
abbrev Predicting (α : Type) := EStateM SelectionError (PredictorState α)

namespace PredictorState

variable {α : Type}

/-- A predictor that holds no model. -/
def unloaded (session : Session) : PredictorState α := ⟨session, none⟩

/-- Is a model held? -/
def isLoaded (s : PredictorState α) : Bool := s.model.isSome

end PredictorState

/-- Work on the session of a predictor. -/
def Selecting.predicting {α β : Type} (work : Selecting β) : Predicting α β := fun s =>
  match work s.session with
  | .ok b session => .ok b { s with session := session }
  | .error e session => .error e { s with session := session }

namespace Predictor

variable {α : Type} [Scalar α]

/-- Reads the stored model and holds it. -/
def install (p : Predictor) : Predicting α (Model α) := fun s =>
  match Model.load s.session.storage p.directory with
  | .ok m => .ok m { s with model := some m }
  | .error e => .error e s

/-- The model that is held, or else the stored one. -/
def load (p : Predictor) : Predicting α (Model α) := fun s =>
  match s.model with
  | some m => .ok m s
  | none => p.install s

/-- Holds the stored model instead of the one that is held. -/
def reload (p : Predictor) : Predicting α Unit := do
  let _ ← p.install

/-- The path for a circuit. -/
def predict (p : Predictor) (circuit : Circuit) : Predicting α CompilationPath := do
  let m ← p.load
  let label ← (Selecting.ofExcept (m.predict (.ofCircuit circuit))).predicting
  (Selecting.ofExcept (CompilationPath.ofIndex label)).predicting

/-- Compiles a circuit along the path with a label. -/
def dispatch (p : Predictor) (circuit : Circuit) (index : Nat) : Selecting Circuit := do
  let path ← .ofExcept (CompilationPath.ofIndex index)
  let compiler ← .ofExcept (p.compilers.forPath path)
  compiler.call p.deadline circuit path.request

/-- Compiles a circuit along the path for it. -/
def compileBest (p : Predictor) (circuit : Circuit) :
    Predicting α (CompilationPath × Circuit) := do
  let path ← p.predict circuit
  let compiled ← (p.dispatch circuit path.index).predicting
  return (path, compiled)

end Predictor

end PathSelection
