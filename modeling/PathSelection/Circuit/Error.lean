import PathSelection.Circuit.Gate

/-!
# Problems with circuits

Why an operation cannot join a circuit, or a text is no circuit.
-/

namespace PathSelection

/-- A problem with a circuit. -/
inductive CircuitError where
  | qubitNotFound (qubit : Nat) (gate : Option String)
  | clbitNotFound (clbit : Nat) (gate : Option String)
  | invalidGraph (reason : String)
  | qubitCountMismatch (gate : String) (expected got : Nat)
  | parameterCountMismatch (gate : String) (expected got : Nat)
  | duplicateQubit (qubit : Nat) (gate : Option String)
  /-- a text is no circuit document -/
  | document (cause : Json.DecodeError)

namespace CircuitError

/-- The gate at fault, in brackets. -/
def gateContext : Option String → String
  | some name => s!" (gate: {name})"
  | none => ""

/-- The wording of a problem. -/
def message : CircuitError → String
  | qubitNotFound q gate => s!"Qubit q{q} not found in circuit{gateContext gate}"
  | clbitNotFound c gate => s!"Classical bit c{c} not found in circuit{gateContext gate}"
  | invalidGraph reason => s!"Invalid DAG structure: {reason}"
  | qubitCountMismatch gate expected got =>
    s!"Gate '{gate}' requires {expected} qubits, got {got}"
  | parameterCountMismatch gate expected got =>
    s!"Gate '{gate}' takes {expected} parameters, got {got}"
  | duplicateQubit q gate => s!"Duplicate qubit q{q} in operation{gateContext gate}"
  | document cause => s!"Circuit serialization error: {cause.message}"

end CircuitError

/-- A standard gate with angles, which must be as many as it takes. -/
def Gate.standard (g : StandardGate) (params : List Float) : Except CircuitError Gate :=
  if params.length = g.numParams then .ok ⟨.standard g, params⟩
  else .error (.parameterCountMismatch g.name g.numParams params.length)

end PathSelection
