import PathSelection.Calibration.Csv
import PathSelection.Device.Error
import PathSelection.Dict
import PathSelection.Number.Literal
import PathSelection.Text.Blank
import PathSelection.Text.Lines

/-!
# Tables of error rates

A calibration export with one row for each qubit: the error of its readout, of
two native gates on it, and of the two-qubit gates that it takes part in.  The
other two native gates are changes of frame and always succeed.
-/

namespace PathSelection

/-- Error rates by qubit and by ordered pair of qubits. -/
structure IbmTable (α : Type) where
  readout : Dict Nat α
  sx : Dict Nat α
  x : Dict Nat α
  cx : Dict (Nat × Nat) α

namespace IbmTable

variable {α : Type} [Scalar α]

/-- The table without entries. -/
def empty : IbmTable α := ⟨[], [], [], []⟩

/-! ## Reading an export -/

/-- The columns of an export that are read, counted from zero. -/
def readoutColumn : Nat := 5
/-- The column of the error of the square root of X. -/
def sxColumn : Nat := 10
/-- The column of the error of X. -/
def xColumn : Nat := 11
/-- The column of the errors of controlled X. -/
def cxColumn : Nat := 12

/-- A text without any number of copies of another at its front. -/
def dropRepeated (front : List Char) : (steps : Nat) → List Char → List Char
  | 0, cs => cs
  | steps + 1, cs =>
    if !front.isEmpty && front.isPrefixOf cs then dropRepeated front steps (cs.drop front.length)
    else cs

/-- The two parts of a text around the first occurrence of a character. -/
def splitAtFirst (sep : Char) (cs : List Char) : Option (List Char × List Char) :=
  match cs.span (· != sep) with
  | (_, []) => none
  | (before, _ :: after) => some (before, after)

/-- The qubit of a row: a number, with letters `Q` in front of it or not. -/
def qubitOf? (row : List (List Char)) : Option Nat := do
  let field ← row.head?
  let name := trimChars field
  unsignedOfChars? (wordValues 32) (dropRepeated ['Q'] name.length name)

/-- An entry such as `3_5:0.0123`: a pair of qubits and an error rate. -/
def cxErrorOf? (entry : List Char) : Option ((Nat × Nat) × α) := do
  let (pair, error) ← splitAtFirst ':' entry
  let pair := trimChars pair
  let (a, b) ← splitAtFirst '_' (dropRepeated ['c', 'x'] pair.length pair)
  let a ← unsignedOfChars? (wordValues 32) a
  let b ← unsignedOfChars? (wordValues 32) b
  let error ← scalarOfChars? (trimChars error)
  return ((a, b), error)

/-- The number in a column; a column that is absent or blank has none. -/
def numberIn (row : List (List Char)) (column : Nat) : Except String (Option α) :=
  match row[column]? with
  | none => .ok none
  | some field =>
    let text := trimChars field
    if text.isEmpty then .ok none
    else match scalarOfChars? text with
      | some x => .ok (some x)
      | none => .error s!"column {column}: not a number: '{String.ofList text}'"

/-- A dictionary with another value, if there is one. -/
def putSome {ν : Type} (d : Dict Nat ν) (q : Nat) : Option ν → Dict Nat ν
  | some v => d.put q v
  | none => d

/-- The errors of controlled X in a row. -/
def cxEntries (row : List (List Char)) : Except String (List ((Nat × Nat) × α)) :=
  let entries := (splitOnChar ';' (row[cxColumn]?.getD [])).map trimChars
  (entries.filter (!·.isEmpty)).mapM fun entry =>
    match cxErrorOf? entry with
    | some e => .ok e
    | none => .error s!"malformed CNOT entry '{String.ofList entry}'"

/-- The table with the entries of one more row. -/
def addRow (t : IbmTable α) (row : List (List Char)) : Except String (IbmTable α) := do
  let q ← match qubitOf? row with
    | some q => .ok q
    | none => .error "missing qubit index"
  let readout ← numberIn row readoutColumn
  let sx ← numberIn row sxColumn
  let x ← numberIn row xColumn
  let cx ← cxEntries row
  return {
    readout := putSome t.readout q readout
    sx := putSome t.sx q sx
    x := putSome t.x q x
    cx := cx.foldl (fun d (pair, error) => d.put pair error) t.cx }

/-- The table with the entries of one more line; a blank line has none. -/
def addLine (t : IbmTable α) (entry : List Char × Nat) : Except CalibrationFault (IbmTable α) :=
  let (line, index) := entry
  if (trimChars line).isEmpty then .ok t
  else match t.addRow (Csv.readRow line) with
    | .ok t => .ok t
    | .error message => .error (.rule s!"line {index + 1}: {message}")

/-- The table of an export, whose first line names the columns. -/
def ofText (text : String) : Except CalibrationFault (IbmTable α) :=
  ((linesOf text.toList).zipIdx.drop 1).foldlM addLine empty

/-! ## Looking up -/

/-- The entry that an error says is missing. -/
def missing {β : Type} (entry : String) : Except DeviceError β := .error (.missingEntry entry)

/-- The probability that something does not go wrong. -/
def success (error : α) : α := Scalar.one - error

/-- A list of qubits in a message. -/
def qubitList (qubits : List Nat) : String :=
  "[" ++ ", ".intercalate (qubits.map fun q => toString q) ++ "]"

/-- The fidelity of a gate on the first qubit. -/
def single (d : Dict Nat α) (gate : String) (qubits : List Nat) : Except DeviceError α :=
  match qubits.head?.bind d.get? with
  | some error => .ok (success error)
  | none => missing s!"{gate} on {qubitList qubits}"

/-- The fidelity of a gate on qubits; for a pair, in either order. -/
def gateFidelity (t : IbmTable α) (gate : String) (qubits : List Nat) : Except DeviceError α :=
  if gate = "rz" ∨ gate = "id" then .ok Scalar.one
  else if gate = "sx" then single t.sx gate qubits
  else if gate = "x" then single t.x gate qubits
  else if gate = "cx" then
    match qubits with
    | [a, b] =>
      match (t.cx.get? (a, b)).or (t.cx.get? (b, a)) with
      | some error => .ok (success error)
      | none => missing s!"cx on ({a}, {b})"
    | _ => missing s!"cx on {qubitList qubits}"
  else missing s!"{gate} is not calibrated on IBM devices"

/-- The fidelity of the readout of a qubit. -/
def readoutFidelity (t : IbmTable α) (qubit : Nat) : Except DeviceError α :=
  match t.readout.get? qubit with
  | some error => .ok (success error)
  | none => missing s!"readout of qubit {qubit}"

/-- The fidelities of all gates on one qubit and of all on two. -/
def fidelities (t : IbmTable α) : List α × List α :=
  (t.sx.values.map success, t.cx.values.map success)

/-! ## Ranges -/

/-- An error rate lies in `[0, 1]`. -/
def isErrorRate (e : α) : Bool := Scalar.le Scalar.zero e && Scalar.le e Scalar.one

/-- The first value that is out of range. -/
def fault? (t : IbmTable α) : Option String :=
  let single (what : String) (d : Dict Nat α) : Option String :=
    d.findSome? fun (q, e) =>
      if isErrorRate e then none
      else some s!"{what} of qubit {q} is {Scalar.text e}, outside [0, 1]"
  ((single "readout error" t.readout).or (single "sx error" t.sx)).or
    ((single "x error" t.x).or
      (t.cx.findSome? fun ((a, b), e) =>
        if isErrorRate e then none
        else some s!"cx error of ({a}, {b}) is {Scalar.text e}, outside [0, 1]"))

end IbmTable

end PathSelection
