import PathSelection.Catalog
import PathSelection.Circuit.Basic
import PathSelection.Storage.Basic
import PathSelection.Text.Quoted

/-!
# Compilers

A compiler turns a circuit into one for a device.  It takes some time, may never
come to an end, and may use the storage on its way.  A session is the storage
together with the record of the calls of compilers, and a call with a deadline
has no result after it.

Main results:

- Theorem `CompilerSet.get?_insert`: a registered compiler is found, and no
  other toolchain has a new one.
- Theorem `CompileOutcome.resultBy_prompt`: what comes at once meets every deadline.
-/

namespace PathSelection

/-- What a circuit is compiled for. -/
structure CompileRequest where
  /-- the name of the path -/
  path : String
  /-- the name of the device -/
  device : String
  level : Option Nat
  layout : LayoutStrategy
  deriving DecidableEq, Repr

/-- The request that a path stands for. -/
def CompilationPath.request (p : CompilationPath) : CompileRequest :=
  ⟨p.name, p.device, p.level, p.layout⟩

/-! ## Outcomes and deadlines -/

/-- What becomes of a call of a compiler. -/
inductive CompileOutcome where
  /-- a circuit, or the reason why there is none, after some time -/
  | finished (elapsed : Duration) (result : Except String Circuit)
  /-- the call never ends -/
  | endless

namespace CompileOutcome

/-- Is something that takes so long done by a deadline?  What comes at once always is. -/
def meets (elapsed deadline : Duration) : Bool :=
  elapsed.milliseconds == 0 || decide (elapsed.milliseconds < deadline.milliseconds)

/-- The result for the request of a path, if it meets the deadline, where there is one. -/
def resultBy (path : String) (deadline : Option Duration) :
    CompileOutcome → Except SelectionError Circuit
  | finished elapsed result =>
    match deadline.filter (fun d => !meets elapsed d) with
    | some d => .error (.compilationTimeout path d)
    | none => result.mapError (.compilationFailure path)
  | endless =>
    match deadline with
    | some d => .error (.compilationTimeout path d)
    | none => .error (.compilationFailure path "the call never ends")

/-- What comes at once meets every deadline. -/
theorem resultBy_prompt (path : String) (deadline : Option Duration)
    (result : Except String Circuit) :
    resultBy path deadline (finished ⟨0⟩ result) = result.mapError (.compilationFailure path) := by
  cases deadline <;> simp [resultBy, meets, Option.filter]

end CompileOutcome

/-! ## Compilers -/

/-- A compiler: its outcome for a circuit and a request, and the storage that it leaves. -/
structure Compiler where
  name : String
  compile : Circuit → CompileRequest → Storage → CompileOutcome × Storage

/-- A compiler that does not look at the storage. -/
def Compiler.ofOutcome (name : String)
    (outcome : Circuit → CompileRequest → CompileOutcome) : Compiler :=
  ⟨name, fun circuit request storage => (outcome circuit request, storage)⟩

/-- At most one compiler for each toolchain. -/
structure CompilerSet where
  get? : Toolchain → Option Compiler

namespace CompilerSet

/-- No compilers. -/
def empty : CompilerSet := ⟨fun _ => none⟩

/-- The set with a compiler for a toolchain, in place of an earlier one. -/
def insert (s : CompilerSet) (t : Toolchain) (c : Compiler) : CompilerSet :=
  ⟨fun u => if u = t then some c else s.get? u⟩

/-- A registered compiler is found, and no other toolchain has a new one. -/
theorem get?_insert (s : CompilerSet) (t u : Toolchain) (c : Compiler) :
    (s.insert t c).get? u = if u = t then some c else s.get? u := rfl

/-- Does a toolchain have a compiler? -/
def contains (s : CompilerSet) (t : Toolchain) : Bool := (s.get? t).isSome

/-- The compiler of a toolchain. -/
def get (s : CompilerSet) (t : Toolchain) : Except SelectionError Compiler :=
  match s.get? t with
  | some c => .ok c
  | none => .error (.compilationFailure t.name "no compiler registered for toolchain")

/-- The compiler for a path. -/
def forPath (s : CompilerSet) (p : CompilationPath) : Except SelectionError Compiler :=
  s.get p.toolchain

/-- The compilers of a set in a message, with their toolchains. -/
def text (s : CompilerSet) : String :=
  let entries := [Toolchain.qiskit, .tket].filterMap fun t =>
    (s.get? t).map fun c => quoted (t.name ++ "=" ++ c.name)
  "CompilerSet \x7b compilers: " ++ bracketed entries ++ " \x7d"

end CompilerSet

/-! ## Sessions -/

/-- A call of a compiler. -/
structure CompilerCall where
  compiler : String
  request : CompileRequest
  deriving DecidableEq, Repr

/-- The storage, and the calls of compilers in their order. -/
structure Session where
  storage : Storage
  calls : List CompilerCall

/-- A session in which no compiler has been called. -/
def Session.fresh (storage : Storage) : Session := ⟨storage, []⟩

/-- Work on a session that may fail; a failure keeps what was done before it. -/
abbrev Selecting := EStateM SelectionError Session

/-- Work that does not change the session. -/
def Selecting.ofExcept {β : Type} : Except SelectionError β → Selecting β
  | .ok b => pure b
  | .error e => throw e

/-- What storage has to say. -/
def Selecting.look {β : Type} (f : Storage → Except SelectionError β) : Selecting β := fun s =>
  match f s.storage with
  | .ok b => .ok b s
  | .error e => .error e s

/-- A change of the storage, which is left alone if the change fails. -/
def Selecting.change (f : Storage → Except SelectionError Storage) : Selecting Unit := fun s =>
  match f s.storage with
  | .ok storage => .ok () { s with storage := storage }
  | .error e => .error e s

/-- Calls a compiler under a deadline, if there is one. -/
def Compiler.call (c : Compiler) (deadline : Option Duration) (circuit : Circuit)
    (request : CompileRequest) : Selecting Circuit := fun s =>
  let (outcome, storage) := c.compile circuit request s.storage
  let s := ⟨storage, s.calls ++ [⟨c.name, request⟩]⟩
  match outcome.resultBy request.path deadline with
  | .ok compiled => .ok compiled s
  | .error e => .error e s

end PathSelection
