import PathSelection.Config.Environment

/-!
# Arguments

What the arguments of the program ask for: options with and without values, in
any of their spellings, and an action with options and operands of its own.

Main result:

- Theorem `readArguments_operand`: in front of an action, the first operand ends
  the reading.
-/

namespace PathSelection.CommandLine

/-- Why arguments ask for nothing that can be run. -/
inductive Stop where
  /-- the arguments are wrong -/
  | usage
  | version
  | help
  deriving DecidableEq, Repr

/-! ## Options -/

/-- An option. -/
structure OptionForm where
  name : String
  letter : Option Char
  /-- the test of its value; without it the option has none -/
  accepts : Option (String → Bool)

/-- Options, operands and arguments that were not looked at. -/
structure Reading where
  /-- the names of the options, with their values, in order -/
  options : List (String × String)
  operands : List String
  rest : List String
  deriving DecidableEq, Repr

namespace Reading

/-- Nothing read. -/
def empty : Reading := ⟨[], [], []⟩

/-- The value of an option. -/
def value? (r : Reading) (name : String) : Option String := r.options.lookup name

/-- The reading with one more option; one with a value may stand only once. -/
def push (r : Reading) (o : OptionForm) (value : String) : Except Stop Reading :=
  match o.accepts with
  | none => .ok { r with options := r.options ++ [(o.name, value)] }
  | some accepts =>
    if (r.value? o.name).isSome || !accepts value then .error .usage
    else .ok { r with options := r.options ++ [(o.name, value)] }

end Reading

/-- What an argument means if it is no operand. -/
inductive OptionStep where
  /-- it is read in full -/
  | done (r : Reading)
  /-- the next argument is the value of an option -/
  | wants (o : OptionForm) (r : Reading)

/-- Options that the program answers at once. -/
def stopOf? (isTop : Bool) (name : String) : Option Stop :=
  if name = "help" then some .help
  else if name = "version" ∧ isTop then some .version
  else none

/-- Reads an option by its name, with the value behind an equals sign, if there is one. -/
def readLong (forms : List OptionForm) (isTop : Bool) (r : Reading) (text : List Char) :
    Except Stop OptionStep := do
  let name := String.ofList (text.takeWhile (· != '='))
  let attached := (text.dropWhile (· != '=')).tail?
  match forms.find? (·.name == name) with
  | none =>
    match stopOf? isTop name, attached with
    | some stop, none => throw stop
    | _, _ => throw .usage
  | some o =>
    match o.accepts, attached with
    | none, none => return .done (← r.push o "")
    | none, some _ => throw .usage
    | some _, some value => return .done (← r.push o (String.ofList value))
    | some _, none => return .wants o r

/-- Reads options by their letters, the last of which may have its value attached. -/
def readShort (forms : List OptionForm) (isTop : Bool) :
    Reading → List Char → Except Stop OptionStep
  | r, [] => return .done r
  | r, c :: cs =>
    match forms.find? (·.letter == some c) with
    | none => throw (if c = 'h' then .help else if c = 'V' ∧ isTop then .version else .usage)
    | some o =>
      match o.accepts, cs with
      | none, cs => do readShort forms isTop (← r.push o "") cs
      | some _, [] => return .wants o r
      | some _, '=' :: value | some _, value => do
        return .done (← r.push o (String.ofList value))

/-- Is an argument an option, or the sign behind which there are none? -/
def isOption (a : String) : Bool := a.startsWith "-" && a != "-"

/-- Reads an argument that is an option. -/
def readOption (forms : List OptionForm) (isTop : Bool) (r : Reading) (a : String) :
    Except Stop OptionStep :=
  match a.toList with
  | '-' :: '-' :: text => readLong forms isTop r text
  | '-' :: text => readShort forms isTop r text
  | _ => .error .usage

/-- Reads arguments; the first operand ends the reading if that is wanted. -/
def readArguments (forms : List OptionForm) (isTop : Bool) :
    Reading → List String → Except Stop Reading
  | r, [] => .ok r
  | r, a :: rest =>
    if a = "--" then .ok { r with operands := r.operands ++ rest }
    else if isOption a then
      match readOption forms isTop r a with
      | .error stop => .error stop
      | .ok (.done r) => readArguments forms isTop r rest
      | .ok (.wants o r) =>
        match rest with
        | [] => .error .usage
        | value :: rest =>
          if isOption value then .error .usage
          else match r.push o value with
            | .ok r => readArguments forms isTop r rest
            | .error stop => .error stop
    else if isTop then .ok { r with rest := a :: rest }
    else readArguments forms isTop { r with operands := r.operands ++ [a] } rest

/-- At the top the first operand ends the reading. -/
theorem readArguments_operand (forms : List OptionForm) (r : Reading) {a : String}
    (rest : List String) (h : isOption a = false) (hne : a ≠ "--") :
    readArguments forms true r (a :: rest) = .ok { r with rest := a :: rest } := by
  simp [readArguments, h, hne]

/-! ## Invocations -/

/-- What the program is to do. -/
inductive Action where
  | generate
  | predict (circuit : String) (compileTo : Option String)
  | paths
  | backends
  deriving DecidableEq, Repr

/-- What the arguments ask for. -/
structure Invocation where
  /-- the configuration file -/
  config : Option String
  flags : ConfigLayer
  action : Action
  deriving DecidableEq, Repr

/-- Is a text a path name? -/
def isPath (text : String) : Bool := text != ""

/-- The options that may stand everywhere. -/
def sharedForms : List OptionForm := [⟨"verbose", some 'v', none⟩, ⟨"config", none, some isPath⟩]

/-- The options in front of an action. -/
def topForms : List OptionForm := sharedForms ++ [
  ⟨"path", some 'p', some isPath⟩,
  ⟨"timeout", some 't', some fun text => (ConfigLayer.secondsOf? text).isSome⟩,
  ⟨"compiled-dir", none, some isPath⟩,
  ⟨"calibration-dir", none, some isPath⟩,
  ⟨"output", some 'o', some isPath⟩,
  ⟨"scoring", none, some fun text => (ConfigLayer.scoringOf? text).isSome⟩]

/-- The options of a prediction. -/
def predictForms : List OptionForm := sharedForms ++ [
  ⟨"model-dir", none, some isPath⟩, ⟨"compile-to", none, some isPath⟩]

/-- The layer of a configuration that options in front of an action make. -/
def flagsOf (r : Reading) : ConfigLayer where
  corpus := r.value? "path"
  timeout := (r.value? "timeout").bind ConfigLayer.secondsOf?
  compiled := r.value? "compiled-dir"
  calibration := r.value? "calibration-dir"
  dataset := r.value? "output"
  scoring := (r.value? "scoring").bind ConfigLayer.scoringOf?

/-- What an action with its arguments asks for, given the options in front of it. -/
def actionOf (top : Reading) (name : String) (args : List String) : Except Stop Invocation := do
  let config (r : Reading) : Option String := (r.value? "config").or (top.value? "config")
  let listing (action : Action) : Except Stop Invocation := do
    let r ← readArguments sharedForms false .empty args
    if !r.operands.isEmpty then throw .usage
    return ⟨config r, flagsOf top, action⟩
  match name with
  | "predict" =>
    let r ← readArguments predictForms false .empty args
    match r.operands with
    | [circuit] =>
      if !isPath circuit then throw .usage
      let flags := { flagsOf top with model := r.value? "model-dir" }
      return ⟨config r, flags, .predict circuit (r.value? "compile-to")⟩
    | _ => throw .usage
  | "paths" => listing .paths
  | "backends" => listing .backends
  | "help" => throw .help
  | _ => throw .usage

/-- What arguments ask for. -/
def invocationOf (args : List String) : Except Stop Invocation := do
  let top ← readArguments topForms true .empty args
  if !top.operands.isEmpty then throw .usage
  match top.rest with
  | [] => return ⟨top.value? "config", flagsOf top, .generate⟩
  | name :: args => actionOf top name args

end PathSelection.CommandLine
