import PathSelection.Shell.Process

/-!
# Utilities

The commands that a script may use: what each of them writes, how it changes the
storage and with which status it ends.
-/

namespace PathSelection.Shell

/-- What a command did. -/
structure Report where
  process : Process
  status : Nat
  output : String
  errors : String

/-- A command: given the process, its input and its operands. -/
abbrev Utility := Process → String → List String → Report

namespace Report

/-- Nothing but a status. -/
def quiet (p : Process) (status : Nat) : Report := ⟨p, status, "", ""⟩

/-- Success with an output. -/
def ofOutput (p : Process) (text : String) : Report := ⟨p, 0, text, ""⟩

/-- Failure with a message. -/
def failed (p : Process) (message : String) : Report := ⟨p, 1, "", message ++ "\n"⟩

end Report

/-! ## Writing -/

/-- The meaning of a backslash and a letter. -/
def letterEscape? (c : Char) : Option Char :=
  [('a', 7), ('b', 8), ('f', 12), ('n', 10), ('r', 13), ('t', 9), ('v', 11), ('\\', 92)].lookup c
    |>.map Char.ofNat

/-- The value of digits of base eight. -/
def octal (cs : List Char) : Nat := cs.foldl (fun n c => 8 * n + (c.toNat - 48)) 0

/-- A text with its escapes replaced, and whether it goes on; the number says how many characters
belong to an escape that was read already. -/
def unescape (zeroed : Bool) : Nat → List Char → List Char × Bool
  | _, [] => ([], true)
  | n + 1, _ :: cs => unescape zeroed n cs
  | 0, '\\' :: cs =>
    match cs with
    | [] => (['\\'], true)
    | c :: rest =>
      let digits := ((if zeroed then rest else cs).take 3).takeWhile fun d => '0' ≤ d ∧ d ≤ '7'
      let escape := if zeroed then c == '0' else !digits.isEmpty
      if escape then
        let (text, more) := unescape zeroed (digits.length + if zeroed then 1 else 0) cs
        (Char.ofNat (octal digits % 256) :: text, more)
      else if c = 'c' then ([], false)
      else match letterEscape? c with
        | some e =>
          let (text, more) := unescape zeroed 1 cs
          (e :: text, more)
        | none =>
          let (text, more) := unescape zeroed 0 cs
          ('\\' :: text, more)
  | 0, c :: cs =>
    let (text, more) := unescape zeroed 0 cs
    (c :: text, more)

/-- Writes its operands with spaces between them. -/
def echo : Utility := fun p _ args =>
  let (line, operands) := match args with
    | "-n" :: rest => ("", rest)
    | _ => ("\n", args)
  let (text, more) := unescape true 0 (" ".intercalate operands).toList
  .ofOutput p (String.ofList text ++ if more then line else "")

/-- A format with its directives replaced, the operands left and whether any was asked for. -/
def formatted : List Char → List String → List Char × List String
  | [], args => ([], args)
  | ['%'], args => (['%'], args)
  | '%' :: c :: cs, args =>
    if c = '%' then
      let (text, args) := formatted cs args
      ('%' :: text, args)
    else
      let value := (args.headD (if c = 'd' ∨ c = 'i' ∨ c = 'u' then "0" else "")).toList
      let (text, args) := formatted cs args.tail
      (value ++ text, args)
  | c :: cs, args =>
    let (text, args) := formatted cs args
    (c :: text, args)

/-- Writes a format as often as it takes to use up the operands. -/
def formattedAll : Nat → List Char → List String → List Char
  | 0, _, _ => []
  | n + 1, format, args =>
    let (text, rest) := formatted format args
    if rest.isEmpty ∨ rest.length = args.length then text else text ++ formattedAll n format rest

/-- Writes by a format. -/
def printf : Utility := fun p _ args =>
  match args with
  | [] => ⟨p, 2, "", p.complaint "printf: usage: printf format [arg ...]"⟩
  | format :: operands =>
    let format := (unescape false 0 format.toList).1
    .ofOutput p (String.ofList (formattedAll (operands.length + 1) format operands))

/-- Joins reports: both outputs and messages, and a failure if there is one. -/
def Report.andThen (r : Report) (next : Process → Report) : Report :=
  let s := next r.process
  ⟨s.process, max r.status s.status, r.output ++ s.output, r.errors ++ s.errors⟩

/-- Writes files. -/
def cat : Utility := fun p input args =>
  (if args.isEmpty then ["-"] else args).foldl (fun r file => r.andThen fun p =>
    if file = "-" then .ofOutput p input
    else match p.storage.read file with
      | .ok text => .ofOutput p text
      | .error fault => .failed p s!"cat: {file}: {fault.reason}") (.quiet p 0)

/-! ## Files -/

/-- The operands of a command, and the letters of its options. -/
def splitOptions (args : List String) : List Char × List String :=
  let isOption (a : String) : Bool := a.startsWith "-" && a != "-" && a != "--"
  ((args.filter isOption).flatMap fun a => a.toList.drop 1,
    args.filter fun a => !isOption a && a != "--")

/-- The place that a file gets in a directory, or the given one. -/
def placeFor (s : Storage) (source destination : String) : String :=
  if s.isDirectory destination then
    PathName.join destination ((PathName.fileName? source).getD source)
  else destination

/-- A command with one source and one destination. -/
def transfer (name : String) (act : Storage → String → String → Except String Storage) : Utility :=
  fun p _ args =>
    match (splitOptions args).2 with
    | [] => .failed p s!"{name}: missing file operand\nTry '{name} --help' for more information."
    | [source] =>
      .failed p
        s!"{name}: missing destination file operand after '{source}'\nTry '{name} --help' for more information."
    | [source, destination] =>
      match act p.storage source (placeFor p.storage source destination) with
      | .ok storage => .quiet { p with storage := storage } 0
      | .error message => .failed p s!"{name}: {message}"
    | _ :: rest => .failed p s!"{name}: target '{rest.getLast?.getD name}' is not a directory"

/-- Copies a file. -/
def copy : Utility := transfer "cp" fun s source destination =>
  match s.read source with
  | .error .isADirectory => .error s!"-r not specified; omitting directory '{source}'"
  | .error fault => .error s!"cannot stat '{source}': {fault.reason}"
  | .ok text =>
    if (s.locate source).toOption = (s.locate destination).toOption then
      .error s!"'{source}' and '{destination}' are the same file"
    else match s.write destination text with
      | .ok s => .ok s
      | .error fault => .error s!"cannot create regular file '{destination}': {fault.reason}"

/-- Moves a file. -/
def move : Utility := transfer "mv" fun s source destination =>
  match s.read source with
  | .error fault => .error s!"cannot stat '{source}': {fault.reason}"
  | .ok _ =>
    match s.rename source destination with
    | .ok s => .ok s
    | .error fault => .error s!"cannot move '{source}' to '{destination}': {fault.reason}"

/-- A command that acts on each operand. -/
def onEach (act : List Char → Storage → String → Except String Storage) : Utility :=
  fun p _ args =>
    let (options, operands) := splitOptions args
    operands.foldl (fun r operand => r.andThen fun p =>
      match act options p.storage operand with
      | .ok storage => .quiet { p with storage := storage } 0
      | .error message => .failed p message) (.quiet p 0)

/-- Removes files. -/
def remove : Utility := onEach fun options s file =>
  if s.isDirectory file ∧ (options.contains 'r' ∨ options.contains 'R') then
    .ok (((s.locate file).map s.erase).toOption.getD s)
  else match s.remove file with
    | .ok s => .ok s
    | .error fault =>
      if fault = .notFound ∧ options.contains 'f' then .ok s
      else .error s!"rm: cannot remove '{file}': {fault.reason}"

/-- Makes directories. -/
def makeDirectory : Utility := onEach fun options s directory =>
  let fault? : Option FileFault :=
    if options.contains 'p' then none
    else if (s.lookup? directory).isSome then some .exists
    else match PathName.parent? directory with
      | some parent => if s.isDirectory parent then none else some .notFound
      | none => none
  match fault? with
  | some fault => .error s!"mkdir: cannot create directory '{directory}': {fault.reason}"
  | none =>
    (s.createDirectories directory).mapError fun fault =>
      s!"mkdir: cannot create directory '{directory}': {fault.reason}"

/-- Makes files that are not there. -/
def touch : Utility := onEach fun _ s file =>
  if s.isDirectory file then .ok s
  else (s.append file "").mapError fun fault => s!"touch: cannot touch '{file}': {fault.reason}"

/-! ## Tests -/

/-- The truth of a test. -/
def test (s : Storage) : List String → Bool
  | ["!", a] => a == ""
  | ["!", a, b] => !unary a b
  | [a] => a != ""
  | [a, b] => unary a b
  | [a, op, b] =>
    if op = "=" then a == b
    else if op = "!=" then a != b
    else match a.toInt?, b.toInt? with
      | some m, some n =>
        (op == "-eq" && m == n) || (op == "-ne" && m != n) || (op == "-lt" && m < n)
          || (op == "-le" && m ≤ n) || (op == "-gt" && m > n) || (op == "-ge" && m ≥ n)
      | _, _ => false
  | _ => false
where
  /-- A test of one operand. -/
  unary (op a : String) : Bool :=
    (op == "-n" && a != "") || (op == "-z" && a == "") || (op == "-f" && s.isFile a)
      || (op == "-d" && s.isDirectory a) || (op == "-e" && (s.lookup? a).isSome)
      || (op == "-s" && (s.read a).toOption.any (· != ""))

/-- Tests its operands; in brackets the last operand closes them. -/
def testUtility (inBrackets : Bool) : Utility := fun p _ args =>
  let args := if inBrackets then args.dropLast else args
  .quiet p (if test p.storage args then 0 else 1)

/-! ## The process itself -/

/-- Ends the process. -/
def exit : Utility := fun p _ args =>
  match args with
  | [] => .quiet { p with ending := some (.exited p.status) } p.status
  | a :: _ =>
    match a.toNat? with
    | some n => .quiet { p with ending := some (.exited (n % 256)) } (n % 256)
    | none =>
      ⟨{ p with ending := some (.exited 2) }, 2, "", p.complaint s!"exit: Illegal number: {a}"⟩

/-- Drops arguments. -/
def shift : Utility := fun p _ args =>
  let n := ((args.head?.bind (·.toNat?))).getD 1
  if p.arguments.length < n then
    ⟨{ p with ending := some (.exited 2) }, 2, "", p.complaint "shift: can't shift that many"⟩
  else .quiet { p with arguments := p.arguments.drop n } 0

/-- The duration of a number with a unit, or none for ever. -/
def durationOf? (text : String) : Option (Option Duration) :=
  if text = "infinity" ∨ text = "inf" then some none
  else
    let (digits, factor) := match text.toList.reverse with
      | 's' :: cs => (cs.reverse, 1)
      | 'm' :: cs => (cs.reverse, 60)
      | 'h' :: cs => (cs.reverse, 3600)
      | 'd' :: cs => (cs.reverse, 86400)
      | cs => (cs.reverse, 1)
    let whole := digits.takeWhile (· != '.')
    let fraction := (digits.dropWhile (· != '.')).drop 1
    if digits.all (fun c => c.isDigit || c == '.') && digits.any (·.isDigit) then
      let thousandths := (fraction ++ ['0', '0', '0']).take 3
      (String.ofList (whole ++ thousandths)).toNat?.map fun n => some ⟨factor * n⟩
    else none

/-- Waits. -/
def sleep : Utility := fun p _ args =>
  args.foldl (fun r a => r.andThen fun p =>
    match durationOf? a with
    | some (some d) => .quiet { p with elapsed := ⟨p.elapsed.milliseconds + d.milliseconds⟩ } 0
    | some none => .quiet { p with ending := some .endless } 0
    | none => .failed p s!"sleep: invalid time interval '{a}'") (.quiet p 0)

/-- Sends a signal, which only the process itself can get. -/
def kill : Utility := fun p _ args =>
  let (signal, targets) := match args with
    | "-s" :: name :: rest => (signalOf? name, rest)
    | a :: rest =>
      if a.startsWith "-" && a != "--" then (signalOf? (a.drop 1).toString, rest)
      else (some 15, args)
    | [] => (some 15, [])
  match signal with
  | none => ⟨p, 2, "", p.complaint "kill: Illegal option"⟩
  | some n =>
    if targets.contains Process.number then
      match endingOfSignal? n with
      | some e => .quiet { p with ending := some e } 0
      | none => .quiet p 0
    else ⟨p, 1, "", p.complaint "kill: No such process"⟩

/-- All utilities. -/
def utilities : List (String × Utility) := [
  ("echo", echo), ("printf", printf), ("cat", cat), ("cp", copy), ("mv", move), ("rm", remove),
  ("mkdir", makeDirectory), ("touch", touch), ("test", testUtility false),
  ("[", testUtility true), ("exit", exit), ("shift", shift), ("sleep", sleep), ("kill", kill),
  (":", fun p _ _ => .quiet p 0), ("true", fun p _ _ => .quiet p 0),
  ("false", fun p _ _ => .quiet p 1)]

end PathSelection.Shell
