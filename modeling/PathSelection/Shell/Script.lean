import PathSelection.Shell.Word

/-!
# Shell scripts

A script is a list of pipelines of simple commands.  A pipeline may hang on the
success or the failure of what ran before it.
-/

namespace PathSelection.Shell

/-! ## Tokens -/

/-- A lexical unit of a script. -/
inductive Token where
  | word (w : Word)
  /-- `;`, a line end, `&&` and so on -/
  | sign (text : String)
  /-- the number of the stream that a redirection is about -/
  | stream (n : Nat)
  deriving DecidableEq, Repr

/-- Where reading stands with respect to quotes. -/
inductive Quoting where
  | none
  | single
  | double
  | comment
  deriving DecidableEq, Repr

/-- A script of which more may come; tokens and pieces are in reverse. -/
structure ScriptDraft where
  tokens : List Token
  word : Option (List Piece)
  deriving DecidableEq, Repr

namespace ScriptDraft

/-- Adds pieces to the word at hand. -/
def add (d : ScriptDraft) (pieces : List Piece) : ScriptDraft :=
  { d with word := some (pieces ++ d.word.getD []) }

/-- Ends the word at hand. -/
def endWord (d : ScriptDraft) : ScriptDraft :=
  match d.word with
  | some pieces => ⟨.word pieces.reverse :: d.tokens, none⟩
  | none => d

/-- Adds a sign. -/
def sign (d : ScriptDraft) (text : String) : ScriptDraft :=
  let d := d.endWord
  { d with tokens := .sign text :: d.tokens }

/-- Adds the sign of a redirection; a digit that touches it is the number of a stream. -/
def redirect (d : ScriptDraft) (text : String) : ScriptDraft :=
  match d.word with
  | some [.char c false] =>
    if c.isDigit then ⟨.sign text :: .stream (c.toNat - 48) :: d.tokens, none⟩ else d.sign text
  | _ => d.sign text

end ScriptDraft

/-- May a character stand in the name of a variable? -/
def isNameChar (c : Char) : Bool := c.isAlphanum || c == '_'

/-- The name of a parameter at the start of a text and the number of its characters. -/
def parameterName (cs : List Char) : Option (String × Nat) :=
  match cs with
  | '\x7b' :: rest =>
    let name := rest.takeWhile (· != '\x7d')
    if name.length < rest.length ∧ !name.isEmpty then some (String.ofList name, name.length + 2)
    else none
  | c :: _ =>
    if c.isDigit || "@*#?$!-".toList.contains c then some (c.toString, 1)
    else
      let name := cs.takeWhile isNameChar
      if name.isEmpty then none else some (String.ofList name, name.length)
  | [] => none

/-- The sign at the start of a text. -/
def signAt? (cs : List Char) : Option String :=
  [">>", ">&", "<&", "&&", "||", ">", "<", ";", "|", "&", "\n"].find? fun s =>
    s.toList.isPrefixOf cs

/-- Does a backslash in double quotes take the meaning of a character away? -/
def isEscapable (c : Char) : Bool := c == '$' || c.toNat == 96 || c == '"' || c == '\\'

/-- Reads the rest of a script.  The first number says how many characters belong to what was read
already. -/
def tokensFrom : Nat → Quoting → ScriptDraft → List Char → Except String (List Token)
  | _, q, d, [] =>
    if q = .single ∨ q = .double then .error "Unterminated quoted string"
    else .ok d.endWord.tokens.reverse
  | n + 1, q, d, _ :: cs => tokensFrom n q d cs
  | 0, .comment, d, c :: cs =>
    if c = '\n' then tokensFrom 0 .none (d.sign "\n") cs else tokensFrom 0 .comment d cs
  | 0, .single, d, c :: cs =>
    if c = '\'' then tokensFrom 0 .none d cs else tokensFrom 0 .single (d.add [.char c true]) cs
  | 0, .double, d, c :: cs =>
    if c = '"' then tokensFrom 0 .none d cs
    else if c = '\\' then
      match cs with
      | e :: _ =>
        if e = '\n' then tokensFrom 1 .double d cs
        else if isEscapable e then tokensFrom 1 .double (d.add [.char e true]) cs
        else tokensFrom 0 .double (d.add [.char '\\' true]) cs
      | [] => .error "Unterminated quoted string"
    else if c = '$' then
      match parameterName cs with
      | some (name, n) => tokensFrom n .double (d.add [.parameter name true]) cs
      | none => tokensFrom 0 .double (d.add [.char '$' true]) cs
    else tokensFrom 0 .double (d.add [.char c true]) cs
  | 0, .none, d, c :: cs =>
    if c = '\'' then tokensFrom 0 .single (d.add [.quotes]) cs
    else if c = '"' then tokensFrom 0 .double (d.add [.quotes]) cs
    else if c = ' ' ∨ c = '\t' then tokensFrom 0 .none d.endWord cs
    else if c = '#' ∧ d.word.isNone then tokensFrom 0 .comment d cs
    else if c = '\\' then
      match cs with
      | e :: _ =>
        if e = '\n' then tokensFrom 1 .none d cs
        else tokensFrom 1 .none (d.add [.char e true]) cs
      | [] => .ok (d.add [.char '\\' true]).endWord.tokens.reverse
    else if c = '$' then
      match parameterName cs with
      | some (name, n) => tokensFrom n .none (d.add [.parameter name false]) cs
      | none => tokensFrom 0 .none (d.add [.char '$' false]) cs
    else match signAt? (c :: cs) with
      | some s =>
        let d := if c = '<' ∨ c = '>' then d.redirect s else d.sign s
        tokensFrom (s.length - 1) .none d cs
      | none => tokensFrom 0 .none (d.add [.char c false]) cs

/-! ## Commands -/

/-- What a stream of a command is connected with. -/
structure Redirection where
  stream : Nat
  sign : String
  target : Word
  deriving DecidableEq, Repr

/-- A simple command. -/
structure Command where
  assignments : List (String × Word)
  words : List Word
  redirections : List Redirection
  deriving DecidableEq, Repr

/-- When a pipeline runs. -/
inductive Condition where
  | always
  | afterSuccess
  | afterFailure
  deriving DecidableEq, Repr

/-- Commands, each of which reads what the one before it writes. -/
structure Pipeline where
  condition : Condition
  isNegated : Bool
  commands : List Command
  deriving DecidableEq, Repr

/-- The variable and the value of a word that assigns one. -/
def assignment? (w : Word) : Option (String × Word) :=
  let isPlainName : Piece → Bool
    | .char c false => isNameChar c
    | _ => false
  let name := w.takeWhile isPlainName
  match name, w.dropWhile isPlainName with
  | .char c _ :: _, .char '=' false :: value =>
    if c.isDigit then none
    else some (String.ofList (name.filterMap fun
      | .char c _ => some c
      | _ => none), value)
  | _, _ => none

/-- The command with one more word. -/
def Command.pushWord (c : Command) (w : Word) : Command :=
  match c.words, assignment? w with
  | [], some a => { c with assignments := c.assignments ++ [a] }
  | _, _ => { c with words := c.words ++ [w] }

/-- A script of which more may come; pipelines are in reverse. -/
structure CommandDraft where
  pipelines : List Pipeline
  current : Pipeline
  command : Command

namespace CommandDraft

/-- No command. -/
def noCommand : Command := ⟨[], [], []⟩

/-- Nothing of a script. -/
def empty : CommandDraft := ⟨[], ⟨.always, false, []⟩, noCommand⟩

/-- The draft with the command at hand, if there is one, in its pipeline. -/
def endCommand (d : CommandDraft) : CommandDraft :=
  if d.command = noCommand then d
  else { d with
    current := { d.current with commands := d.current.commands ++ [d.command] }
    command := noCommand }

/-- The draft with the pipeline at hand ended, and the condition of the next one. -/
def endPipeline (d : CommandDraft) (next : Condition) : CommandDraft :=
  let d := d.endCommand
  if d.current.commands.isEmpty then { d with current := ⟨next, false, []⟩ }
  else ⟨d.current :: d.pipelines, ⟨next, false, []⟩, noCommand⟩

/-- Is nothing of a pipeline read yet? -/
def isFresh (d : CommandDraft) : Bool :=
  d.command == noCommand && d.current.commands.isEmpty

/-- Adds a word. -/
def pushWord (d : CommandDraft) (w : Word) : CommandDraft :=
  if d.isFresh && w == [.char '!' false] then
    { d with current := { d.current with isNegated := !d.current.isNegated } }
  else { d with command := d.command.pushWord w }

end CommandDraft

/-- The fault of a sign where none may stand. -/
def unexpected (sign : String) : String :=
  if sign = "\n" then "newline unexpected" else s!"\"{sign}\" unexpected"

/-- Puts tokens together to pipelines. -/
def pipelinesFrom (d : CommandDraft) : List Token → Except String (List Pipeline)
  | [] => .ok (d.endPipeline .always).pipelines.reverse
  | .word w :: ts => pipelinesFrom (d.pushWord w) ts
  | .stream n :: .sign s :: .word w :: ts => pipelinesFrom (redirected n s w) ts
  | .stream _ :: _ => .error (unexpected "\n")
  | .sign s :: ts =>
    if s = "\n" ∨ s = ";" ∨ s = "&" then
      if d.isFresh ∧ s ≠ "\n" then .error (unexpected s)
      else if d.isFresh then pipelinesFrom d ts
      else pipelinesFrom (d.endPipeline .always) ts
    else if s = "&&" ∨ s = "||" ∨ s = "|" then
      if d.command = CommandDraft.noCommand then .error (unexpected s)
      else if s = "|" then pipelinesFrom d.endCommand ts
      else
        let next := if s = "&&" then Condition.afterSuccess else .afterFailure
        pipelinesFrom (d.endPipeline next) ts
    else match ts with
      | .word w :: ts => pipelinesFrom (redirected (if s.startsWith "<" then 0 else 1) s w) ts
      | .sign t :: _ => .error (unexpected t)
      | _ => .error "end of file unexpected"
where
  /-- The draft with one more redirection. -/
  redirected (n : Nat) (s : String) (w : Word) : CommandDraft :=
    { d with command :=
      { d.command with redirections := d.command.redirections ++ [⟨n, s, w⟩] } }

/-- The pipelines of a script. -/
def parseScript (text : String) : Except String (List Pipeline) := do
  pipelinesFrom .empty (← tokensFrom 0 .none ⟨[], none⟩ text.toList)

end PathSelection.Shell
