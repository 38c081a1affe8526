import PathSelection.Storage.Fault
import PathSelection.Storage.Path

/-!
# Storage

A tree of directories and files that hold texts.  A place in the tree is the
list of the names that lead to it from the root, and a path name leads to a
place only through directories that are there.

Main results:

- Theorems `entryAt?_put_self` and `entryAt?_put_of_ne`: what is put at a place
  is there, and all other places keep what they have.
- Theorem `entryAt?_erase`: nothing is left at an erased place or below it, and
  all other places keep what they have.
-/

namespace PathSelection

/-- The names that lead from the root to a place. -/
abbrev Location := List String

/-- What is at a place. -/
inductive StorageEntry where
  | file (text : String)
  | directory
  deriving DecidableEq, Repr

/-- The places below the root at which there is something; the root is a directory. -/
structure Storage where
  /-- the path name of the root, at which relative path names start -/
  home : String
  entries : List (Location × StorageEntry)

namespace Storage

/-- The storage in which there is nothing but the root. -/
def empty (home : String) : Storage := ⟨home, []⟩

/-! ## Places -/

/-- What is at a place. -/
def entryAt? (s : Storage) (l : Location) : Option StorageEntry :=
  if l = [] then some .directory else s.entries.lookup l

/-- Entries with another one at a place. -/
def putEntry (l : Location) (e : StorageEntry) :
    List (Location × StorageEntry) → List (Location × StorageEntry)
  | [] => [(l, e)]
  | (m, f) :: rest => if m = l then (l, e) :: rest else (m, f) :: putEntry l e rest

/-- The storage with something at a place. -/
def put (s : Storage) (l : Location) (e : StorageEntry) : Storage :=
  { s with entries := putEntry l e s.entries }

/-- The storage with nothing at a place or below it. -/
def erase (s : Storage) (l : Location) : Storage :=
  { s with entries := s.entries.filter fun p => !l.isPrefixOf p.1 }

/-- The names at which there is something directly below a place. -/
def children (s : Storage) (l : Location) : List String :=
  s.entries.filterMap fun (m, _) =>
    match m.getLast? with
    | some name => if m.dropLast = l then some name else none
    | none => none

private theorem lookup_putEntry_self (l : Location) (e : StorageEntry)
    (entries : List (Location × StorageEntry)) : (putEntry l e entries).lookup l = some e := by
  induction entries with
  | nil => simp [putEntry]
  | cons p rest ih =>
    obtain ⟨m, f⟩ := p
    by_cases h : m = l
    · simp [putEntry, h]
    · simp [putEntry, h, List.lookup_cons, beq_eq_false_iff_ne.mpr (Ne.symm h), ih]

private theorem lookup_putEntry_of_ne {l m : Location} (h : m ≠ l) (e : StorageEntry)
    (entries : List (Location × StorageEntry)) :
    (putEntry l e entries).lookup m = entries.lookup m := by
  induction entries with
  | nil => simp [putEntry, List.lookup_cons, beq_eq_false_iff_ne.mpr h]
  | cons p rest ih =>
    obtain ⟨k, f⟩ := p
    by_cases hk : k = l
    · subst hk
      simp [putEntry, List.lookup_cons, beq_eq_false_iff_ne.mpr h]
    · by_cases hm : m = k
      · simp [putEntry, hk, hm]
      · simp [putEntry, hk, List.lookup_cons, beq_eq_false_iff_ne.mpr hm, ih]

/-- What was put at a place is there. -/
@[simp]
theorem entryAt?_put_self (s : Storage) {l : Location} (h : l ≠ []) (e : StorageEntry) :
    (s.put l e).entryAt? l = some e := by
  simp [entryAt?, put, h, lookup_putEntry_self]

/-- All other places keep what is there. -/
theorem entryAt?_put_of_ne (s : Storage) {l m : Location} (h : m ≠ l) (e : StorageEntry) :
    (s.put l e).entryAt? m = s.entryAt? m := by
  simp [entryAt?, put, lookup_putEntry_of_ne h]

private theorem lookup_filter_location (keep : Location → Bool) (m : Location)
    (entries : List (Location × StorageEntry)) :
    (entries.filter fun p => keep p.1).lookup m = if keep m then entries.lookup m else none := by
  induction entries with
  | nil => simp
  | cons p rest ih =>
    obtain ⟨k, e⟩ := p
    by_cases h : m = k
    · subst h
      cases hk : keep m <;> simp [hk, ih]
    · have test : (m == k) = false := beq_eq_false_iff_ne.mpr h
      cases hk : keep k <;> simp [List.lookup_cons, hk, test, ih]

/-- Nothing is left at an erased place or below it, and all other places keep what is there. -/
theorem entryAt?_erase (s : Storage) (l : Location) {m : Location} (h : m ≠ []) :
    (s.erase l).entryAt? m = if l.isPrefixOf m then none else s.entryAt? m := by
  simp only [entryAt?, erase, if_neg h,
    lookup_filter_location (fun k => !l.isPrefixOf k) m s.entries]
  cases l.isPrefixOf m <;> rfl

/-! ## Path names -/

/-- The longest name of a file, in bytes. -/
def nameLimit : Nat := 255

/-- The components of a path name below the root; a path name from another root has none. -/
def below? (s : Storage) (path : String) : Option (List String) :=
  let home := PathName.components s.home
  let parts := PathName.components path
  if home.isPrefixOf parts && PathName.isAbsolute s.home == PathName.isAbsolute path then
    some (parts.drop home.length)
  else if PathName.isAbsolute path then none
  else some parts

/-- Follows components from a place, through directories only. -/
def follow (s : Storage) : Location → List String → Except FileFault Location
  | here, [] => .ok here
  | here, name :: rest =>
    match s.entryAt? here with
    | none => .error .notFound
    | some (.file _) => .error .notADirectory
    | some .directory =>
      if name = ".." then follow s here.dropLast rest
      else if nameLimit < name.utf8ByteSize then .error .nameTooLong
      else follow s (here ++ [name]) rest

/-- The place to which a path name leads; what is there is another question. -/
def locate (s : Storage) (path : String) : Except FileFault Location :=
  if path.isEmpty then .error .notFound
  else match s.below? path with
    | some parts => s.follow [] parts
    | none => .error .notFound

/-! ## Looking -/

/-- What a path name leads to. -/
def lookup? (s : Storage) (path : String) : Option StorageEntry :=
  match s.locate path with
  | .ok l =>
    match s.entryAt? l with
    | some (.file text) => if PathName.namesDirectory path then none else some (.file text)
    | e => e
  | .error _ => none

/-- Does a path name lead to a file? -/
def isFile (s : Storage) (path : String) : Bool :=
  match s.lookup? path with
  | some (.file _) => true
  | _ => false

/-- Does a path name lead to a directory? -/
def isDirectory (s : Storage) (path : String) : Bool := s.lookup? path == some .directory

/-- Does a path name lead to something?  A fault other than that nothing is there is reported. -/
def exists? (s : Storage) (path : String) : Except FileFault Bool :=
  match s.locate path with
  | .ok l =>
    match s.entryAt? l with
    | some (.file _) =>
      if PathName.namesDirectory path then .error .notADirectory else .ok true
    | some .directory => .ok true
    | none => .ok false
  | .error .notFound => .ok false
  | .error f => .error f

/-- The text of a file. -/
def read (s : Storage) (path : String) : Except FileFault String := do
  let l ← s.locate path
  match s.entryAt? l with
  | some (.file text) =>
    if PathName.namesDirectory path then .error .notADirectory else .ok text
  | some .directory => .error .isADirectory
  | none => .error .notFound

/-- The names in a directory. -/
def list (s : Storage) (path : String) : Except FileFault (List String) := do
  let l ← s.locate path
  match s.entryAt? l with
  | some .directory => .ok (s.children l)
  | some (.file _) => .error .notADirectory
  | none => .error .notFound

/-! ## Changing -/

/-- The place at which a file may be written, with the text that is there. -/
def target (s : Storage) (path : String) : Except FileFault (Location × Option String) := do
  let l ← s.locate path
  match s.entryAt? l with
  | some .directory => .error .isADirectory
  | some (.file text) =>
    if PathName.namesDirectory path then .error .notADirectory else .ok (l, some text)
  | none =>
    if s.entryAt? l.dropLast != some .directory then .error .notFound
    else if PathName.namesDirectory path then .error .isADirectory
    else .ok (l, none)

/-- The storage with a text in a file, which need not be there. -/
def write (s : Storage) (path text : String) : Except FileFault Storage := do
  let (l, _) ← s.target path
  return s.put l (.file text)

/-- The storage with a text at the end of a file, which need not be there. -/
def append (s : Storage) (path text : String) : Except FileFault Storage := do
  let (l, old) ← s.target path
  return s.put l (.file (old.getD "" ++ text))

/-- The storage in which a file has another path name; a file that is there is replaced. -/
def rename (s : Storage) (source destination : String) : Except FileFault Storage := do
  let text ← s.read source
  let l ← s.locate source
  let (m, _) ← s.target destination
  return if l = m then s else (s.erase l).put m (.file text)

/-- Puts a text into a file by way of a draft, which stays if it cannot be renamed. -/
def replace (s : Storage) (draft path text : String) : Except FileFault Unit × Storage :=
  match s.write draft text with
  | .error fault => (.error fault, s)
  | .ok drafted =>
    match drafted.rename draft path with
    | .error fault => (.error fault, drafted)
    | .ok replaced => (.ok (), replaced)

/-- Makes the directories along components from a place. -/
def makeDirectories : Storage → Location → List String → Except FileFault Storage
  | s, _, [] => .ok s
  | s, here, name :: rest =>
    if name = ".." then makeDirectories s here.dropLast rest
    else if nameLimit < name.utf8ByteSize then .error .nameTooLong
    else
      let next := here ++ [name]
      match s.entryAt? next with
      | some .directory => makeDirectories s next rest
      | some (.file _) => .error (if rest.isEmpty then .exists else .notADirectory)
      | none => makeDirectories (s.put next .directory) next rest

/-- The storage with a directory and those on the way to it, which need not be there. -/
def createDirectories (s : Storage) (path : String) : Except FileFault Storage :=
  match s.below? path with
  | some parts => s.makeDirectories [] parts
  | none => .error .notFound

/-- The storage without a file. -/
def remove (s : Storage) (path : String) : Except FileFault Storage := do
  let l ← s.locate path
  match s.entryAt? l with
  | some (.file _) =>
    if PathName.namesDirectory path then .error .notADirectory else .ok (s.erase l)
  | some .directory => .error .isADirectory
  | none => .error .notFound

end Storage

end PathSelection
