import PathSelection.Text.Lines

/-!
# Path names

A path name is a text whose components are separated by slashes.  Empty
components and single points mean nothing.

Main result:

- Theorem `PathName.components_join`: a plain file name joined to a directory is
  one more component.
-/

namespace PathSelection.PathName

/-- The components of a path name that mean something. -/
def components (path : String) : List String :=
  ((splitOnChar '/' path.toList).map String.ofList).filter fun c => c != "" && c != "."

/-- Does a path name start at the root? -/
def isAbsolute (path : String) : Bool := path.toList.head? == some '/'

/-- Does a path name end in a slash or in a component that means the same directory? -/
def namesDirectory (path : String) : Bool :=
  match (splitOnChar '/' path.toList).getLast? with
  | some last => last.isEmpty || last == ['.'] || last == ['.', '.']
  | none => false

/-- A path name inside a directory; one that starts at the root is taken alone. -/
def join (directory name : String) : String :=
  if isAbsolute name || directory.isEmpty then name
  else if directory.toList.getLast? = some '/' then directory ++ name
  else directory ++ "/" ++ name

/-- The file name: the last component, unless it leads upwards. -/
def fileName? (path : String) : Option String :=
  match (components path).getLast? with
  | some ".." => none
  | some name => some name
  | none => none

/-- The parts of a file name before and after its last point, which must not be its
first character. -/
def splitExtension (name : String) : String × Option String :=
  let reversed := name.toList.reverse
  let extension := reversed.takeWhile (· != '.')
  match reversed.dropWhile (· != '.') with
  | _ :: c :: stem => (String.ofList (c :: stem).reverse, some (String.ofList extension.reverse))
  | _ => (name, none)

/-- The file name without its extension. -/
def stem? (path : String) : Option String := (fileName? path).map fun n => (splitExtension n).1

/-- The extension of the file name. -/
def extension? (path : String) : Option String :=
  (fileName? path).bind fun n => (splitExtension n).2

/-- The directory that a path name lies in, if it names one other than the root. -/
def parent? (path : String) : Option String :=
  let before := (path.toList.reverse.dropWhile (· == '/')).dropWhile (· != '/')
  let directory := before.dropWhile (· == '/')
  if directory.isEmpty then none else some (String.ofList directory.reverse)

/-! ## Components of a joined path name -/

/-- Text is cut at each separator. -/
theorem splitOnChar_append_cons (sep : Char) (xs ys : List Char) :
    splitOnChar sep (xs ++ sep :: ys) = splitOnChar sep xs ++ splitOnChar sep ys := by
  induction xs with
  | nil => simp [splitOnChar, consPiece]
  | cons c cs ih =>
    have hcons (l : List Char) : splitOnChar sep (c :: l) = consPiece sep c (splitOnChar sep l) :=
      rfl
    rw [List.cons_append, hcons, ih, hcons]
    cases hs : splitOnChar sep cs with
    | nil => exact absurd hs (splitOnChar_ne_nil sep cs)
    | cons p ps => by_cases h : c = sep <;> simp [consPiece, h]

/-- Text without a separator is one piece. -/
theorem splitOnChar_of_not_mem {sep : Char} {xs : List Char} (h : sep ∉ xs) :
    splitOnChar sep xs = [xs] := by
  induction xs with
  | nil => rfl
  | cons c cs ih =>
    have hc : c ≠ sep := fun e => h (by simp [e])
    have hcs : sep ∉ cs := fun m => h (List.mem_cons_of_mem _ m)
    have hcons : splitOnChar sep (c :: cs) = consPiece sep c (splitOnChar sep cs) := rfl
    rw [hcons, ih hcs]
    simp [consPiece, hc]

/-- A file name without slashes that is not empty and means no directory. -/
def IsPlain (name : String) : Prop := '/' ∉ name.toList ∧ name ≠ "" ∧ name ≠ "." ∧ name ≠ ".."

/-- A plain name is its only component. -/
theorem components_of_isPlain {name : String} (h : IsPlain name) : components name = [name] := by
  obtain ⟨hslash, hempty, hpoint, _⟩ := h
  simp [components, splitOnChar_of_not_mem hslash, hempty, hpoint]

/-- A plain file name joined to a directory is one more component. -/
theorem components_join {directory name : String} (h : IsPlain name) :
    components (join directory name) = components directory ++ [name] := by
  have habs : isAbsolute name = false := by
    simp only [isAbsolute, beq_eq_false_iff_ne, ne_eq]
    intro hhead
    exact h.1 (List.mem_of_head? hhead)
  have hname := components_of_isPlain h
  unfold join
  rw [habs]
  by_cases hdir : directory.isEmpty = true
  · have : directory = "" := by simpa using hdir
    subst this
    simpa [components, splitOnChar] using hname
  · simp only [Bool.false_or, hdir, Bool.false_eq_true, if_false]
    split
    · rename_i hlast
      obtain ⟨front, hfront⟩ : ∃ front, directory.toList = front ++ ['/'] :=
        List.getLast?_eq_some_iff.mp hlast
      have hjoined : (directory ++ name).toList = front ++ '/' :: name.toList := by
        simp [hfront]
      simp only [components, hjoined, hfront, splitOnChar_append_cons]
      simp only [components] at hname
      simp [hname, splitOnChar_nil]
    · have hjoined : (directory ++ "/" ++ name).toList = directory.toList ++ '/' :: name.toList := by
        simp
      simp only [components, hjoined, splitOnChar_append_cons]
      simp only [components] at hname
      simp [hname]

end PathSelection.PathName
