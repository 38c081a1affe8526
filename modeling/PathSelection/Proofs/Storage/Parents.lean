import Mathlib.Data.List.TakeWhile
import PathSelection.Proofs.Storage.Edits

/-!
# Directories of files

A path name that names no directory is a plain name behind its directory.  If it leads
to a place, the way to the directory is open, so no directory has to be made before
something is written there.

Main results:

- Theorem `PathName.exists_name`: the components of a path name and of its directory.
- Theorem `Storage.open_of_locate`: the way to the directory of a file is open.
- Theorem `Storage.exists_append`: where a file may stand, a text can be added.
-/

namespace PathSelection

/-! ## Directory names -/

namespace PathName

variable {path directory : String}

/-- Slashes at the end of a directory name mean nothing. -/
theorem components_append_slashes {front slashes : List Char} (h : ∀ c ∈ slashes, c = '/') :
    components (String.ofList (front ++ slashes)) = components (String.ofList front) := by
  induction slashes using List.reverseRecOn with
  | nil => rw [List.append_nil]
  | append_singleton slashes c ih =>
    obtain rfl : c = '/' := h c (by simp)
    rw [← ih fun c hc => h c (by simp [hc])]
    simp only [components, String.toList_ofList, ← List.append_assoc, splitOnChar_append_cons]
    simp

/-- The last piece of a path name that names no directory is a plain name. -/
theorem isPlain_of_getLast? {name : String} (h : namesDirectory path = false)
    (hlast : (splitOnChar '/' path.toList).getLast? = some name.toList)
    (hplain : '/' ∉ name.toList) : IsPlain name := by
  refine ⟨hplain, ?_, ?_, ?_⟩ <;>
  · rintro rfl
    simp [namesDirectory, hlast] at h

/-- The directory in front of a slash and a name, without the slashes at its end. -/
theorem parent?_of_concat {before : List Char} {name : String} (h : IsPlain name)
    (hpath : path.toList = before ++ '/' :: name.toList) :
    parent? path = if (before.reverse.dropWhile (· == '/')).isEmpty then none
      else some (String.ofList (before.reverse.dropWhile (· == '/')).reverse) := by
  have hrest : (path.toList.reverse.dropWhile (· == '/')).dropWhile (· != '/') =
      '/' :: before.reverse := by
    obtain ⟨c, more, hname⟩ : ∃ c more, name.toList.reverse = c :: more :=
      List.exists_cons_of_ne_nil (by simpa using h.2.1)
    have hnone : ∀ d ∈ c :: more, d ≠ '/' := by
      intro d hd
      rw [← hname, List.mem_reverse] at hd
      exact ne_of_mem_of_not_mem hd h.1
    have hfirst : (c == '/') = false := by simpa using hnone c List.mem_cons_self
    rw [hpath, List.reverse_append, List.reverse_cons, hname, List.append_assoc, List.cons_append,
      List.dropWhile_cons, hfirst, if_neg (by simp), ← List.cons_append,
      List.dropWhile_append_of_pos (by simpa using hnone)]
    simp
  simp only [parent?, hrest]
  rw [List.dropWhile_cons_of_pos (by simp)]

/-- A path name that names no directory has a plain name behind the components of its directory. -/
theorem exists_name (h : namesDirectory path = false) :
    ∃ front name, IsPlain name ∧ components path = front ++ [name] ∧
      ∀ directory, parent? path = some directory →
        components directory = front ∧ isAbsolute directory = isAbsolute path := by
  by_cases hslash : '/' ∈ path.toList.reverse
  · obtain ⟨last, rest, hreversed, hlast⟩ := List.eq_append_cons_of_mem hslash
    obtain ⟨name, hname⟩ : ∃ name : String, name.toList = last.reverse :=
      ⟨String.ofList last.reverse, String.toList_ofList⟩
    have hpath : path.toList = rest.reverse ++ '/' :: name.toList := by
      rw [← List.reverse_reverse path.toList, hreversed, hname]
      simp
    have hplain : '/' ∉ name.toList := by simpa [hname] using hlast
    have hpieces : splitOnChar '/' path.toList = splitOnChar '/' rest.reverse ++ [name.toList] := by
      rw [hpath, splitOnChar_append_cons, splitOnChar_of_not_mem hplain]
    have hisPlain : IsPlain name := isPlain_of_getLast? h (by rw [hpieces]; simp) hplain
    refine ⟨components (String.ofList rest.reverse), name, hisPlain, ?_, ?_⟩
    · rw [← components_of_isPlain hisPlain]
      simp only [components, hpath, String.toList_ofList, splitOnChar_append_cons, List.map_append,
        List.filter_append]
    · intro directory hparent
      rw [parent?_of_concat hisPlain hpath, List.reverse_reverse] at hparent
      split_ifs at hparent with hempty
      obtain rfl := Option.some.inj hparent
      have hsplit : rest.reverse = (rest.dropWhile (· == '/')).reverse ++
          (rest.takeWhile (· == '/')).reverse := by
        rw [← List.reverse_append, List.takeWhile_append_dropWhile]
      have hslashes : ∀ c ∈ (rest.takeWhile (· == '/')).reverse, c = '/' := by
        intro c hc
        simpa using List.mem_takeWhile_imp (List.mem_reverse.1 hc)
      refine ⟨by rw [hsplit, components_append_slashes hslashes], ?_⟩
      have hchars : (rest.dropWhile (· == '/')).reverse ≠ [] := by simpa using hempty
      simp only [isAbsolute, hpath, hsplit, String.toList_ofList, List.append_assoc,
        List.head?_append_of_ne_nil _ hchars]
  · have hplain : '/' ∉ path.toList := by simpa using hslash
    have hisPlain : IsPlain path :=
      isPlain_of_getLast? h (by rw [splitOnChar_of_not_mem hplain]; rfl) hplain
    have hnone : (path.toList.reverse.dropWhile (· == '/')).dropWhile (· != '/') = [] := by
      rw [List.dropWhile_eq_nil_iff]
      intro c hc
      have hmem := (List.dropWhile_suffix _).subset hc
      simpa using ne_of_mem_of_not_mem hmem hslash
    refine ⟨[], path, hisPlain, components_of_isPlain hisPlain, fun directory hparent => ?_⟩
    simp [parent?, hnone] at hparent

end PathName

/-! ## Open ways -/

namespace Storage

variable {s t : Storage} {path directory text : String} {here l : Location} {parts : List String}

/-- What is followed to a directory leads through directories. -/
theorem entryAt?_of_follow (h : s.follow here parts = .ok l)
    (hl : s.entryAt? l = some .directory) : s.entryAt? here = some .directory := by
  cases parts with
  | nil =>
    obtain rfl : here = l := by simpa [follow] using h
    exact hl
  | cons name rest => exact (follow_cons_eq_ok_iff.1 h).1

/-- Along an open way no directory has to be made. -/
theorem makeDirectories_of_follow (h : s.follow here parts = .ok l)
    (hl : s.entryAt? l = some .directory) : s.makeDirectories here parts = .ok s := by
  induction parts generalizing here with
  | nil => rfl
  | cons name rest ih =>
    obtain ⟨-, hshort, hrest⟩ := follow_cons_eq_ok_iff.1 h
    rw [makeDirectories]
    by_cases hup : name = ".."
    · rw [if_pos hup] at hrest ⊢
      exact ih hrest
    · rw [if_neg hup] at hrest ⊢
      rw [if_neg (Nat.not_lt.2 (hshort hup))]
      simp only [entryAt?_of_follow hrest hl]
      exact ih hrest

/-- A directory that is open need not be made. -/
theorem createDirectories_of_opens (h : s.Opens directory l) :
    s.createDirectories directory = .ok s := by
  obtain ⟨parts, hparts, hfollow, hentry⟩ := h
  simp only [createDirectories, hparts]
  exact makeDirectories_of_follow hfollow hentry

/-- Below the root a path name is a plain name behind its directory. -/
theorem exists_name_below (hnames : PathName.namesDirectory path = false)
    (hparts : s.below? path = some parts) (hne : parts ≠ []) :
    ∃ front name, PathName.IsPlain name ∧ parts = front ++ [name] ∧
      ∀ directory, PathName.parent? path = some directory → s.below? directory = some front := by
  obtain ⟨front, name, hname, hcomponents, hdirectory⟩ := PathName.exists_name hnames
  simp only [below?, hcomponents] at hparts
  cases htest : (PathName.components s.home).isPrefixOf (front ++ [name]) &&
      PathName.isAbsolute s.home == PathName.isAbsolute path with
  | true =>
    rw [htest, if_pos rfl] at hparts
    obtain ⟨hstart, habsolute⟩ := Bool.and_eq_true_iff.1 htest
    -- The root itself is a directory, so the path name leads below it.
    have hhome : PathName.components s.home <+: front := by
      rw [List.isPrefixOf_iff_prefix] at hstart
      refine (List.prefix_concat_iff.1 hstart).resolve_left fun hall => ?_
      rw [hall, List.drop_length] at hparts
      exact hne (Option.some.inj hparts).symm
    rw [List.drop_append_of_le_length hhome.length_le] at hparts
    refine ⟨_, name, hname, (Option.some.inj hparts).symm, fun directory hparent => ?_⟩
    obtain ⟨rfl, hsame⟩ := hdirectory directory hparent
    simp only [below?, hsame, List.isPrefixOf_iff_prefix.2 hhome, habsolute, Bool.and_self, if_true]
  | false =>
    rw [htest, if_neg (by simp)] at hparts
    split_ifs at hparts with hroot
    refine ⟨front, name, hname, (Option.some.inj hparts).symm, fun directory hparent => ?_⟩
    obtain ⟨rfl, hsame⟩ := hdirectory directory hparent
    have hnot : ((PathName.components s.home).isPrefixOf (PathName.components directory) &&
        PathName.isAbsolute s.home == PathName.isAbsolute path) = false := by
      rw [Bool.and_eq_false_imp] at htest ⊢
      intro hhome
      exact htest (List.isPrefixOf_iff_prefix.2
        ((List.isPrefixOf_iff_prefix.1 hhome).trans (List.prefix_append _ [name])))
    simp only [below?, hsame]
    rw [hnot, if_neg (by simp), if_neg hroot]

/-- The way to the directory of a file is open, whether or not the file is there. -/
theorem open_of_locate (hlocate : s.locate path = .ok l)
    (hentry : s.entryAt? l ≠ some .directory) (hnames : PathName.namesDirectory path = false) :
    s.entryAt? l.dropLast = some .directory ∧
      ∀ directory, PathName.parent? path = some directory →
        s.createDirectories directory = .ok s := by
  unfold locate at hlocate
  split_ifs at hlocate
  cases hparts : s.below? path with
  | none => simp [hparts] at hlocate
  | some parts =>
    simp only [hparts] at hlocate
    have hne : parts ≠ [] := by
      rintro rfl
      obtain rfl : [] = l := by simpa [follow] using hlocate
      exact hentry (by simp [entryAt?])
    obtain ⟨front, name, hname, rfl, hfront⟩ := exists_name_below hnames hparts hne
    rw [follow_append] at hlocate
    cases hfollow : s.follow [] front with
    | error fault => simp [hfollow, Except.bind] at hlocate
    | ok here =>
      simp only [hfollow, Except.bind] at hlocate
      obtain ⟨hhere, -, hlast⟩ := follow_cons_eq_ok_iff.1 hlocate
      obtain rfl : here ++ [name] = l := by simpa [hname.2.2.2, follow] using hlast
      refine ⟨by simpa using hhere, fun directory hparent => ?_⟩
      simp only [createDirectories, hfront directory hparent]
      exact makeDirectories_of_follow hfollow hhere

/-- Where a file may stand, a text can be added. -/
theorem exists_append (hlocate : s.locate path = .ok l) (hentry : s.entryAt? l ≠ some .directory)
    (hnames : PathName.namesDirectory path = false) (text : String) :
    ∃ t, s.append path text = .ok t := by
  obtain ⟨hparent, -⟩ := open_of_locate hlocate hentry hnames
  obtain ⟨old, htarget⟩ : ∃ old, s.target path = .ok (l, old) := by
    cases hthere : s.entryAt? l with
    | none => exact ⟨none, by simp [target, hlocate, hthere, hparent, hnames, bind, Except.bind]⟩
    | some e =>
      cases e with
      | directory => exact absurd hthere hentry
      | file old => exact ⟨some old, by simp [target, hlocate, hthere, hnames, bind, Except.bind]⟩
  exact ⟨_, append_eq_ok_iff.2 ⟨l, old, htarget, rfl⟩⟩

end Storage

end PathSelection
