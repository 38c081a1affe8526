import PathSelection.Proofs.Storage.Edits
import PathSelection.Proofs.Traversal

/-!
# Replaced files

A file is put in place of another by way of a draft, and no directory is made for
that.  So a path name that leads elsewhere gives the same text before and after, or
gives none both times.

Main results:

- Theorem `Storage.place?_ne_of_components`: path names with different last components
  mean different places.
- Theorem `Storage.sameText_replace`: what a path name gives when files with other last
  components are written.
- Theorem `Storage.read_of_replace`: a file that was replaced gives its new text.
- Theorem `Storage.exists_replace_join`: what replacing a file changes in its directory.
-/

namespace PathSelection

namespace PathName

variable {path directory name : String} {before front : List Char}

/-- A name of more than two characters means no directory. -/
theorem isPlain_of_length (hslash : '/' ∉ name.toList) (hlong : 2 < name.toList.length) :
    IsPlain name := by
  refine ⟨hslash, ?_, ?_, ?_⟩ <;>
  · rintro rfl
    simp at hlong

/-- What stands behind the last slash of a path name is its last component. -/
theorem components_of_toList (h : IsPlain name)
    (hpath : path.toList = before ++ '/' :: name.toList) :
    components path = components (String.ofList before) ++ [name] := by
  have hname := components_of_isPlain h
  simp only [components] at hname
  simp only [components, hpath, splitOnChar_append_cons, List.map_append, List.filter_append, hname,
    String.toList_ofList]

/-- A path name keeps its last component when it is joined to a directory. -/
theorem exists_components_join (h : IsPlain name) (hpath : path.toList = front ++ name.toList)
    (hfront : front = [] ∨ ∃ before, front = before ++ ['/']) (directory : String) :
    ∃ parts, components (join directory path) = parts ++ [name] := by
  rcases hfront with rfl | ⟨before, rfl⟩
  · obtain rfl : path = name := String.toList_injective hpath
    exact ⟨_, components_join h⟩
  · have hjoin : ∃ more, (join directory path).toList = (more ++ before) ++ '/' :: name.toList := by
      unfold join
      split_ifs
      · exact ⟨[], by simp [hpath]⟩
      · exact ⟨directory.toList, by simp [hpath]⟩
      · exact ⟨directory.toList ++ ['/'], by simp [hpath]⟩
    obtain ⟨more, hmore⟩ := hjoin
    exact ⟨_, components_of_toList h hmore⟩

/-- A plain name joined to a directory is the last piece. -/
theorem getLast?_join (h : IsPlain name) (directory : String) :
    (splitOnChar '/' (join directory name).toList).getLast? = some name.toList := by
  have habsolute : isAbsolute name = false := by
    simp only [isAbsolute, beq_eq_false_iff_ne, ne_eq]
    exact fun hhead => h.1 (List.mem_of_head? hhead)
  have hlast (before : List Char) :
      (splitOnChar '/' (before ++ '/' :: name.toList)).getLast? = some name.toList := by
    rw [splitOnChar_append_cons, splitOnChar_of_not_mem h.1, List.getLast?_concat]
  unfold join
  split_ifs with halone hslash
  · rw [splitOnChar_of_not_mem h.1]
    rfl
  · obtain ⟨before, hbefore⟩ := List.getLast?_eq_some_iff.1 hslash
    have hchars : (directory ++ name).toList = before ++ '/' :: name.toList := by simp [hbefore]
    rw [hchars, hlast]
  · have hchars : (directory ++ "/" ++ name).toList = directory.toList ++ '/' :: name.toList := by
      simp
    rw [hchars, hlast]

/-- A plain name in a directory is no path name of a directory. -/
theorem namesDirectory_join (h : IsPlain name) (directory : String) :
    namesDirectory (join directory name) = false := by
  have hempty : name.toList ≠ [] := by simpa using h.2.1
  have hpoint : name.toList ≠ ['.'] := fun hname => h.2.2.1 (String.toList_injective hname)
  have hpoints : name.toList ≠ ['.', '.'] := fun hname => h.2.2.2 (String.toList_injective hname)
  simp [namesDirectory, getLast?_join h, hempty, hpoint, hpoints]

end PathName

namespace Storage

variable {s t u : Storage} {here l m : Location} {path other draft directory name name' text : String}
  {parts front front' : List String}

/-! ## Path names with different last components -/

/-- A path name means the root if it names the home, and else a place that ends as it does. -/
theorem place?_cases (h : PathName.components path = front ++ [name]) (hup : name ≠ "..")
    (hplace : s.place? path = some l) :
    (l = [] ∧ PathName.components s.home = front ++ [name]) ∨
      ∃ directory, l = directory ++ [name] := by
  have hend (parts : List String) : resolve [] (parts ++ [name]) = resolve [] parts ++ [name] := by
    rw [resolve_append, resolve, if_neg hup, resolve]
  obtain ⟨parts, hparts, rfl⟩ := Option.map_eq_some_iff.1 hplace
  unfold below? at hparts
  simp only [h] at hparts
  split_ifs at hparts with hhome
  · obtain rfl := Option.some.inj hparts
    rw [Bool.and_eq_true, List.isPrefixOf_iff_prefix] at hhome
    rcases List.prefix_concat_iff.1 hhome.1 with heq | hprefix
    · exact .inl ⟨by rw [heq, List.drop_length, resolve], heq⟩
    · exact .inr ⟨_, by rw [List.drop_append_of_le_length hprefix.length_le, hend]⟩
  · obtain rfl := Option.some.inj hparts
    exact .inr ⟨_, hend front⟩

/-- Path names with different last components mean different places. -/
theorem place?_ne_of_components (h : PathName.components path = front ++ [name]) (hup : name ≠ "..")
    (h' : PathName.components other = front' ++ [name']) (hup' : name' ≠ "..") (hne : name ≠ name')
    (hplace : s.place? path = some l) : s.place? other ≠ some l := by
  intro hother
  rcases place?_cases h hup hplace with ⟨rfl, hhome⟩ | ⟨directory, rfl⟩
  · rcases place?_cases h' hup' hother with ⟨_, hhome'⟩ | ⟨_, hl⟩
    · rw [hhome] at hhome'
      exact hne (List.append_inj_right' hhome' rfl |> List.singleton_inj.1)
    · simp at hl
  · rcases place?_cases h' hup' hother with ⟨hl, _⟩ | ⟨_, hl⟩
    · simp at hl
    · exact hne (List.append_inj_right' hl rfl |> List.singleton_inj.1)

/-! ## No new directories -/

/-- Every directory afterwards was one before. -/
def NoNewDirectory (s t : Storage) : Prop :=
  ∀ m, t.entryAt? m = some .directory → s.entryAt? m = some .directory

namespace NoNewDirectory

private theorem refl (s : Storage) : NoNewDirectory s s := fun _ h => h

/-- No directory is new after both of two edits that make none. -/
theorem trans (h : NoNewDirectory s t) (h' : NoNewDirectory t u) : NoNewDirectory s u :=
  fun m hm => h m (h' m hm)

private theorem put_file (s : Storage) (l : Location) (text : String) :
    NoNewDirectory s (s.put l (.file text)) := by
  intro m hm
  rcases eq_or_ne m l with rfl | hne
  · rcases eq_or_ne m [] with rfl | hroot
    · simp [entryAt?]
    · simp [entryAt?_put_self s hroot] at hm
  · rwa [entryAt?_put_of_ne s hne] at hm

private theorem erase (s : Storage) (l : Location) : NoNewDirectory s (s.erase l) := by
  intro m hm
  rcases eq_or_ne m [] with rfl | hroot
  · simp [entryAt?]
  · rw [entryAt?_erase s l hroot] at hm
    split_ifs at hm
    exact hm

private theorem of_write (h : s.write path text = .ok t) : NoNewDirectory s t := by
  obtain ⟨l, old, _, rfl⟩ := write_eq_ok_iff.1 h
  exact put_file s l text

private theorem of_rename (h : s.rename path other = .ok t) : NoNewDirectory s t := by
  obtain ⟨text, l, m, old, -, -, -, -, rfl⟩ := rename_eq_ok_iff.1 h
  split_ifs
  · exact refl s
  · exact (erase s l).trans (put_file _ _ _)

/-- Replacing a file makes no directory. -/
theorem replace (s : Storage) (draft path text : String) :
    NoNewDirectory s (s.replace draft path text).2 := by
  unfold Storage.replace
  cases hwrite : s.write draft text with
  | error fault => exact refl s
  | ok drafted =>
    cases hrename : drafted.rename draft path with
    | error fault => simpa only [hrename] using of_write hwrite
    | ok replaced => simpa only [hrename] using (of_write hwrite).trans (of_rename hrename)

end NoNewDirectory

/-- What can be followed without new directories could be followed before. -/
theorem follow_of_noNewDirectory (hnew : NoNewDirectory s t) (h : t.follow here parts = .ok l) :
    s.follow here parts = .ok l := by
  induction parts generalizing here with
  | nil => simpa [follow] using h
  | cons name rest ih =>
    obtain ⟨hhere, hshort, hrest⟩ := follow_cons_eq_ok_iff.1 h
    exact follow_cons_eq_ok_iff.2 ⟨hnew here hhere, hshort, ih hrest⟩

private theorem locate_of_noNewDirectory (hhome : t.home = s.home) (hnew : NoNewDirectory s t)
    (h : t.locate path = .ok l) : s.locate path = .ok l := by
  have hbelow : t.below? path = s.below? path := by simp only [below?, hhome]
  unfold locate at h ⊢
  rw [hbelow] at h
  split_ifs at h ⊢
  cases hparts : s.below? path with
  | none => simp [hparts] at h
  | some parts =>
    simp only [hparts] at h ⊢
    exact follow_of_noNewDirectory hnew h

/-! ## Texts of path names -/

/-- A path name gives the same text before and after, or gives none both times. -/
def SameText (path : String) (s t : Storage) : Prop :=
  (t.read path).toOption = (s.read path).toOption

/-- A text that stays the same twice stays the same. -/
theorem SameText.trans (h : SameText path s t) (h' : SameText path t u) : SameText path s u :=
  Eq.trans h' h

/-- A file with the same text is read again. -/
theorem SameText.read_eq_ok (h : SameText path s t) (hread : s.read path = .ok text) :
    t.read path = .ok text := by
  rw [SameText, hread] at h
  exact toOption_eq_some_iff.1 h

/-- Without new directories a path name that is left alone gives the same text. -/
theorem sameText_of_keeps (hkeeps : Keeps path s t) (hnew : NoNewDirectory s t) :
    SameText path s t := by
  have hback : ∀ text, t.read path = .ok text → s.read path = .ok text := by
    intro text hread
    obtain ⟨l, hlocate, hentry, hnames⟩ := read_eq_ok_iff.1 hread
    have hlocate' := locate_of_noNewDirectory hkeeps.home hnew hlocate
    obtain ⟨before, hbefore⟩ : ∃ before, s.entryAt? l = some (.file before) := by
      by_contra hno
      have hlacks : s.Lacks path := by
        intro k other hk hother
        obtain rfl : l = k := Option.some.inj ((place?_of_locate hlocate').symm.trans hk)
        exact hno ⟨other, hother⟩
      exact hkeeps.lacks hlacks l text (place?_of_locate hlocate) hentry
    have hread' := read_eq_ok_iff.2 ⟨l, hlocate', hbefore, hnames⟩
    rw [hread', ← hkeeps.read _ hread', hread]
  unfold SameText
  cases hread : t.read path with
  | ok text => rw [hback text hread]
  | error fault =>
    cases hread' : s.read path with
    | ok text => simp [hkeeps.read text hread'] at hread
    | error fault' => rfl

/-- What a path name gives when files with other last components are written. -/
theorem sameText_replace (h : PathName.components path = front ++ [name]) (hup : name ≠ "..")
    (hdraft : ∃ parts last, PathName.components draft = parts ++ [last] ∧ last ≠ ".." ∧ name ≠ last)
    (hother : ∃ parts last, PathName.components other = parts ++ [last] ∧ last ≠ ".." ∧ name ≠ last)
    (s : Storage) (text : String) : SameText path s (s.replace draft other text).2 := by
  refine sameText_of_keeps ((edits_replace s draft other text).keeps fun l hl htouched => ?_)
    (.replace s draft other text)
  rcases htouched with htouched | htouched
  · obtain ⟨parts, last, hparts, hup', hne⟩ := hdraft
    exact place?_ne_of_components h hup hparts hup' hne hl htouched
  · obtain ⟨parts, last, hparts, hup', hne⟩ := hother
    exact place?_ne_of_components h hup hparts hup' hne hl htouched

/-! ## What replacing does -/

private theorem replace_eq_ok_iff :
    s.replace draft path text = (.ok (), t) ↔
      ∃ drafted, s.write draft text = .ok drafted ∧ drafted.rename draft path = .ok t := by
  unfold replace
  cases s.write draft text with
  | error fault => simp
  | ok drafted =>
    cases hrename : drafted.rename draft path with
    | error fault => simp [hrename]
    | ok replaced => simp [hrename]

/-- A file that was put in place of another has the new text. -/
theorem read_of_replace (h : s.replace draft path text = (.ok (), t)) : t.read path = .ok text := by
  obtain ⟨drafted, hwrite, hrename⟩ := replace_eq_ok_iff.1 h
  obtain ⟨l, old, htarget, rfl⟩ := write_eq_ok_iff.1 hwrite
  obtain ⟨text', l', m, old', hlocate, hfile, -, htarget', rfl⟩ := rename_eq_ok_iff.1 hrename
  have hfree := entryAt?_ne_directory_of_target htarget
  obtain rfl : l = l' :=
    Except.ok.inj ((locate_put hfree (of_target htarget).1).symm.trans hlocate)
  obtain rfl : text = text' := by
    simpa [entryAt?_put_self s (ne_nil_of_entryAt?_ne_directory hfree)] using hfile
  obtain ⟨hlocate', -, hnames⟩ := of_target htarget'
  have hfree' := entryAt?_ne_directory_of_target htarget'
  have hroot := ne_nil_of_entryAt?_ne_directory hfree'
  split_ifs with hsame
  · subst hsame
    exact read_eq_ok_iff.2 ⟨l, hlocate', hfile, hnames⟩
  · obtain ⟨herased, hbelow⟩ := locate_erase hfile hlocate' (Ne.symm hsame)
    have hempty : ((s.put l (.file text)).erase l).entryAt? m ≠ some .directory := by
      rwa [entryAt?_erase _ l hroot, if_neg (by simpa using hbelow)]
    exact read_eq_ok_iff.2 ⟨m, locate_put hempty herased, entryAt?_put_self _ hroot _, hnames⟩

/-- What is neither at the place of a file that is put in place of another nor below its draft is
left alone. -/
theorem entryAt?_replace (hm : m ≠ []) (hdraft : ∀ l, s.place? draft = some l → ¬ l <+: m)
    (hpath : s.place? path ≠ some m) :
    (s.replace draft path text).2.entryAt? m = s.entryAt? m := by
  unfold replace
  cases hwrite : s.write draft text with
  | error fault => rfl
  | ok drafted =>
    obtain ⟨l, old, htarget, rfl⟩ := write_eq_ok_iff.1 hwrite
    have hbelow := hdraft l (place?_of_locate (of_target htarget).1)
    have hne : m ≠ l := by
      rintro rfl
      exact hbelow (List.prefix_refl m)
    cases hrename : (s.put l (.file text)).rename draft path with
    | error fault =>
      simp only [hrename]
      exact entryAt?_put_of_ne s hne _
    | ok replaced =>
      obtain ⟨text', l', k, old', hlocate, -, -, htarget', rfl⟩ := rename_eq_ok_iff.1 hrename
      obtain rfl : l = l' := Except.ok.inj
        ((locate_put (entryAt?_ne_directory_of_target htarget) (of_target htarget).1).symm.trans
          hlocate)
      have hplace : (s.put l (.file text)).place? path = some k :=
        place?_of_locate (of_target htarget').1
      have hk : m ≠ k := by
        rintro rfl
        exact hpath hplace
      simp only [hrename]
      split_ifs
      · exact entryAt?_put_of_ne s hne _
      · rw [entryAt?_put_of_ne _ hk, entryAt?_erase _ l hm, if_neg (by simpa using hbelow),
          entryAt?_put_of_ne s hne]

/-! ## Plain names in an open directory -/

section Directories

variable (hopen : s.Opens directory l) (hhome : PathName.isAbsolute s.home = true)
  (h : PathName.IsPlain name)

include hopen hhome h

/-- What is read under a plain name in an open directory. -/
theorem read_join :
    s.read (PathName.join directory name) =
      if nameLimit < name.utf8ByteSize then .error .nameTooLong
      else match s.entryAt? (l ++ [name]) with
        | some (.file text) => .ok text
        | some .directory => .error .isADirectory
        | none => .error .notFound := by
  rw [read, locate_join hopen h hhome]
  by_cases hlong : nameLimit < name.utf8ByteSize
  · simp only [if_pos hlong, bind, Except.bind]
  · cases hentry : s.entryAt? (l ++ [name]) with
    | none => simp [hlong, bind, Except.bind, hentry]
    | some e =>
      cases e <;> simp [hlong, bind, Except.bind, hentry, PathName.namesDirectory_join h]

/-- A file may be written under a plain name in an open directory where there is no directory. -/
theorem target_join (hshort : name.utf8ByteSize ≤ nameLimit)
    (hfree : s.entryAt? (l ++ [name]) ≠ some .directory) :
    ∃ old, s.target (PathName.join directory name) = .ok (l ++ [name], old) := by
  have hdirectory : s.entryAt? l = some .directory := by
    obtain ⟨_, _, _, hentry⟩ := hopen
    exact hentry
  simp only [target, locate_join hopen h hhome, if_neg (Nat.not_lt.2 hshort), bind, Except.bind,
    PathName.namesDirectory_join h, Bool.false_eq_true, if_false, List.dropLast_concat, hdirectory,
    bne_self_eq_false]
  cases hentry : s.entryAt? (l ++ [name]) with
  | none => exact ⟨none, rfl⟩
  | some e =>
    cases e with
    | file text => exact ⟨some text, rfl⟩
    | directory => exact absurd hentry hfree

/-- There is something under a plain name in an open directory if there is at its place. -/
theorem exists?_join :
    s.exists? (PathName.join directory name) = .ok true ↔
      name.utf8ByteSize ≤ nameLimit ∧ (s.entryAt? (l ++ [name])).isSome := by
  unfold exists?
  rw [locate_join hopen h hhome]
  by_cases hlong : nameLimit < name.utf8ByteSize
  · simp [hlong, Nat.not_le.2 hlong]
  · simp only [if_neg hlong, Nat.not_lt.1 hlong, PathName.namesDirectory_join h, Bool.false_eq_true,
      if_false, true_and]
    cases s.entryAt? (l ++ [name]) with
    | none => simp
    | some e => cases e <;> simp

/-- In an open directory a file is put in place of another if there is no directory in the way.
Nothing but the file changes, and no draft is left. -/
theorem exists_replace_join (hdraft : PathName.IsPlain draft) (hne : draft ≠ name)
    (hshort : name.utf8ByteSize ≤ nameLimit) (hshort' : draft.utf8ByteSize ≤ nameLimit)
    (hfree : s.entryAt? (l ++ [name]) ≠ some .directory)
    (hfree' : s.entryAt? (l ++ [draft]) ≠ some .directory) (text : String) :
    ∃ t, s.replace (PathName.join directory draft) (PathName.join directory name) text =
        (.ok (), t) ∧
      ∀ other, t.entryAt? (l ++ [other]) = if other = name then some (.file text)
        else if other = draft then none else s.entryAt? (l ++ [other]) := by
  have hroot (other : String) : l ++ [other] ≠ [] := by simp
  have hsingle {one other : String} (hdiffer : one ≠ other) : l ++ [one] ≠ l ++ [other] := by
    simpa using hdiffer
  obtain ⟨old, htarget⟩ := target_join hopen hhome hdraft hshort' hfree'
  obtain ⟨u, hu⟩ : ∃ u, u = s.put (l ++ [draft]) (.file text) := ⟨_, rfl⟩
  have hdrafted : u.entryAt? (l ++ [draft]) = some (.file text) :=
    hu ▸ entryAt?_put_self s (hroot draft) _
  have hopen' : u.Opens directory l := hu ▸ opens_put hfree' hopen
  have hhome' : PathName.isAbsolute u.home = true := hu ▸ hhome
  obtain ⟨old', htarget'⟩ := target_join hopen' hhome' h hshort
    (by rwa [hu, entryAt?_put_of_ne s (hsingle hne.symm)])
  have hlocate : u.locate (PathName.join directory draft) = .ok (l ++ [draft]) := by
    rw [locate_join hopen' hdraft hhome', if_neg (Nat.not_lt.2 hshort')]
  refine ⟨_, replace_eq_ok_iff.2 ⟨u, write_eq_ok_iff.2 ⟨_, old, htarget, hu.symm⟩,
    rename_eq_ok_iff.2 ⟨text, _, _, old', hlocate, hdrafted, PathName.namesDirectory_join hdraft _,
      htarget', if_neg (hsingle hne)⟩⟩, fun other => ?_⟩
  by_cases hname : other = name
  · rw [if_pos hname, hname, entryAt?_put_self _ (hroot name)]
  · rw [if_neg hname, entryAt?_put_of_ne _ (hsingle hname), entryAt?_erase _ _ (hroot other)]
    by_cases hother : other = draft
    · simp [hother]
    · have hbelow : ¬ l ++ [draft] <+: l ++ [other] := by
        rw [List.prefix_append_right_inj]
        simpa using Ne.symm hother
      rw [if_neg (by simpa using hbelow), if_neg hother, hu,
        entryAt?_put_of_ne s (hsingle hother)]

end Directories

end Storage

end PathSelection
