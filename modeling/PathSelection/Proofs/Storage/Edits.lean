import Mathlib.Data.List.Infix
import Mathlib.Tactic.SplitIfs
import PathSelection.Storage.Basic

/-!
# Edits of storage

What an operation leaves alone.  Every operation is a chain of edits, each of
which puts a file where there is no directory, takes a file away or makes a
directory where there is nothing.  A path name is taken to the place that its
components mean, so that two path names for one place are told from two places.

Main results:

- Theorem `Edits.keeps`: edits at other places leave what a path name leads to.
- Theorem `Edits.opens`: edits leave directories open.
- Theorem `locate_join`: where a name in an open directory leads.
- Theorem `read_of_keeps`: what is read in an open directory after edits was read before.
- Theorem `read_of_append`: a file after a text was added at its end.
-/

namespace PathSelection.Storage

variable {s t u : Storage} {here l m : Location} {path : String}

/-! ## Places of path names -/

/-- The place that components mean from another place on. -/
def resolve : Location → List String → Location
  | here, [] => here
  | here, name :: rest => resolve (if name = ".." then here.dropLast else here ++ [name]) rest

/-- The place that a path name means, whatever is there and on the way. -/
def place? (s : Storage) (path : String) : Option Location := (s.below? path).map (resolve [])

/-- Storages with the same working directory have the same places. -/
theorem place?_congr (h : t.home = s.home) : t.place? path = s.place? path := by
  simp only [place?, below?, h]

/-- Components are resolved one after the other. -/
theorem resolve_append (here : Location) (parts rest : List String) :
    resolve here (parts ++ rest) = resolve (resolve here parts) rest := by
  induction parts generalizing here with
  | nil => rfl
  | cons name parts ih => exact ih _

/-- Following goes on through directories only. -/
theorem follow_cons_eq_ok_iff {name : String} {rest : List String} :
    s.follow here (name :: rest) = .ok l ↔ s.entryAt? here = some .directory ∧
      (name ≠ ".." → name.utf8ByteSize ≤ nameLimit) ∧
      s.follow (if name = ".." then here.dropLast else here ++ [name]) rest = .ok l := by
  rw [follow]
  cases hentry : s.entryAt? here with
  | none => simp
  | some e =>
    cases e with
    | file text => simp
    | directory =>
      by_cases hup : name = ".."
      · simp [hup]
      · by_cases hlong : nameLimit < name.utf8ByteSize
        · simp [hup, hlong, Nat.not_le.2 hlong]
        · simp [hup, hlong, Nat.le_of_not_lt hlong]

/-- Following leads to the place that the components mean. -/
theorem resolve_of_follow {parts : List String} (h : s.follow here parts = .ok l) :
    resolve here parts = l := by
  induction parts generalizing here with
  | nil => simpa [follow, resolve] using h
  | cons name rest ih => exact ih (follow_cons_eq_ok_iff.1 h).2.2

/-- Where a path name leads is its place. -/
theorem place?_of_locate (h : s.locate path = .ok l) : s.place? path = some l := by
  unfold locate at h
  split_ifs at h
  split at h
  · rename_i parts hparts
    simp [place?, hparts, resolve_of_follow h]
  · cases h

/-- Files are read, unless the path name is that of a directory. -/
theorem read_eq_ok_iff {text : String} :
    s.read path = .ok text ↔ ∃ l, s.locate path = .ok l ∧ s.entryAt? l = some (.file text) ∧
      PathName.namesDirectory path = false := by
  unfold read
  cases hlocate : s.locate path with
  | error fault => simp [bind, Except.bind]
  | ok l =>
    simp only [bind, Except.bind, Except.ok.injEq, exists_eq_left']
    cases hentry : s.entryAt? l with
    | none => simp
    | some e =>
      cases e with
      | directory => simp
      | file old => cases PathName.namesDirectory path <;> simp

/-! ## Edits -/

/-- A chain of edits which puts and takes away files only at places of some kind. -/
inductive Edits (touched : Location → Prop) : Storage → Storage → Prop
  | refl (s : Storage) : Edits touched s s
  | file {s t : Storage} {l : Location} {text : String} (before : Edits touched s t)
      (htouched : touched l) (free : t.entryAt? l ≠ some .directory) :
      Edits touched s (t.put l (.file text))
  | remove {s t : Storage} {l : Location} {text : String} (before : Edits touched s t)
      (htouched : touched l) (there : t.entryAt? l = some (.file text)) :
      Edits touched s (t.erase l)
  | directory {s t : Storage} {l : Location} (before : Edits touched s t)
      (empty : t.entryAt? l = none) : Edits touched s (t.put l .directory)

namespace Edits

variable {touched wider : Location → Prop}

/-- Edits one after the other touch what either may touch. -/
theorem trans (h : Edits touched s t) (h' : Edits touched t u) : Edits touched s u := by
  induction h' with
  | refl => exact h
  | file _ htouched free ih => exact .file ih htouched free
  | remove _ htouched there ih => exact .remove ih htouched there
  | directory _ empty ih => exact .directory ih empty

/-- Edits may be said to touch more. -/
theorem mono (h : Edits touched s t) (hwider : ∀ l, touched l → wider l) : Edits wider s t := by
  induction h with
  | refl => exact .refl _
  | file _ htouched free ih => exact .file ih (hwider _ htouched) free
  | remove _ htouched there ih => exact .remove ih (hwider _ htouched) there
  | directory _ empty ih => exact .directory ih empty

/-- Edits leave the working directory as it is. -/
theorem home (h : Edits touched s t) : t.home = s.home := by
  induction h with
  | refl => rfl
  | file _ _ _ ih => exact ih
  | remove _ _ _ ih => exact ih
  | directory _ _ ih => exact ih

end Edits

private theorem ne_nil_of_entryAt? {e : StorageEntry} (h : s.entryAt? l = some e)
    (hne : e ≠ .directory) : l ≠ [] := by
  rintro rfl
  exact hne (Option.some.inj (by simpa [entryAt?] using h.symm))

/-- The root is a directory. -/
theorem ne_nil_of_entryAt?_ne_directory (h : s.entryAt? l ≠ some .directory) : l ≠ [] := by
  rintro rfl
  exact h (by simp [entryAt?])

/-- Where there is no directory, something may be put without closing a way. -/
theorem follow_put {e : StorageEntry} {parts : List String}
    (hm : s.entryAt? m ≠ some .directory) (h : s.follow here parts = .ok l) :
    (s.put m e).follow here parts = .ok l := by
  induction parts generalizing here with
  | nil => simpa [follow] using h
  | cons name rest ih =>
    obtain ⟨hhere, hshort, hrest⟩ := follow_cons_eq_ok_iff.1 h
    have hne : here ≠ m := by
      rintro rfl
      exact hm hhere
    exact follow_cons_eq_ok_iff.2 ⟨by rw [entryAt?_put_of_ne s hne, hhere], hshort, ih hrest⟩

/-- Following from a file leads nowhere else. -/
theorem eq_of_follow_of_file {text : String} {parts : List String}
    (hhere : s.entryAt? here = some (.file text)) (h : s.follow here parts = .ok l) : l = here := by
  cases parts with
  | nil => simpa [follow] using h.symm
  | cons name rest =>
    have hdirectory := (follow_cons_eq_ok_iff.1 h).1
    simp [hhere] at hdirectory

/-- A file may be taken away without closing a way that leads elsewhere. -/
theorem follow_erase {text : String} {parts : List String}
    (hm : s.entryAt? m = some (.file text)) (hhere : ¬ m <+: here)
    (h : s.follow here parts = .ok l) (hl : l ≠ m) :
    (s.erase m).follow here parts = .ok l ∧ ¬ m <+: l := by
  induction parts generalizing here with
  | nil =>
    obtain rfl : here = l := by simpa [follow] using h
    exact ⟨rfl, hhere⟩
  | cons name rest ih =>
    obtain ⟨hentry, hshort, hrest⟩ := follow_cons_eq_ok_iff.1 h
    have hkept : (s.erase m).entryAt? here = some .directory := by
      rcases eq_or_ne here [] with rfl | hne
      · simp [entryAt?]
      · rw [entryAt?_erase s m hne, if_neg (by simpa using hhere), hentry]
    -- a step below the file would have to go through it
    have hnext : ¬ m <+: (if name = ".." then here.dropLast else here ++ [name]) := by
      split_ifs with hup
      · exact fun hstart => hhere (hstart.trans (List.dropLast_prefix here))
      · intro hstart
        rcases List.prefix_concat_iff.1 hstart with rfl | hstart
        · rw [if_neg hup] at hrest
          exact hl (eq_of_follow_of_file hm hrest)
        · exact hhere hstart
    obtain ⟨hfollow, hbelow⟩ := ih hnext hrest
    exact ⟨follow_cons_eq_ok_iff.2 ⟨hkept, hshort, hfollow⟩, hbelow⟩

/-! ## What edits keep -/

/-- There is no file at the place that a path name means. -/
def Lacks (s : Storage) (path : String) : Prop :=
  ∀ l text, s.place? path = some l → s.entryAt? l ≠ some (.file text)

/-- A path name leads to the same text as before, if it did, and no file has come to its place. -/
structure Keeps (path : String) (s t : Storage) : Prop where
  home : t.home = s.home
  read : ∀ text, s.read path = .ok text → t.read path = .ok text
  lacks : s.Lacks path → t.Lacks path

namespace Keeps

/-- A storage keeps its own files. -/
theorem refl (path : String) (s : Storage) : Keeps path s s := ⟨rfl, fun _ h => h, fun h => h⟩

/-- A file that is kept twice is kept. -/
theorem trans (h : Keeps path s t) (h' : Keeps path t u) : Keeps path s u :=
  ⟨h'.home.trans h.home, fun text hread => h'.read text (h.read text hread),
    fun hlacks => h'.lacks (h.lacks hlacks)⟩

end Keeps

/-- A directory name through which a place can be reached, which is a directory. -/
def Opens (s : Storage) (directory : String) (l : Location) : Prop :=
  ∃ parts, s.below? directory = some parts ∧ s.follow [] parts = .ok l ∧
    s.entryAt? l = some .directory

section Steps

variable {e : StorageEntry} {text : String}

/-- A path name leads to the same place when something is put where no directory was. -/
theorem locate_put (hm : s.entryAt? m ≠ some .directory) (h : s.locate path = .ok l) :
    (s.put m e).locate path = .ok l := by
  have hbelow : (s.put m e).below? path = s.below? path := rfl
  unfold locate at h ⊢
  rw [hbelow]
  split_ifs at h ⊢
  cases hparts : s.below? path with
  | none => simp [hparts] at h
  | some parts =>
    simp only [hparts] at h ⊢
    exact follow_put hm h

/-- A path name leads to the same place when another file is erased. -/
theorem locate_erase (hm : s.entryAt? m = some (.file text)) (h : s.locate path = .ok l)
    (hl : l ≠ m) : (s.erase m).locate path = .ok l ∧ ¬ m <+: l := by
  have hbelow : (s.erase m).below? path = s.below? path := rfl
  have hroot : ¬ m <+: [] := by
    simpa using ne_nil_of_entryAt? hm (by simp)
  unfold locate at h ⊢
  rw [hbelow]
  split_ifs at h ⊢
  cases hparts : s.below? path with
  | none => simp [hparts] at h
  | some parts =>
    simp only [hparts] at h ⊢
    exact follow_erase hm hroot h hl

private theorem keeps_put_file (hm : s.entryAt? m ≠ some .directory)
    (hne : s.place? path ≠ some m) :
    Keeps path s (s.put m (.file text)) := by
  refine ⟨rfl, fun old hread => ?_, fun hlacks l old hl => ?_⟩
  · obtain ⟨l, hlocate, hentry, hnames⟩ := read_eq_ok_iff.1 hread
    have hl : l ≠ m := by
      rintro rfl
      exact hne (place?_of_locate hlocate)
    exact read_eq_ok_iff.2 ⟨l, locate_put hm hlocate, by rw [entryAt?_put_of_ne s hl, hentry], hnames⟩
  · have hl' : s.place? path = some l := hl
    have hlm : l ≠ m := by
      rintro rfl
      exact hne hl'
    rw [entryAt?_put_of_ne s hlm]
    exact hlacks l old hl'

private theorem keeps_put_directory (hm : s.entryAt? m = none) :
    Keeps path s (s.put m .directory) := by
  have hroot : m ≠ [] := by
    rintro rfl
    simp [entryAt?] at hm
  refine ⟨rfl, fun old hread => ?_, fun hlacks l old hl => ?_⟩
  · obtain ⟨l, hlocate, hentry, hnames⟩ := read_eq_ok_iff.1 hread
    have hl : l ≠ m := by
      rintro rfl
      simp [hm] at hentry
    exact read_eq_ok_iff.2
      ⟨l, locate_put (by simp [hm]) hlocate, by rw [entryAt?_put_of_ne s hl, hentry], hnames⟩
  · have hl' : s.place? path = some l := hl
    rcases eq_or_ne l m with rfl | hlm
    · simp [entryAt?_put_self s hroot]
    · rw [entryAt?_put_of_ne s hlm]
      exact hlacks l old hl'

private theorem keeps_erase (hm : s.entryAt? m = some (.file text)) (hne : s.place? path ≠ some m) :
    Keeps path s (s.erase m) := by
  refine ⟨rfl, fun old hread => ?_, fun hlacks l old hl => ?_⟩
  · obtain ⟨l, hlocate, hentry, hnames⟩ := read_eq_ok_iff.1 hread
    have hl : l ≠ m := by
      rintro rfl
      exact hne (place?_of_locate hlocate)
    obtain ⟨hlocate', hbelow⟩ := locate_erase hm hlocate hl
    refine read_eq_ok_iff.2 ⟨l, hlocate', ?_, hnames⟩
    rw [entryAt?_erase s m (ne_nil_of_entryAt? hentry (by simp)), if_neg (by simpa using hbelow),
      hentry]
  · have hl' : s.place? path = some l := hl
    rcases eq_or_ne l [] with rfl | hroot
    · simp [entryAt?]
    · rw [entryAt?_erase s m hroot]
      split_ifs
      · simp
      · exact hlacks l old hl'

/-- A directory stays open when something is put where no directory was. -/
theorem opens_put {directory : String} (hm : s.entryAt? m ≠ some .directory)
    (h : s.Opens directory l) : (s.put m e).Opens directory l := by
  obtain ⟨parts, hparts, hfollow, hentry⟩ := h
  have hl : l ≠ m := by
    rintro rfl
    exact hm hentry
  exact ⟨parts, hparts, follow_put hm hfollow, by rw [entryAt?_put_of_ne s hl, hentry]⟩

private theorem opens_erase {directory : String} (hm : s.entryAt? m = some (.file text))
    (h : s.Opens directory l) : (s.erase m).Opens directory l := by
  obtain ⟨parts, hparts, hfollow, hentry⟩ := h
  have hl : l ≠ m := by
    rintro rfl
    simp [hentry] at hm
  have hroot : ¬ m <+: [] := by
    simpa using ne_nil_of_entryAt? hm (by simp)
  obtain ⟨hfollow', hbelow⟩ := follow_erase hm hroot hfollow hl
  refine ⟨parts, hparts, hfollow', ?_⟩
  rcases eq_or_ne l [] with rfl | hne
  · simp [entryAt?]
  · rw [entryAt?_erase s m hne, if_neg (by simpa using hbelow), hentry]

end Steps

namespace Edits

variable {touched : Location → Prop}

/-- Edits at other places leave what a path name leads to. -/
theorem keeps (h : Edits touched s t) (hpath : ∀ l, s.place? path = some l → ¬ touched l) :
    Keeps path s t := by
  induction h with
  | refl => exact .refl path _
  | @file u l text before htouched free ih =>
    have hplace : u.place? path = s.place? path := place?_congr before.home
    exact ih.trans (keeps_put_file free fun hl => hpath l (hplace ▸ hl) htouched)
  | @remove u l text before htouched there ih =>
    have hplace : u.place? path = s.place? path := place?_congr before.home
    exact ih.trans (keeps_erase there fun hl => hpath l (hplace ▸ hl) htouched)
  | directory _ empty ih => exact ih.trans (keeps_put_directory empty)

/-- Edits leave directories open. -/
theorem opens {directory : String} (h : Edits touched s t) (hopen : s.Opens directory l) :
    t.Opens directory l := by
  induction h with
  | refl => exact hopen
  | file _ _ free ih => exact opens_put free ih
  | remove _ _ there ih => exact opens_erase there ih
  | directory _ empty ih => exact opens_put (by simp [empty]) ih

end Edits

/-! ## Operations as edits -/

section Operations

variable {text : String} {old : Option String}

/-- A file may be written where a path name leads to a file or to nothing. -/
theorem of_target (h : s.target path = .ok (l, old)) :
    s.locate path = .ok l ∧ s.entryAt? l = old.map .file ∧
      PathName.namesDirectory path = false := by
  unfold target at h
  cases hlocate : s.locate path with
  | error fault => simp [hlocate, bind, Except.bind] at h
  | ok m =>
    simp only [hlocate, bind, Except.bind] at h
    split at h
    · cases h
    · split_ifs at h with hnames
      obtain ⟨rfl, rfl⟩ : m = l ∧ _ = old := by simpa using h
      exact ⟨rfl, by assumption, by simpa using hnames⟩
    · split_ifs at h with hparent hnames
      obtain ⟨rfl, rfl⟩ : m = l ∧ none = old := by simpa using h
      exact ⟨rfl, by assumption, by simpa using hnames⟩

/-- Writing puts a file at the target. -/
theorem write_eq_ok_iff :
    s.write path text = .ok t ↔
      ∃ l old, s.target path = .ok (l, old) ∧ s.put l (.file text) = t := by
  unfold write
  cases s.target path with
  | error fault => simp [bind, Except.bind]
  | ok target => simp [bind, Except.bind, pure, Except.pure, Prod.ext_iff]

/-- Appending puts a file with more text at the target. -/
theorem append_eq_ok_iff :
    s.append path text = .ok t ↔
      ∃ l old, s.target path = .ok (l, old) ∧ s.put l (.file (old.getD "" ++ text)) = t := by
  unfold append
  cases s.target path with
  | error fault => simp [bind, Except.bind]
  | ok target =>
    simp [bind, Except.bind, pure, Except.pure, Prod.ext_iff]

/-- No directory is a target. -/
theorem entryAt?_ne_directory_of_target (h : s.target path = .ok (l, old)) :
    s.entryAt? l ≠ some .directory := by
  rw [(of_target h).2.1]
  cases old <;> simp

private theorem edits_of_write (h : s.write path text = .ok t) :
    Edits (s.place? path = some ·) s t := by
  obtain ⟨l, old, htarget, rfl⟩ := write_eq_ok_iff.1 h
  exact .file (.refl s) (place?_of_locate (of_target htarget).1)
    (entryAt?_ne_directory_of_target htarget)

/-- Appending touches its file only. -/
theorem edits_of_append (h : s.append path text = .ok t) : Edits (s.place? path = some ·) s t := by
  obtain ⟨l, old, htarget, rfl⟩ := append_eq_ok_iff.1 h
  exact .file (.refl s) (place?_of_locate (of_target htarget).1)
    (entryAt?_ne_directory_of_target htarget)

/-- A file that is renamed is taken away and put at its new place, if that is another one. -/
theorem rename_eq_ok_iff {source destination : String} :
    s.rename source destination = .ok t ↔
      ∃ text l m old, s.locate source = .ok l ∧ s.entryAt? l = some (.file text) ∧
        PathName.namesDirectory source = false ∧ s.target destination = .ok (m, old) ∧
        (if l = m then s else (s.erase l).put m (.file text)) = t := by
  unfold rename
  constructor
  · intro h
    cases hread : s.read source with
    | error fault => simp [hread, bind, Except.bind] at h
    | ok text =>
      obtain ⟨l, hlocate, hfile, hnames⟩ := read_eq_ok_iff.1 hread
      cases htarget : s.target destination with
      | error fault => simp [hread, hlocate, htarget, bind, Except.bind] at h
      | ok target =>
        simp only [hread, hlocate, htarget, bind, Except.bind, pure, Except.pure,
          Except.ok.injEq] at h
        exact ⟨text, l, target.1, target.2, hlocate, hfile, hnames, rfl, h⟩
  · rintro ⟨text, l, m, old, hlocate, hfile, hnames, htarget, rfl⟩
    have hread := read_eq_ok_iff.2 ⟨l, hlocate, hfile, hnames⟩
    simp only [hread, hlocate, htarget, bind, Except.bind, pure, Except.pure]

private theorem edits_of_rename {source destination : String}
    (h : s.rename source destination = .ok t) :
    Edits (fun l => s.place? source = some l ∨ s.place? destination = some l) s t := by
  obtain ⟨text, l, m, old, hlocate, hfile, -, htarget, rfl⟩ := rename_eq_ok_iff.1 h
  split_ifs with hsame
  · exact .refl s
  · have hm := entryAt?_ne_directory_of_target htarget
    have hfree : (s.erase l).entryAt? m ≠ some .directory := by
      rw [entryAt?_erase s l (ne_nil_of_entryAt?_ne_directory hm)]
      split_ifs
      · simp
      · exact hm
    exact .file (.remove (.refl s) (.inl (place?_of_locate hlocate)) hfile)
      (.inr (place?_of_locate (of_target htarget).1)) hfree

/-- Replacing touches the draft and the file only. -/
theorem edits_replace (s : Storage) (draft path text : String) :
    Edits (fun l => s.place? draft = some l ∨ s.place? path = some l) s
      (s.replace draft path text).2 := by
  unfold replace
  cases hwrite : s.write draft text with
  | error fault => exact .refl s
  | ok drafted =>
    have hdrafted := (edits_of_write hwrite).mono fun l hl => Or.inl (b := s.place? path = some l) hl
    cases hrename : drafted.rename draft path with
    | error fault => simpa only [hrename] using hdrafted
    | ok replaced =>
      simp only [hrename]
      refine hdrafted.trans ((edits_of_rename hrename).mono fun l hl => ?_)
      simpa only [place?_congr hdrafted.home] using hl

private theorem edits_of_makeDirectories {parts : List String}
    (h : s.makeDirectories here parts = .ok t) : Edits (fun _ => False) s t := by
  induction parts generalizing s here with
  | nil =>
    obtain rfl : s = t := by simpa [makeDirectories] using h
    exact .refl s
  | cons name rest ih =>
    rw [makeDirectories] at h
    by_cases hup : name = ".."
    · rw [if_pos hup] at h
      exact ih h
    · rw [if_neg hup] at h
      by_cases hlong : nameLimit < name.utf8ByteSize
      · rw [if_pos hlong] at h
        cases h
      · rw [if_neg hlong] at h
        cases hentry : s.entryAt? (here ++ [name]) with
        | none =>
          simp only [hentry] at h
          exact Edits.trans (.directory (.refl s) hentry) (ih h)
        | some e =>
          cases e with
          | directory =>
            simp only [hentry] at h
            exact ih h
          | file text => simp [hentry] at h

/-- Making directories touches nothing that is there. -/
theorem edits_of_createDirectories {directory : String}
    (h : s.createDirectories directory = .ok t) : Edits (fun _ => False) s t := by
  unfold createDirectories at h
  split at h
  · exact edits_of_makeDirectories h
  · cases h

/-- After a text was added at the end of a file, the file has the old text with the new one after
it; where there was no file, it has the new text alone. -/
theorem read_of_append (h : s.append path text = .ok t) :
    (s.Lacks path ∧ t.read path = .ok text) ∨
      ∃ old, s.read path = .ok old ∧ t.read path = .ok (old ++ text) := by
  obtain ⟨l, old, htarget, rfl⟩ := append_eq_ok_iff.1 h
  obtain ⟨hlocate, hentry, hnames⟩ := of_target htarget
  have hfree := entryAt?_ne_directory_of_target htarget
  have hread : (s.put l (.file (old.getD "" ++ text))).read path = .ok (old.getD "" ++ text) :=
    read_eq_ok_iff.2 ⟨l, locate_put hfree hlocate,
      entryAt?_put_self s (ne_nil_of_entryAt?_ne_directory hfree) _, hnames⟩
  cases old with
  | none =>
    refine .inl ⟨fun m other hm => ?_, by simpa using hread⟩
    obtain rfl : l = m := Option.some.inj ((place?_of_locate hlocate).symm.trans hm)
    simp [hentry]
  | some old => exact .inr ⟨old, read_eq_ok_iff.2 ⟨l, hlocate, hentry, hnames⟩, hread⟩

end Operations

/-! ## Names in a directory -/

section Directories

variable {directory name : String}

/-- Components are followed one after the other. -/
theorem follow_append {parts rest : List String} :
    s.follow here (parts ++ rest) = (s.follow here parts).bind (s.follow · rest) := by
  induction parts generalizing here with
  | nil => rfl
  | cons first parts ih =>
    simp only [List.cons_append, follow]
    cases s.entryAt? here with
    | none => rfl
    | some e =>
      cases e with
      | file text => rfl
      | directory =>
        simp only
        split_ifs
        · exact ih
        · rfl
        · exact ih

private theorem isAbsolute_join (h : PathName.IsPlain name) :
    PathName.isAbsolute (PathName.join directory name) = PathName.isAbsolute directory := by
  have hname : PathName.isAbsolute name = false := by
    simp only [PathName.isAbsolute, beq_eq_false_iff_ne, ne_eq]
    exact fun hhead => h.1 (List.mem_of_head? hhead)
  unfold PathName.join
  rw [hname]
  rcases eq_or_ne directory "" with rfl | hne
  · simpa [PathName.isAbsolute] using hname
  · have hempty : directory.isEmpty = false := by simpa using hne
    have hchars : directory.toList ≠ [] := by simpa using hne
    simp only [hempty, Bool.or_false, Bool.false_eq_true, if_false]
    split_ifs <;> simp [PathName.isAbsolute, List.head?_append_of_ne_nil _ hchars]

/-- A plain name joined to a directory leads one component further. -/
theorem below?_join (h : PathName.IsPlain name) (hhome : PathName.isAbsolute s.home = true)
    {parts : List String} (hparts : s.below? directory = some parts) :
    s.below? (PathName.join directory name) = some (parts ++ [name]) := by
  unfold below? at hparts ⊢
  simp only [PathName.components_join h, isAbsolute_join h, hhome] at hparts ⊢
  cases habsolute : PathName.isAbsolute directory with
  | false =>
    rw [habsolute] at hparts
    simpa using hparts
  | true =>
    rw [habsolute] at hparts
    have hstart : (PathName.components s.home).isPrefixOf (PathName.components directory) = true := by
      by_contra hnot
      simp [hnot] at hparts
    have hstart' := List.isPrefixOf_iff_prefix.1 hstart
    have hlonger := List.isPrefixOf_iff_prefix.2
      (hstart'.trans (List.prefix_append (PathName.components directory) [name]))
    simp only [hstart, hlonger, beq_self_eq_true, Bool.and_self, if_true,
      Option.some.injEq] at hparts ⊢
    rw [← hparts, List.drop_append_of_le_length hstart'.length_le]

/-- A plain name in a directory is at the place of the directory with that name. -/
theorem place?_join (h : PathName.IsPlain name) (hhome : PathName.isAbsolute s.home = true)
    (hplace : s.place? directory = some l) :
    s.place? (PathName.join directory name) = some (l ++ [name]) := by
  obtain ⟨parts, hparts, rfl⟩ := Option.map_eq_some_iff.1 hplace
  simp [place?, below?_join h hhome hparts, resolve_append, resolve, h.2.2.2]

/-- An open directory is at its place. -/
theorem place?_of_opens (h : s.Opens directory l) : s.place? directory = some l := by
  obtain ⟨parts, hparts, hfollow, -⟩ := h
  simp [place?, hparts, resolve_of_follow hfollow]

/-- A directory that is found is open. -/
theorem opens_of_locate (h : s.locate directory = .ok l) (hl : s.entryAt? l = some .directory) :
    s.Opens directory l := by
  unfold locate at h
  split_ifs at h
  split at h
  · rename_i parts hparts
    exact ⟨parts, hparts, h, hl⟩
  · cases h

/-- A plain name in an open directory leads to the place of that name, unless it is too long. -/
theorem locate_join (hopen : s.Opens directory l) (h : PathName.IsPlain name)
    (hhome : PathName.isAbsolute s.home = true) :
    s.locate (PathName.join directory name) =
      if nameLimit < name.utf8ByteSize then .error .nameTooLong else .ok (l ++ [name]) := by
  obtain ⟨parts, hparts, hfollow, hentry⟩ := hopen
  have hne : (PathName.join directory name).isEmpty = false := by
    have hcomponents : PathName.components (PathName.join directory name) =
        PathName.components directory ++ [name] := PathName.components_join h
    by_contra hempty
    have hjoin : PathName.join directory name = "" := by simpa using hempty
    rw [hjoin] at hcomponents
    simp [PathName.components] at hcomponents
  simp only [locate, hne, Bool.false_eq_true, if_false, below?_join h hhome hparts, follow_append,
    hfollow, Except.bind, follow, hentry, h.2.2.2]

/-- What is read in an open directory afterwards was read there before. -/
theorem read_of_keeps {text : String} (hopen : s.Opens directory l) (hopen' : t.Opens directory m)
    (h : PathName.IsPlain name) (hhome : PathName.isAbsolute s.home = true)
    (hkeeps : Keeps (PathName.join directory name) s t)
    (hread : t.read (PathName.join directory name) = .ok text) :
    s.read (PathName.join directory name) = .ok text := by
  obtain ⟨l', hlocate', hentry', hnames⟩ := read_eq_ok_iff.1 hread
  have hshort : ¬ nameLimit < name.utf8ByteSize := by
    intro hlong
    rw [locate_join hopen' h (hkeeps.home ▸ hhome), if_pos hlong] at hlocate'
    cases hlocate'
  have hlocate : s.locate (PathName.join directory name) = .ok (l ++ [name]) := by
    rw [locate_join hopen h hhome, if_neg hshort]
  obtain ⟨before, hbefore⟩ : ∃ before, s.entryAt? (l ++ [name]) = some (.file before) := by
    by_contra hno
    have hlacks : s.Lacks (PathName.join directory name) := by
      intro k other hk hother
      obtain rfl : l ++ [name] = k := Option.some.inj ((place?_of_locate hlocate).symm.trans hk)
      exact hno ⟨other, hother⟩
    exact hkeeps.lacks hlacks l' text (place?_of_locate hlocate') hentry'
  have hread' := read_eq_ok_iff.2 ⟨_, hlocate, hbefore, hnames⟩
  rw [hread', ← hkeeps.read _ hread', hread]

end Directories

end PathSelection.Storage
