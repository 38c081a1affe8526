import Mathlib.Data.List.Nodup
import PathSelection.Generation.Corpus
import PathSelection.Proofs.Generation.NaturalOrder
import PathSelection.Proofs.Storage.Edits

/-!
# Files of a corpus

The files of a corpus are the circuit files in its directory, each once and in
natural order, and the id of a circuit tells its file from all others.

Main results:

- Theorem `Corpus.mem_files_iff`: which files a corpus has.
- Theorem `Corpus.nodup_map_circuitId`: different files have different ids.
- Theorem `Corpus.mem_files_of_keeps`: no file comes to a corpus that is kept.
-/

namespace PathSelection

/-! ## Names of files -/

namespace PathName

variable {directory name stem extension : String}

/-- A name with an extension is its stem, a point and the extension. -/
theorem eq_of_splitExtension (h : splitExtension name = (stem, some extension)) :
    name = stem ++ ("." ++ extension) := by
  unfold splitExtension at h
  simp only at h
  split at h
  · rename_i point c front hrest
    obtain ⟨rfl, hextension⟩ := Prod.mk.inj h
    obtain rfl := Option.some.inj hextension
    have hpoint : point = '.' := by
      have hhead := List.head?_dropWhile_not (· != '.') name.toList.reverse
      rw [hrest] at hhead
      simpa using hhead
    have hchars := List.takeWhile_append_dropWhile (p := (· != '.')) (l := name.toList.reverse)
    rw [hrest, hpoint] at hchars
    have hname := congrArg List.reverse hchars.symm
    rw [List.reverse_reverse] at hname
    exact String.toList_injective (hname.trans (by simp))
  · cases h

private theorem fileName?_join (h : IsPlain name) :
    fileName? (join directory name) = some name := by
  rw [fileName?, components_join h, List.getLast?_append, List.getLast?_singleton, Option.some_or]
  split
  · rename_i hup
    exact absurd (Option.some.inj hup) h.2.2.2
  · rename_i other _ hother
    exact hother.symm
  · rename_i hnone
    cases hnone

end PathName

/-! ## Files in storage -/

namespace Storage

variable {s : Storage} {path name : String} {l : Location}

private theorem isFile_iff : s.isFile path = true ↔ ∃ text, s.read path = .ok text := by
  simp only [read_eq_ok_iff, isFile, lookup?]
  cases hlocate : s.locate path with
  | error fault => simp
  | ok l =>
    simp only [Except.ok.injEq, exists_eq_left']
    cases hentry : s.entryAt? l with
    | none => simp
    | some e =>
      cases e with
      | directory => simp
      | file text => cases PathName.namesDirectory path <;> simp

/-- What is in a directory is listed. -/
theorem mem_children_of_entryAt? {e : StorageEntry} (h : s.entryAt? (l ++ [name]) = some e) :
    name ∈ s.children l := by
  have hlookup : s.entries.lookup (l ++ [name]) = some e := by simpa [entryAt?] using h
  obtain ⟨before, after, hentries, -⟩ := List.lookup_eq_some_iff.1 hlookup
  exact List.mem_filterMap.2 ⟨(l ++ [name], e), by simp [hentries], by simp⟩

/-- Directories are listed, and nothing else is. -/
theorem list_eq_ok_iff {names : List String} : s.list path = .ok names ↔
    ∃ l, s.locate path = .ok l ∧ s.entryAt? l = some .directory ∧ s.children l = names := by
  unfold list
  cases hlocate : s.locate path with
  | error fault => simp [bind, Except.bind]
  | ok l =>
    simp only [bind, Except.bind, Except.ok.injEq, exists_eq_left']
    cases hentry : s.entryAt? l with
    | none => simp
    | some e => cases e <;> simp

/-- A path name leads to a directory, if anywhere, whose names have no slashes and come once each.
This is so of all directories of a file system. -/
def Lists (s : Storage) (path : String) : Prop :=
  ∀ names, s.list path = .ok names → names.Nodup ∧ ∀ name ∈ names, PathName.IsPlain name

end Storage

/-! ## Files of a corpus -/

namespace Corpus

variable {s t : Storage} {directory file : String} {files : List String}

/-- The files of a corpus are the circuit files of its directory in natural order. -/
theorem files_eq_ok_iff : Corpus.files s directory = .ok files ↔
    ∃ names, s.list directory = .ok names ∧
      naturalSort ((names.map (PathName.join directory)).filter (isCircuitFile s)) = files := by
  unfold Corpus.files
  cases s.list directory <;> simp [Except.mapError, bind, Except.bind, pure, Except.pure]

/-- A corpus has a place. -/
theorem exists_place?_of_files (h : Corpus.files s directory = .ok files) :
    ∃ l, s.place? directory = some l := by
  obtain ⟨names, hnames, -⟩ := files_eq_ok_iff.1 h
  obtain ⟨l, hlocate, -⟩ := Storage.list_eq_ok_iff.1 hnames
  exact ⟨l, Storage.place?_of_locate hlocate⟩

/-- The files of a corpus are those of its directory which hold a text and have the right
extension. -/
theorem mem_files_iff (h : Corpus.files s directory = .ok files) :
    file ∈ files ↔ ∃ names name, s.list directory = .ok names ∧ name ∈ names ∧
      PathName.join directory name = file ∧ isCircuitFile s file = true := by
  obtain ⟨names, hnames, rfl⟩ := files_eq_ok_iff.1 h
  simp only [naturalSort, List.mem_mergeSort, List.mem_filter, List.mem_map, hnames,
    Except.ok.injEq]
  constructor
  · rintro ⟨⟨name, hname, rfl⟩, hfile⟩
    exact ⟨names, name, rfl, hname, rfl, hfile⟩
  · rintro ⟨_, name, rfl, hname, rfl, hfile⟩
    exact ⟨⟨name, hname, rfl⟩, hfile⟩

/-- The files of a corpus come in natural order. -/
theorem pairwise_files (h : Corpus.files s directory = .ok files) :
    files.Pairwise fun a b => naturalOrder a b ≠ .gt := by
  obtain ⟨names, -, rfl⟩ := files_eq_ok_iff.1 h
  exact pairwise_naturalSort _

/-- Every file of a corpus can be read. -/
theorem exists_read_of_mem_files (h : Corpus.files s directory = .ok files) (hfile : file ∈ files) :
    ∃ text, s.read file = .ok text := by
  obtain ⟨-, -, -, -, -, hcircuit⟩ := (mem_files_iff h).1 hfile
  exact Storage.isFile_iff.1 (Bool.and_eq_true_iff.1 hcircuit).1

/-- The name of a circuit file is its id with the extension. -/
theorem name_eq_of_isCircuitFile {name : String} (hplain : PathName.IsPlain name)
    (h : isCircuitFile s (PathName.join directory name) = true) :
    name = circuitId (PathName.join directory name) ++ ".json" := by
  have hextension := beq_iff_eq.1 (Bool.and_eq_true_iff.1 h).2
  rw [PathName.extension?, PathName.fileName?_join hplain, Option.bind_some] at hextension
  rw [circuitId, PathName.stem?, PathName.fileName?_join hplain]
  have hsplit : PathName.splitExtension name =
      ((PathName.splitExtension name).1, some "json") := Prod.ext rfl hextension
  exact PathName.eq_of_splitExtension hsplit

/-- A path name is that of a plain name in a directory, and the id has no slash either. -/
def Names (directory file : String) : Prop :=
  ∃ name, PathName.IsPlain name ∧ PathName.join directory name = file ∧
    '/' ∉ (circuitId file).toList

/-- The id of a circuit has no slash. -/
theorem Names.not_mem_toList (h : Names directory file) : '/' ∉ (circuitId file).toList := by
  obtain ⟨_, _, _, hid⟩ := h
  exact hid

/-- Every file of a corpus is named below its directory. -/
theorem names_of_mem_files (hlists : s.Lists directory)
    (h : Corpus.files s directory = .ok files) (hfile : file ∈ files) : Names directory file := by
  obtain ⟨names, name, hnames, hname, rfl, hcircuit⟩ := (mem_files_iff h).1 hfile
  have hplain := (hlists names hnames).2 name hname
  refine ⟨name, hplain, rfl, fun hslash => hplain.1 ?_⟩
  rw [name_eq_of_isCircuitFile hplain hcircuit, String.toList_append]
  exact List.mem_append_left _ hslash

/-- Different files of a corpus have different ids. -/
theorem nodup_map_circuitId (hlists : s.Lists directory)
    (h : Corpus.files s directory = .ok files) : (files.map circuitId).Nodup := by
  obtain ⟨names, hnames, rfl⟩ := files_eq_ok_iff.1 h
  obtain ⟨hnodup, hplain⟩ := hlists names hnames
  have hsorted := List.mergeSort_perm ((names.map (PathName.join directory)).filter (isCircuitFile s))
    fun a b => naturalOrder a b != .gt
  rw [naturalSort, (hsorted.map circuitId).nodup_iff, List.filter_map, List.map_map]
  refine List.Nodup.map_on (fun a ha b hb hab => ?_) (hnodup.filter _)
  obtain ⟨ha, ha'⟩ := List.mem_filter.1 ha
  obtain ⟨hb, hb'⟩ := List.mem_filter.1 hb
  have hids : circuitId (PathName.join directory a) = circuitId (PathName.join directory b) := hab
  rw [name_eq_of_isCircuitFile (hplain a ha) ha', hids, ← name_eq_of_isCircuitFile (hplain b hb) hb']

/-- No file comes to a corpus whose files are kept. -/
theorem mem_files_of_keeps {files' : List String} (hhome : PathName.isAbsolute s.home = true)
    (hkeeps : ∀ name, PathName.IsPlain name → Storage.Keeps (PathName.join directory name) s t)
    (hlists : t.Lists directory) (h : Corpus.files s directory = .ok files)
    (h' : Corpus.files t directory = .ok files') (hfile : file ∈ files') : file ∈ files := by
  obtain ⟨names', name, hnames', hname, rfl, hcircuit⟩ := (mem_files_iff h').1 hfile
  obtain ⟨names, hnames, -⟩ := files_eq_ok_iff.1 h
  obtain ⟨l, hlocate, hentry, rfl⟩ := Storage.list_eq_ok_iff.1 hnames
  obtain ⟨l', hlocate', hentry', -⟩ := Storage.list_eq_ok_iff.1 hnames'
  have hplain := (hlists names' hnames').2 name hname
  have hopen := Storage.opens_of_locate hlocate hentry
  obtain ⟨hisFile, hextension⟩ := Bool.and_eq_true_iff.1 hcircuit
  obtain ⟨text, hread'⟩ := Storage.isFile_iff.1 hisFile
  have hread := Storage.read_of_keeps hopen (Storage.opens_of_locate hlocate' hentry') hplain hhome
    (hkeeps name hplain) hread'
  have hchild : name ∈ s.children l := by
    obtain ⟨place, hplace, hfound, -⟩ := Storage.read_eq_ok_iff.1 hread
    have hjoined := Storage.place?_join hplain hhome (Storage.place?_of_opens hopen)
    rw [Storage.place?_of_locate hplace, Option.some.injEq] at hjoined
    exact Storage.mem_children_of_entryAt? (hjoined ▸ hfound)
  exact (mem_files_iff h).2 ⟨_, name, hnames, hchild, rfl,
    Bool.and_eq_true_iff.2 ⟨Storage.isFile_iff.2 ⟨text, hread⟩, hextension⟩⟩

end Corpus

end PathSelection
