import Mathlib.Data.List.Basic
import PathSelection.Generation.Cache
import PathSelection.Proofs.Storage.Replacing

/-!
# Files of a cache

The file of a compiled circuit is named by the circuit and the label of the
path, and the name gives both back.  No file is named like the draft of another.

Main results:

- Theorem `ArtifactCache.fileName_inj`: different compiled circuits have
  different files.
- Theorem `ArtifactCache.edits_store`: what storing a compiled circuit touches.
- Theorem `ArtifactCache.keeps_path_store`: storing a compiled circuit leaves the
  files of all others.
- Theorem `ArtifactCache.sameText_store`: storing the circuit compiled along one path
  leaves what is read for all other paths.
-/

namespace PathSelection.ArtifactCache

variable {c : ArtifactCache} {s : Storage} {id id' : String} {index index' : Nat}

/-! ## Names -/

private theorem toList_fileName (id : String) (index : Nat) :
    (fileName id index).toList =
      id.toList ++ '_' :: (Nat.toDigits 10 index ++ ['.', 'j', 's', 'o', 'n']) := by
  have hname : fileName id index = id ++ "_" ++ index.repr ++ ".json" := rfl
  simp [hname]

/-- The name of a draft. -/
def draftName (id : String) (index : Nat) : String := s!".{fileName id index}.tmp"

/-- Drafts are files of the directory of the cache. -/
theorem draft_eq (c : ArtifactCache) (id : String) (index : Nat) :
    c.draft id index = PathName.join c.directory (draftName id index) := rfl

private theorem toList_draftName (id : String) (index : Nat) :
    (draftName id index).toList = '.' :: ((fileName id index).toList ++ ['.', 't', 'm', 'p']) := by
  have hname : draftName id index = "." ++ fileName id index ++ ".tmp" := rfl
  simp [hname]

private theorem not_mem_toDigits {ch : Char} (h : ch.isDigit = false) (n : Nat) :
    ch ∉ Nat.toDigits 10 n := by
  intro hmem
  rw [Nat.isDigit_of_mem_toDigits (by decide) (by decide) hmem] at h
  cases h

/-- The digits after the last low line of a file name are the label. -/
theorem fileName_inj : fileName id index = fileName id' index' ↔ id = id' ∧ index = index' := by
  constructor
  · intro h
    have hchars := congrArg String.toList h
    rw [toList_fileName, toList_fileName, ← List.cons_append, ← List.cons_append,
      ← List.append_assoc, ← List.append_assoc] at hchars
    have hnames := List.append_cancel_right hchars
    have hlast (id : String) (n : Nat) :
        ((id.toList ++ '_' :: Nat.toDigits 10 n).reverse.takeWhile (· != '_')).reverse =
          Nat.toDigits 10 n := by
      have hdigits : ∀ ch ∈ (Nat.toDigits 10 n).reverse, (ch != '_') = true := by
        intro ch hch
        refine bne_iff_ne.2 ?_
        rintro rfl
        exact not_mem_toDigits (by decide) n (List.mem_reverse.1 hch)
      rw [List.reverse_append, List.reverse_cons, List.append_assoc, List.singleton_append,
        List.takeWhile_append_of_pos hdigits]
      simp
    have hindex : Nat.toDigits 10 index = Nat.toDigits 10 index' := by
      rw [← hlast id index, hnames, hlast]
    rw [hindex] at hnames
    refine ⟨String.toList_injective (List.append_cancel_right hnames), ?_⟩
    rw [← Nat.ofDigitChars_ten_toDigits (n := index), hindex, Nat.ofDigitChars_ten_toDigits]
  · rintro ⟨rfl, rfl⟩
    rfl

/-- A name with another last letter is no file name. -/
theorem fileName_ne_of_head? {name : String} (h : name.toList.reverse.head? = some 'p')
    (id : String) (index : Nat) : fileName id index ≠ name := by
  rintro rfl
  simp [toList_fileName] at h

/-- No draft has the name of an artifact. -/
theorem draftName_ne_fileName : draftName id index ≠ fileName id' index' :=
  (fileName_ne_of_head? (by simp [toList_draftName]) id' index').symm

/-- File names of circuits whose ids have no slashes have none either. -/
theorem isPlain_fileName (h : '/' ∉ id.toList) : PathName.IsPlain (fileName id index) := by
  refine PathName.isPlain_of_length ?_ ?_
  · have hdigits : '/' ∉ Nat.toDigits 10 index := not_mem_toDigits (by decide) index
    simp [toList_fileName, h, hdigits]
  · simp [toList_fileName]
    omega

/-- The name of a draft is one component of a path name. -/
theorem isPlain_draftName (h : '/' ∉ id.toList) : PathName.IsPlain (draftName id index) := by
  refine PathName.isPlain_of_length ?_ ?_
  · simpa [toList_draftName] using (isPlain_fileName h).1
  · simp [toList_draftName]

/-! ## Storing -/

section Places

variable {l : Location} (hhome : PathName.isAbsolute s.home = true)
  (hplace : s.place? c.directory = some l) (hid : '/' ∉ id.toList)

include hhome hplace hid

/-- Where an artifact is. -/
theorem place?_path (index : Nat) :
    s.place? (c.path id index) = some (l ++ [fileName id index]) :=
  Storage.place?_join (isPlain_fileName hid) hhome hplace

/-- Where a draft is. -/
theorem place?_draft (index : Nat) :
    s.place? (c.draft id index) = some (l ++ [draftName id index]) := by
  rw [draft_eq]
  exact Storage.place?_join (isPlain_draftName hid) hhome hplace

end Places

/-- Storing a compiled circuit touches its file and its draft. -/
theorem edits_store (c : ArtifactCache) (s : Storage) (id : String) (index : Nat)
    (circuit : Circuit) :
    Storage.Edits (fun l => s.place? (c.draft id index) = some l ∨
      s.place? (c.path id index) = some l) s (c.store s id index circuit).2 :=
  Storage.edits_replace s _ _ _

/-- Storing a compiled circuit leaves the files of all others. -/
theorem keeps_path_store {l : Location} (hhome : PathName.isAbsolute s.home = true)
    (hplace : s.place? c.directory = some l) (hid : '/' ∉ id.toList) (hid' : '/' ∉ id'.toList)
    (hne : id ≠ id' ∨ index ≠ index') (circuit : Circuit) :
    Storage.Keeps (c.path id index) s (c.store s id' index' circuit).2 := by
  refine (edits_store c s id' index' circuit).keeps fun m hm htouched => ?_
  rw [place?_draft hhome hplace hid', place?_path hhome hplace hid'] at htouched
  obtain rfl : l ++ [fileName id index] = m :=
    Option.some.inj ((place?_path hhome hplace hid index).symm.trans hm)
  rcases htouched with hdraft | hfile
  · exact draftName_ne_fileName (by simpa using hdraft)
  · obtain ⟨rfl, rfl⟩ := fileName_inj.1 (by simpa using hfile)
    simp at hne

/-! ## Other paths of the same circuit -/

/-- What stands behind the last slash of an id. -/
theorem exists_base (id : String) : ∃ (front : List Char) (base : String), '/' ∉ base.toList ∧
    id.toList = front ++ base.toList ∧ (front = [] ∨ ∃ before, front = before ++ ['/']) := by
  by_cases hslash : '/' ∈ id.toList.reverse
  · obtain ⟨last, rest, hreversed, hlast⟩ := List.eq_append_cons_of_mem hslash
    refine ⟨rest.reverse ++ ['/'], String.ofList last.reverse, by simpa using hlast, ?_,
      .inr ⟨_, rfl⟩⟩
    rw [← List.reverse_reverse id.toList, hreversed]
    simp
  · exact ⟨[], id, by simpa using hslash, rfl, .inl rfl⟩

/-- The files of a circuit for all paths are named after the same part of its id. -/
theorem exists_components_path (c : ArtifactCache) (id : String) :
    ∃ base, '/' ∉ base.toList ∧
      ∀ index, ∃ parts, PathName.components (c.path id index) = parts ++ [fileName base index] := by
  obtain ⟨front, base, hbase, hid, hfront⟩ := exists_base id
  refine ⟨base, hbase, fun index => ?_⟩
  refine PathName.exists_components_join (isPlain_fileName hbase) ?_ hfront c.directory
  rw [toList_fileName, toList_fileName, hid, List.append_assoc]

/-- No draft has a name that ends like that of a file. -/
theorem exists_components_draft (c : ArtifactCache) (id : String) (index : Nat) :
    ∃ parts name, PathName.components (c.draft id index) = parts ++ [name] ∧ name ≠ ".." ∧
      ∀ base index', fileName base index' ≠ name := by
  obtain ⟨front, base, hbase, hid, hfront⟩ := exists_base id
  rw [draft_eq]
  rcases hfront with rfl | ⟨before, rfl⟩
  · obtain rfl : id = base := String.toList_injective hid
    have hplain : PathName.IsPlain (draftName id index) := isPlain_draftName hbase
    exact ⟨_, draftName id index, PathName.components_join hplain, hplain.2.2.2,
      fileName_ne_of_head? (by simp [toList_draftName])⟩
  · -- behind a slash the point of a draft is far in front
    obtain ⟨name, hname⟩ : ∃ name : String,
        name.toList = (fileName base index).toList ++ ['.', 't', 'm', 'p'] :=
      ⟨String.ofList _, String.toList_ofList⟩
    have hlast : name.toList.reverse.head? = some 'p' := by simp [hname]
    have hplain : PathName.IsPlain name :=
      PathName.isPlain_of_length (by simpa [hname] using (isPlain_fileName hbase).1)
        (by simp [hname])
    have hdraft : (draftName id index).toList = ('.' :: before ++ ['/']) ++ name.toList := by
      simp [toList_draftName, toList_fileName, hid, hname]
    obtain ⟨parts, hparts⟩ :=
      PathName.exists_components_join hplain hdraft (.inr ⟨'.' :: before, rfl⟩) c.directory
    exact ⟨parts, name, hparts, hplain.2.2.2, fileName_ne_of_head? hlast⟩

/-- Storing the circuit compiled along one path leaves what is read for all other paths. -/
theorem sameText_store (hne : index ≠ index') (c : ArtifactCache) (s : Storage) (id : String)
    (circuit : Circuit) :
    Storage.SameText (c.path id index) s (c.store s id index' circuit).2 := by
  obtain ⟨base, hbase, hpath⟩ := exists_components_path c id
  obtain ⟨parts, hparts⟩ := hpath index
  obtain ⟨parts', hparts'⟩ := hpath index'
  obtain ⟨drafted, draft, hdraft, hup, hother⟩ := exists_components_draft c id index'
  exact Storage.sameText_replace hparts (isPlain_fileName hbase).2.2.2
    ⟨drafted, draft, hdraft, hup, hother base index⟩
    ⟨parts', _, hparts', (isPlain_fileName hbase).2.2.2, fun heq => hne (fileName_inj.1 heq).2⟩ s _

end PathSelection.ArtifactCache
