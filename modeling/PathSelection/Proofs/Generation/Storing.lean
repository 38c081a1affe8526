import PathSelection.Proofs.Circuit.RoundTrip
import PathSelection.Proofs.Generation.Cache
import PathSelection.Proofs.Generation.Corpus

/-!
# Caches as maps

A directory is taken as a map from names to texts.  In such a directory a cache is a map
from circuits and labels of paths to compiled circuits: what is found is what was put
there last under the same circuit and label, and no draft is ever in the way.

Main results:

- Theorem `Storage.Contents.exists_replace`: what a replaced file changes in the map.
- Theorem `ArtifactCache.load_store_of_ne`: storing a compiled circuit leaves what is
  found of all others.
- Theorem `ArtifactCache.exists_store`: what a compiled circuit changes in the directory.
- Theorem `ArtifactCache.exists_putAll`: what is in the directory after any compiled
  circuits were stored.
- Theorem `ArtifactCache.putAll_isMap`: what a cache finds after that.
-/

namespace PathSelection

/-! ## Directories as maps -/

/-- A directory that can be reached and in which there are the files with these texts and nothing
else. -/
structure Storage.Contents (s : Storage) (directory : String) (texts : String → Option String) :
    Prop where
  home : PathName.isAbsolute s.home = true
  place : ∃ l, s.Opens directory l ∧ ∀ name, s.entryAt? (l ++ [name]) = (texts name).map .file

/-- A directory that can be reached and in which there are no other directories. -/
structure Storage.TakesFiles (s : Storage) (directory : String) : Prop where
  home : PathName.isAbsolute s.home = true
  place : ∃ l, s.Opens directory l ∧ ∀ name, s.entryAt? (l ++ [name]) ≠ some .directory

private theorem Storage.ne_directory_of_text {s : Storage} {l : Location} {text? : Option String}
    (h : s.entryAt? l = text?.map .file) : s.entryAt? l ≠ some .directory := by
  rw [h]
  cases text? <;> simp

/-- A directory of which the files are known takes files. -/
theorem Storage.Contents.takesFiles {s : Storage} {directory : String}
    {texts : String → Option String} (h : s.Contents directory texts) : s.TakesFiles directory := by
  obtain ⟨hhome, l, hopen, hentry⟩ := h
  exact ⟨hhome, l, hopen, fun name => ne_directory_of_text (hentry name)⟩

/-- In a directory of files a file is put in place of another, and only it and its draft change. -/
theorem Storage.Contents.exists_replace {s : Storage} {directory name draft : String}
    {texts : String → Option String} (h : s.Contents directory texts)
    (hname : PathName.IsPlain name) (hdraft : PathName.IsPlain draft) (hne : draft ≠ name)
    (hshort : name.utf8ByteSize ≤ nameLimit) (hshort' : draft.utf8ByteSize ≤ nameLimit)
    (text : String) :
    ∃ t, s.replace (PathName.join directory draft) (PathName.join directory name) text =
        (.ok (), t) ∧
      t.Contents directory fun other =>
        if other = name then some text else if other = draft then none else texts other := by
  obtain ⟨hhome, l, hopen, hentry⟩ := h
  have hfree (other : String) : s.entryAt? (l ++ [other]) ≠ some .directory :=
    ne_directory_of_text (hentry other)
  obtain ⟨t, hreplace, hentry'⟩ := exists_replace_join hopen hhome hname hdraft hne hshort hshort'
    (hfree _) (hfree _) text
  have hedits := edits_replace s (PathName.join directory draft) (PathName.join directory name) text
  rw [hreplace] at hedits
  refine ⟨t, hreplace, hedits.home ▸ hhome, l, hedits.opens hopen, fun other => ?_⟩
  rw [hentry', hentry]
  split_ifs <;> rfl

/-- What is under a plain name in a directory of files. -/
theorem Storage.Contents.lookup?_join {s : Storage} {directory name : String}
    {texts : String → Option String} (h : s.Contents directory texts)
    (hname : PathName.IsPlain name) (hshort : name.utf8ByteSize ≤ nameLimit) :
    s.lookup? (PathName.join directory name) = (texts name).map .file := by
  obtain ⟨hhome, l, hopen, hentry⟩ := h
  simp only [lookup?, locate_join hopen hname hhome, if_neg (Nat.not_lt.2 hshort), hentry,
    PathName.namesDirectory_join hname, Bool.false_eq_true, if_false]
  cases texts name <;> rfl

/-- A directory in which no names are listed has nothing in it. -/
theorem Storage.contents_of_list {s : Storage} {directory : String}
    (hhome : PathName.isAbsolute s.home = true) (h : s.list directory = .ok []) :
    s.Contents directory fun _ => none := by
  obtain ⟨l, hlocate, hdirectory, hnothing⟩ := list_eq_ok_iff.1 h
  refine ⟨hhome, l, opens_of_locate hlocate hdirectory, fun name => ?_⟩
  refine Option.eq_none_iff_forall_ne_some.2 fun e he => ?_
  simpa [hnothing] using mem_children_of_entryAt? he

namespace ArtifactCache

variable {c : ArtifactCache} {s t : Storage} {l : Location} {id id' : String} {index index' : Nat}
  {texts : String → Option String}

/-! ## One compiled circuit -/

section Frame

variable (hopen : s.Opens c.directory l) (hhome : PathName.isAbsolute s.home = true)
  (hid : '/' ∉ id.toList)

include hopen hhome hid

private theorem contains_iff :
    c.contains s id index = true ↔
      (fileName id index).utf8ByteSize ≤ Storage.nameLimit ∧
        (s.entryAt? (l ++ [fileName id index])).isSome := by
  rw [← Storage.exists?_join hopen hhome (isPlain_fileName hid)]
  unfold contains path
  cases s.exists? (PathName.join c.directory (fileName id index)) <;> simp

/-- What is found depends on what is at the place of the file only. -/
theorem load_congr (hopen' : t.Opens c.directory l) (hhome' : t.home = s.home)
    (hentry : t.entryAt? (l ++ [fileName id index]) = s.entryAt? (l ++ [fileName id index])) :
    c.load t id index = c.load s id index := by
  have hplain : PathName.IsPlain (fileName id index) := isPlain_fileName hid
  have hread : t.read (c.path id index) = s.read (c.path id index) := by
    rw [path, Storage.read_join hopen hhome hplain,
      Storage.read_join hopen' (hhome' ▸ hhome) hplain, hentry]
  unfold load
  rw [hread]

/-- Storing a compiled circuit leaves what is found of all others. -/
theorem load_store_of_ne (hid' : '/' ∉ id'.toList) (hne : id ≠ id' ∨ index ≠ index')
    (circuit : Circuit) :
    c.load (c.store s id' index' circuit).2 id index = c.load s id index ∧
      c.contains (c.store s id' index' circuit).2 id index = c.contains s id index := by
  have hplace := Storage.place?_of_opens hopen
  have hedits := edits_store c s id' index' circuit
  have hopen' := hedits.opens hopen
  have hentry : (c.store s id' index' circuit).2.entryAt? (l ++ [fileName id index]) =
      s.entryAt? (l ++ [fileName id index]) := by
    refine Storage.entryAt?_replace (by simp) (fun m hm => ?_) ?_
    · obtain rfl := Option.some.inj ((place?_draft hhome hplace hid' index').symm.trans hm)
      rw [List.prefix_append_right_inj]
      simpa using draftName_ne_fileName
    · rw [place?_path hhome hplace hid']
      simpa [fileName_inj, eq_comm] using not_and_or.2 hne
  refine ⟨load_congr hopen hhome hid hopen' hedits.home hentry, ?_⟩
  rw [Bool.eq_iff_iff, contains_iff hopen' (hedits.home ▸ hhome) hid, contains_iff hopen hhome hid,
    hentry]

end Frame

private theorem utf8ByteSize_fileName_le (id : String) (index : Nat) :
    (fileName id index).utf8ByteSize ≤ (draftName id index).utf8ByteSize := by
  have hname : draftName id index = "." ++ fileName id index ++ ".tmp" := rfl
  rw [hname, String.utf8ByteSize_append, String.utf8ByteSize_append]
  omega

/-- A directory that takes files takes every compiled circuit whose names are plain and short
enough. -/
theorem store_eq_ok (h : s.TakesFiles c.directory) (hid : '/' ∉ id.toList)
    (hshort : (draftName id index).utf8ByteSize ≤ Storage.nameLimit) (circuit : Circuit) :
    (c.store s id index circuit).1 = .ok () := by
  obtain ⟨hhome, l, hopen, hfree⟩ := h
  obtain ⟨t, hreplace, -⟩ := Storage.exists_replace_join hopen hhome (isPlain_fileName hid)
    (isPlain_draftName hid) draftName_ne_fileName
    ((utf8ByteSize_fileName_le id index).trans hshort) hshort (hfree _) (hfree _) circuit.toText
  rw [store, draft_eq, path, hreplace]
  rfl

/-- A directory goes on to take files when any compiled circuit is stored. -/
theorem takesFiles_store (h : s.TakesFiles c.directory) (id : String) (index : Nat)
    (circuit : Circuit) : (c.store s id index circuit).2.TakesFiles c.directory := by
  obtain ⟨hhome, l, hopen, hfree⟩ := h
  have hedits := edits_store c s id index circuit
  exact ⟨hedits.home ▸ hhome, l, hedits.opens hopen, fun name hname =>
    hfree name (Storage.NoNewDirectory.replace s _ _ _ _ hname)⟩

/-- The contents of a directory after a compiled circuit was stored. -/
theorem exists_store (h : s.Contents c.directory texts) (hid : '/' ∉ id.toList)
    (hshort : (draftName id index).utf8ByteSize ≤ Storage.nameLimit) (circuit : Circuit) :
    ∃ t, c.store s id index circuit = (.ok (), t) ∧
      t.Contents c.directory fun name => if name = fileName id index then some circuit.toText
        else if name = draftName id index then none else texts name := by
  obtain ⟨t, hreplace, hcontents⟩ := h.exists_replace (isPlain_fileName hid) (isPlain_draftName hid)
    draftName_ne_fileName ((utf8ByteSize_fileName_le id index).trans hshort) hshort circuit.toText
  refine ⟨t, ?_, hcontents⟩
  rw [store, draft_eq, path, hreplace]
  rfl

/-! ## Any compiled circuits -/

/-- A circuit that is to be stored under a circuit and the label of a path. -/
structure Entry where
  id : String
  index : Nat
  circuit : Circuit

/-- Is this entry stored under a circuit and the label of a path? -/
def Entry.isUnder (e : Entry) (id : String) (index : Nat) : Bool :=
  e.id == id && e.index == index

/-- The names that an entry needs are plain and short enough. -/
structure Entry.Storable (e : Entry) : Prop where
  plain : '/' ∉ e.id.toList
  short : (draftName e.id e.index).utf8ByteSize ≤ Storage.nameLimit

/-- The storage with an entry, if it can be stored. -/
def put (c : ArtifactCache) (s : Storage) (e : Entry) : Except SelectionError Storage :=
  (c.store s e.id e.index e.circuit).1.map fun () => (c.store s e.id e.index e.circuit).2

/-- The storage with entries that are stored one after the other, as long as all is well. -/
def putAll (c : ArtifactCache) (s : Storage) (es : List Entry) : Except SelectionError Storage :=
  es.foldlM c.put s

private theorem put_of_store {e : Entry} (h : c.store s e.id e.index e.circuit = (.ok (), t)) :
    c.put s e = .ok t := by
  rw [put, h]
  rfl

/-- The circuit that was stored last under a circuit and the label of a path. -/
def latest? (es : List Entry) (id : String) (index : Nat) : Option Circuit :=
  (es.reverse.find? (·.isUnder id index)).map (·.circuit)

/-- The text that was written last into the file with a name. -/
def latestText? (es : List Entry) (name : String) : Option String :=
  (es.reverse.find? fun e => fileName e.id e.index == name).map (·.circuit.toText)

private theorem exists_of_latest? {es : List Entry} {circuit : Circuit}
    (h : latest? es id index = some circuit) :
    ∃ e ∈ es, e.id = id ∧ e.index = index ∧ e.circuit = circuit := by
  obtain ⟨e, hfind, hcircuit⟩ := Option.map_eq_some_iff.1 h
  have hunder := List.find?_some hfind
  simp only [Entry.isUnder, Bool.and_eq_true, beq_iff_eq] at hunder
  exact ⟨e, List.mem_reverse.1 (List.mem_of_find?_eq_some hfind), hunder.1, hunder.2, hcircuit⟩

private theorem latestText?_fileName (es : List Entry) (id : String) (index : Nat) :
    latestText? es (fileName id index) = (latest? es id index).map Circuit.toText := by
  have hkeys : (fun e : Entry => fileName e.id e.index == fileName id index) =
      (·.isUnder id index) := by
    funext e
    rw [Bool.eq_iff_iff]
    simp [Entry.isUnder, fileName_inj]
  rw [latestText?, latest?, hkeys, Option.map_map]
  rfl

/-- After any entries were stored, the files that they name have the texts that were written last,
and all other files are as they were. -/
theorem exists_putAll {es : List Entry} (h : s.Contents c.directory texts)
    (hdrafts : ∀ id index, texts (draftName id index) = none) (hes : ∀ e ∈ es, e.Storable) :
    ∃ t, c.putAll s es = .ok t ∧
      t.Contents c.directory fun name => (latestText? es name).or (texts name) := by
  -- no draft is left by any entry, so that none has to be followed through the run
  induction es generalizing s texts with
  | nil => exact ⟨s, rfl, by simpa [latestText?] using h⟩
  | cons e es ih =>
    obtain ⟨⟨hplain, hshort⟩, hrest⟩ := List.forall_mem_cons.1 hes
    obtain ⟨u, hstore, hcontents⟩ := exists_store h hplain hshort e.circuit
    have htexts : (fun name => if name = fileName e.id e.index then some e.circuit.toText
        else if name = draftName e.id e.index then none else texts name) =
        fun name => if name = fileName e.id e.index then some e.circuit.toText
          else texts name := by
      funext name
      split_ifs with hfile hdraft
      · rfl
      · rw [hdraft, hdrafts]
      · rfl
    rw [htexts] at hcontents
    have hdrafts' : ∀ id index, (if draftName id index = fileName e.id e.index then
        some e.circuit.toText else texts (draftName id index)) = none := by
      intro id index
      rw [if_neg draftName_ne_fileName, hdrafts]
    obtain ⟨t, hputs, hcontents'⟩ := ih hcontents hdrafts' hrest
    refine ⟨t, by rw [putAll, List.foldlM_cons, put_of_store hstore]; exact hputs, ?_⟩
    convert hcontents' using 2 with name
    rw [latestText?, latestText?, List.reverse_cons, List.find?_append, List.find?_singleton]
    rcases eq_or_ne name (fileName e.id e.index) with rfl | hne
    · cases es.reverse.find? fun e' => fileName e'.id e'.index == fileName e.id e.index <;> simp
    · simp [hne, hne.symm]

/-- A cache in an empty directory is a map from circuits and labels of paths to compiled circuits.
All entries whose names are plain and short enough can be stored, in any order and number.  Then the
circuit that was stored last under a circuit and a label is found there, if its gates can be
represented and it is the replay of its instructions, as all circuits are that were built or read;
where nothing was stored, nothing is found.  What is found of one compiled circuit is left alone
when another is stored, whether that succeeds or not, for file names are different for different
circuits or labels, and no draft is named like a file. -/
theorem putAll_isMap (c : ArtifactCache) {s : Storage}
    (hempty : s.Contents c.directory fun _ => none) {es : List Entry}
    (hes : ∀ e ∈ es, e.Storable) :
    (∃ t, c.putAll s es = .ok t ∧ ∀ id index, '/' ∉ id.toList →
      (∀ circuit, latest? es id index = some circuit → circuit.Replayed → circuit.Representable →
        c.load t id index = .ok (some circuit)) ∧
      (latest? es id index = none → (fileName id index).utf8ByteSize ≤ Storage.nameLimit →
        c.load t id index = .ok none) ∧
      (c.contains t id index = true ↔ (latest? es id index).isSome)) ∧
    (∀ (s : Storage) l, s.Opens c.directory l → PathName.isAbsolute s.home = true →
      ∀ id index id' index' circuit, '/' ∉ id.toList → '/' ∉ id'.toList →
        (id ≠ id' ∨ index ≠ index') →
        c.load (c.store s id' index' circuit).2 id index = c.load s id index ∧
          c.contains (c.store s id' index' circuit).2 id index = c.contains s id index) ∧
    (∀ id index id' index', fileName id index = fileName id' index' ↔ id = id' ∧ index = index') ∧
    ∀ id index id' index', draftName id index ≠ fileName id' index' := by
  refine ⟨?_, fun s l hopen hhome id index id' index' circuit hid hid' hne =>
    load_store_of_ne hopen hhome hid hid' hne circuit, fun _ _ _ _ => fileName_inj,
    fun _ _ _ _ => draftName_ne_fileName⟩
  obtain ⟨t, hputs, hhome, l, hopen, hentry⟩ := exists_putAll hempty (fun _ _ => rfl) hes
  refine ⟨t, hputs, fun id index hid => ?_⟩
  have hplain : PathName.IsPlain (fileName id index) := isPlain_fileName hid
  have hfile : t.entryAt? (l ++ [fileName id index]) =
      (latest? es id index).map fun circuit => .file circuit.toText := by
    rw [hentry, latestText?_fileName, Option.or_none, Option.map_map]
    rfl
  have hshort {circuit : Circuit} (h : latest? es id index = some circuit) :
      (fileName id index).utf8ByteSize ≤ Storage.nameLimit := by
    obtain ⟨e, he, rfl, rfl, -⟩ := exists_of_latest? h
    exact (utf8ByteSize_fileName_le _ _).trans (hes e he).short
  refine ⟨fun circuit hlatest hreplayed hgates => ?_, fun hlatest hname => ?_, ?_⟩
  · unfold load
    rw [path, Storage.read_join hopen hhome hplain, if_neg (Nat.not_lt.2 (hshort hlatest)), hfile,
      hlatest]
    simp only [Option.map_some, hreplayed.ofText_toText hgates, Except.toOption]
  · unfold load
    rw [path, Storage.read_join hopen hhome hplain, if_neg (Nat.not_lt.2 hname), hfile, hlatest]
    rfl
  · rw [contains_iff hopen hhome hid, hfile, Option.isSome_map]
    refine and_iff_right_of_imp fun hsome => ?_
    obtain ⟨circuit, hlatest⟩ := Option.isSome_iff_exists.1 hsome
    exact hshort hlatest

/-- Two circuits under one id and label, and one under an id that continues the other. -/
def pairEntries : List Entry :=
  [⟨"pair", 1, .withSize "first" 2 0⟩, ⟨"pair_1", 1, .withSize "other" 2 0⟩,
    ⟨"pair", 1, .withSize "last" 2 0⟩]

/-- A circuit that is stored again replaces the first one, and an id that continues with a low line
and a digit is another id. -/
theorem putAll_isMap_pairEntries :
    ∃ t, (⟨"cache"⟩ : ArtifactCache).putAll ⟨"/", [(["cache"], .directory)]⟩ pairEntries = .ok t ∧
      (⟨"cache"⟩ : ArtifactCache).load t "pair" 1 = .ok (some (.withSize "last" 2 0)) ∧
      (⟨"cache"⟩ : ArtifactCache).load t "pair_1" 1 = .ok (some (.withSize "other" 2 0)) ∧
      (⟨"cache"⟩ : ArtifactCache).load t "pair" 11 = .ok none ∧
      (⟨"cache"⟩ : ArtifactCache).contains t "pair" 11 = false := by
  have hempty : (⟨"/", [(["cache"], .directory)]⟩ : Storage).Contents "cache" fun _ => none :=
    Storage.contents_of_list rfl rfl
  have hentries : ∀ e ∈ pairEntries, e.Storable := by
    simp only [pairEntries, List.forall_mem_cons, List.not_mem_nil, false_implies, implies_true,
      and_true]
    exact ⟨⟨by decide, by decide⟩, ⟨by decide, by decide⟩, by decide, by decide⟩
  have hcircuit (name : String) :
      (Circuit.withSize name 2 0).Replayed ∧ (Circuit.withSize name 2 0).Representable :=
    ⟨(Circuit.Built.withSize name (by decide) (by decide)).replayed, fun i hi => by cases hi⟩
  obtain ⟨⟨t, hputs, hfound⟩, -⟩ := putAll_isMap ⟨"cache"⟩ hempty hentries
  obtain ⟨hlast, -, -⟩ := hfound "pair" 1 (by decide)
  obtain ⟨hother, -, -⟩ := hfound "pair_1" 1 (by decide)
  obtain ⟨-, hnone, hcontains⟩ := hfound "pair" 11 (by decide)
  refine ⟨t, hputs, hlast _ rfl (hcircuit _).1 (hcircuit _).2,
    hother _ rfl (hcircuit _).1 (hcircuit _).2, hnone rfl (by decide), ?_⟩
  rw [Bool.eq_false_iff, ne_eq, hcontains]
  exact Bool.false_ne_true

end ArtifactCache

end PathSelection
