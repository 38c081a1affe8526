import PathSelection.Proofs.Circuit.RoundTrip
import PathSelection.Proofs.Generation.Listing
import PathSelection.Proofs.Generation.Ranking
import PathSelection.Proofs.Generation.Resumption
import PathSelection.Proofs.Generation.Stuck

/-!
# Runs that are repeated

A run whose compilers always come to the same outcome leaves nothing to do for
the next one.  Visits leave alone all files but the one that they visit, and so
every file of the corpus has an example or is stuck when the run is over.

Main results:

- Theorem `Generator.Visits.keepsFile`: what visits leave alone.
- Theorem `Generator.Visits.settled`: after visits every file is labelled or stuck.
- Theorem `Generator.exists_processFiles_of_settled`: a run over such files ends and leaves
  the dataset alone.
- Theorem `Generator.run_of_reached`: what a run does, and that a second one
  changes nothing.
-/

namespace PathSelection

namespace Generator

section Repetition

variable {α : Type} [Scalar α] {g : Generator α} {corpus dataset file id name : String}
  {labelled files : List String} {os : List (Outcome α)} {s t : Session} {storage : Storage}

/-! ## What visits leave alone -/

section Visits

variable {k : Location} {e : TrainingExample α}
  (hrepeat : g.Repeatable storage corpus dataset) (hcorpus : storage.place? corpus = some k)

include hrepeat hcorpus

omit [Scalar α] in
/-- The cache lies outside the corpus. -/
theorem keepsAt_name_store (hname : PathName.IsPlain name) (hid : '/' ∉ id.toList) (index : Nat)
    (compiled : Circuit) (s : Storage) :
    Storage.KeepsAt storage.home (PathName.join corpus name) s
      (g.cache.store s id index compiled).2 := by
  obtain ⟨hroot, l, hopen⟩ := hrepeat.ready
  have hcache := Storage.place?_of_opens hopen
  intro hhome
  refine (ArtifactCache.edits_store g.cache s id index compiled).keeps fun m hm htouched => ?_
  simp only [Storage.place?_congr hhome, Storage.place?_join hname hroot hcorpus,
    ArtifactCache.place?_draft hroot hcache hid, ArtifactCache.place?_path hroot hcache hid,
    Option.some.injEq] at hm htouched
  have hsame : k = l := by
    rcases htouched with hdraft | hpath
    · exact List.append_inj_left' (hm.trans hdraft.symm) rfl
    · exact List.append_inj_left' (hm.trans hpath.symm) rfl
  exact hrepeat.cache l k hcache hcorpus (hsame ▸ List.prefix_rfl)

/-- The dataset lies outside the corpus. -/
theorem keepsAt_name_append {s t : Storage} (hname : PathName.IsPlain name)
    (happend : Dataset.append s dataset e = .ok t) :
    Storage.KeepsAt storage.home (PathName.join corpus name) s t := by
  intro hhome
  refine (Dataset.edits_of_append happend).keeps fun m hm htouched => ?_
  simp only [Storage.place?_congr hhome, Storage.place?_join hname hrepeat.ready.1 hcorpus,
    Option.some.injEq] at hm htouched
  exact hrepeat.dataset m k htouched hcorpus (hm ▸ List.prefix_append k [name])

/-- Visits leave alone what a plain name in the corpus leads to. -/
theorem Visits.keeps_name (hvisits : Visits g dataset labelled s files os t)
    (hfiles : ∀ file ∈ files, Corpus.Names corpus file) (hname : PathName.IsPlain name) :
    Storage.KeepsAt storage.home (PathName.join corpus name) s.storage t.storage :=
  hvisits.rel (R := Storage.KeepsAt storage.home (PathName.join corpus name))
    (CompilerSet.respects_keepsAt (fun toolchain c hc circuit request s =>
      (hrepeat.call toolchain c hc circuit request s).file name hname) storage.home)
    (fun file hfile => keepsAt_name_store hrepeat hcorpus hname (hfiles file hfile).not_mem_toList)
    fun _ _ _ => keepsAt_name_append hrepeat hcorpus hname

omit hcorpus in
/-- Visits leave alone the compiled circuits of all other files. -/
theorem Visits.keeps_artifact (hspares : g.Spares storage dataset)
    (hvisits : Visits g dataset labelled s files os t)
    (hfiles : ∀ file ∈ files, Corpus.Names corpus file) (hid : '/' ∉ id.toList)
    (hother : id ∉ files.map Corpus.circuitId) (index : Nat) :
    Storage.KeepsAt storage.home (g.cache.path id index) s.storage t.storage := by
  obtain ⟨hroot, l, hopen⟩ := hrepeat.ready
  have hcache := Storage.place?_of_opens hopen
  refine hvisits.rel (R := Storage.KeepsAt storage.home (g.cache.path id index))
    (CompilerSet.respects_keepsAt (fun toolchain c hc circuit request s =>
      (hrepeat.call toolchain c hc circuit request s).artifact id index hid) storage.home)
    (fun file hfile index' compiled s hhome => ?_) fun e s t happend hhome => ?_
  · have hne : id ≠ Corpus.circuitId file := fun hsame =>
      hother (hsame ▸ List.mem_map_of_mem hfile)
    exact ArtifactCache.keeps_path_store (hhome ▸ hroot)
      ((Storage.place?_congr hhome).trans hcache) hid (hfiles file hfile).not_mem_toList
      (.inl hne) compiled
  · refine (Dataset.edits_of_append happend).keeps fun m hm htouched => ?_
    rw [Storage.place?_congr hhome] at hm htouched
    exact (hspares.store id index m hid htouched).2 hm

omit hcorpus in
/-- Visits leave the directory of the cache open. -/
theorem Visits.opens {l : Location} (hvisits : Visits g dataset labelled s files os t)
    (hopen : s.storage.Opens g.cache.directory l) : t.storage.Opens g.cache.directory l :=
  hvisits.rel (R := fun s t => s.Opens g.cache.directory l → t.Opens g.cache.directory l)
    { refl := fun _ h => h
      trans := fun hst htu h => htu (hst h)
      call := fun toolchain c hc circuit request s =>
        (hrepeat.call toolchain c hc circuit request s).directory l }
    (fun file _ index compiled s =>
      (ArtifactCache.edits_store g.cache s (Corpus.circuitId file) index compiled).opens)
    (fun _ _ _ happend => (Dataset.edits_of_append happend).opens) hopen

/-- Visits leave alone all other files of the corpus and what was compiled from them. -/
theorem Visits.keepsFile (hspares : g.Spares storage dataset)
    (hvisits : Visits g dataset labelled s files os t)
    (hfiles : ∀ file ∈ files, Corpus.Names corpus file) (hhome : s.storage.home = storage.home)
    (hfile : Corpus.Names corpus file)
    (hother : Corpus.circuitId file ∉ files.map Corpus.circuitId) :
    g.KeepsFile file s.storage t.storage := by
  obtain ⟨name, hname, rfl, hid⟩ := hfile
  exact ⟨hvisits.keeps_name hrepeat hcorpus hfiles hname hhome,
    fun index => hvisits.keeps_artifact hrepeat hspares hfiles hid hother index hhome,
    fun l => hvisits.opens hrepeat⟩

/-- The storage is as ready after visits as it was before them. -/
theorem Visits.ready (hvisits : Visits g dataset labelled s files os t)
    (hfiles : ∀ file ∈ files, Corpus.Names corpus file) (hhome : s.storage.home = storage.home)
    (hready : g.Ready s.storage) : t.storage.home = storage.home ∧ g.Ready t.storage := by
  cases files with
  | nil =>
    cases hvisits
    exact ⟨hhome, hready⟩
  | cons file files =>
    obtain ⟨name, hname, -⟩ := hfiles file List.mem_cons_self
    have hkept := hvisits.keeps_name hrepeat hcorpus hfiles hname hhome
    obtain ⟨hroot, l, hopen⟩ := hready
    exact ⟨hkept.home.trans hhome, by rw [hkept.home, hroot], l, hvisits.opens hrepeat hopen⟩

/-- After visits of different files every one of them is labelled or stuck. -/
theorem Visits.settled (hspares : g.Spares storage dataset)
    (hvisits : Visits g dataset labelled s files os t)
    (hfiles : ∀ file ∈ files, Corpus.Names corpus file)
    (hnodup : (files.map Corpus.circuitId).Nodup) (hhome : s.storage.home = storage.home)
    (hready : g.Ready s.storage)
    (hread : ∀ file ∈ files, ∃ text, s.storage.read file = .ok text) :
    ∀ file ∈ files, Corpus.circuitId file ∈ labelled ∨
      Corpus.circuitId file ∈ (os.filterMap Outcome.example?).map (·.circuitId) ∨
        g.Stuck file t.storage := by
  -- the first file is settled by its visit and left alone by the others, and these read their
  -- circuits as they were before it
  induction hvisits with
  | nil => simp
  | @cons s t u first files o os head tail ih =>
    obtain ⟨hfirst, hrest⟩ := List.forall_mem_cons.1 hfiles
    obtain ⟨hnew, hnodup⟩ := List.nodup_cons.1 hnodup
    obtain ⟨⟨text, htext⟩, hread⟩ := List.forall_mem_cons.1 hread
    have halone : Visits g dataset labelled s [first] [o] t := .cons head (.nil t)
    have hsingle : ∀ file ∈ [first], Corpus.Names corpus file := by simpa using hfirst
    have hkeeps (file : String) (hmem : file ∈ files) : g.KeepsFile file s.storage t.storage := by
      refine halone.keepsFile hrepeat hcorpus hspares hsingle hhome
        (hrest file hmem) fun hsame => hnew ?_
      rw [← List.mem_singleton.1 hsame]
      exact List.mem_map_of_mem hmem
    obtain ⟨hhome', hready'⟩ := halone.ready hrepeat hcorpus hsingle hhome hready
    have hexamples : ((o :: os).filterMap Outcome.example?).map (·.circuitId) =
        o.example?.toList.map (·.circuitId) ++
          (os.filterMap Outcome.example?).map (·.circuitId) := by
      rw [List.filterMap_cons]
      cases o.example? <;> simp
    rw [hexamples]
    simp only [List.mem_append]
    refine List.forall_mem_cons.2 ⟨?_, fun file hmem => ?_⟩
    · rcases head.settled hrepeat hfirst hready htext with hlabelled | hmade | hstuck
      · exact .inl hlabelled
      · exact .inr (.inl (.inl hmade))
      · exact .inr (.inr (hstuck.of_keepsFile hready' hfirst
          (tail.keepsFile hrepeat hcorpus hspares hrest hhome' hfirst hnew)))
    · have hkept : ∀ file ∈ files, ∃ text, t.storage.read file = .ok text := fun file hmem =>
        (hread file hmem).imp fun text htext => (hkeeps file hmem).source.read text htext
      rcases ih hrest hnodup hhome' hready' hkept file hmem with hlabelled | hmade | hstuck
      · exact .inl hlabelled
      · exact .inr (.inl (.inr hmade))
      · exact .inr (.inr hstuck)

end Visits

/-! ## Second runs -/

section Second

variable {summary : GenerationSummary}

/-- Handling a file that is stuck leaves the dataset alone. -/
theorem exists_processFile_of_settled (hrepeat : g.Repeatable storage corpus dataset)
    (hfile : Corpus.Names corpus file) (hready : g.Ready s.storage)
    (h : Corpus.circuitId file ∈ labelled ∨ g.Stuck file s.storage) :
    ∃ summary' t, g.processFile dataset labelled summary file s = .ok (some summary') t ∧
      summary'.processed = summary.processed ∧
      g.Undisturbed corpus dataset s.storage t.storage := by
  by_cases hid : Corpus.circuitId file ∈ labelled
  · exact ⟨_, s, processFile_of_mem hid, rfl, .refl g corpus dataset _⟩
  · obtain ⟨text, hread, hclosed⟩ := h.resolve_left hid
    rw [processFile_of_not_mem hid]
    cases husable : usable? (α := α) s.storage file with
    | none => exact ⟨_, s, rfl, rfl, .refl g corpus dataset _⟩
    | some circuit =>
      obtain ⟨hcircuit, hfits⟩ := usable?_eq_some_iff.1 husable
      obtain ⟨text', hread', hparsed⟩ := Corpus.readCircuit_eq_ok_iff.1 hcircuit
      obtain rfl : text = text' := Except.ok.inj (hread.symm.trans hread')
      obtain ⟨t, hnil⟩ := exists_artifacts_of_closed hrepeat hfile hready
        (fun _ hp => exists_descriptor hp) (hclosed circuit hparsed hfits)
      obtain ⟨as, t', has, hcases⟩ :=
        processInto_cases g dataset (Corpus.circuitId file) circuit summary s
      obtain ⟨rfl, rfl⟩ : as = [] ∧ t' = t := by simpa [hnil, eq_comm] using has
      rcases hcases with ⟨-, summary', hinto, hprocessed, -⟩ | ⟨hne, -⟩
      · exact ⟨summary', t', hinto, by simpa [Outcome.example?] using hprocessed,
          (closed_of_artifacts hrepeat hfile hready hnil).2⟩
      · exact absurd rfl hne

/-- A run over files that are labelled or stuck ends and leaves the dataset alone. -/
theorem exists_processFiles_of_settled (hrepeat : g.Repeatable storage corpus dataset)
    (hfiles : ∀ file ∈ files, Corpus.Names corpus file) (hready : g.Ready s.storage)
    (h : ∀ file ∈ files, Corpus.circuitId file ∈ labelled ∨ g.Stuck file s.storage) :
    ∃ summary' t, g.processFiles dataset labelled summary files s = .ok (some summary') t ∧
      summary'.processed = summary.processed ∧
      g.Undisturbed corpus dataset s.storage t.storage := by
  induction files generalizing summary s with
  | nil => exact ⟨summary, s, rfl, rfl, .refl g corpus dataset _⟩
  | cons file files ih =>
    obtain ⟨hfile, hfiles⟩ := List.forall_mem_cons.1 hfiles
    obtain ⟨hhere, hrest⟩ := List.forall_mem_cons.1 h
    obtain ⟨next, u, hprocess, hprocessed, hkeeps⟩ :=
      exists_processFile_of_settled hrepeat hfile hready hhere
    have hready' : g.Ready u.storage := hready.of_keepsFile (hkeeps.keepsFile hfile)
    obtain ⟨summary', t, hmore, hprocessed', hkeeps'⟩ := ih hfiles hready' fun file hmem =>
      (hrest file hmem).imp_right fun hstuck =>
        hstuck.of_keepsFile hready (hfiles file hmem) (hkeeps.keepsFile (hfiles file hmem))
    exact ⟨summary', t, processFiles_cons_eq_some_iff.2 ⟨next, u, hprocess, hmore⟩,
      hprocessed'.trans hprocessed, hkeeps.trans hkeeps'⟩

/-- After a run that can be repeated another one leaves the dataset alone, and if it begins at all,
it ends without a new example. -/
theorem undisturbed_after_run {es : List (TrainingExample α)}
    (hrepeat : g.Repeatable s.storage corpus dataset) (hspares : g.Spares s.storage dataset)
    (hlists : s.storage.Lists corpus) (hlists' : t.storage.Lists corpus)
    (hfiles : Corpus.files s.storage corpus = .ok files)
    (hvisits : Visits g dataset (es.map (·.circuitId)) s files os t)
    (hholds : Dataset.Holds t.storage dataset (es ++ os.filterMap Outcome.example?)) :
    g.Undisturbed corpus dataset t.storage (Selecting.after (g.run corpus dataset) t).storage ∧
      ∀ summary? u, g.run corpus dataset t = .ok summary? u →
        ∃ summary, summary? = some summary ∧ summary.processed = 0 := by
  obtain ⟨k, hcorpus⟩ := Corpus.exists_place?_of_files hfiles
  have hnames : ∀ file ∈ files, Corpus.Names corpus file := fun _ =>
    Corpus.names_of_mem_files hlists hfiles
  obtain ⟨-, hready⟩ := hvisits.ready hrepeat hcorpus hnames rfl hrepeat.ready
  have hsettled := hvisits.settled hrepeat hcorpus hspares hnames
    (Corpus.nodup_map_circuitId hlists hfiles) rfl hrepeat.ready
    fun _ => Corpus.exists_read_of_mem_files hfiles
  -- the second run sees no file that the first one has not settled
  have hsecond {files' labelled : List String}
      (hfiles' : Corpus.files t.storage corpus = .ok files')
      (hlabelled : Dataset.labelledIds t.storage dataset = .ok labelled) :
      ∃ summary' u, g.processFiles dataset labelled ⟨0, 0, 0, 0⟩ files' t =
          .ok (some summary') u ∧ summary'.processed = 0 ∧
        g.Undisturbed corpus dataset t.storage u.storage := by
    obtain rfl := Dataset.labelledIds_of_holds hholds hlabelled
    have hold : ∀ file ∈ files', file ∈ files := fun file hmem =>
      Corpus.mem_files_of_keeps hrepeat.ready.1
        (fun name hname => hvisits.keeps_name hrepeat hcorpus hnames hname rfl)
        hlists' hfiles hfiles' hmem
    refine exists_processFiles_of_settled hrepeat (fun file hmem => hnames file (hold file hmem))
      hready fun file hmem => ?_
    rw [List.map_append, List.mem_append, or_assoc]
    exact hsettled file (hold file hmem)
  constructor
  · rcases after_run_cases g corpus dataset t with
      hsame | ⟨files', labelled, hfiles', hlabelled, hafter⟩
    · rw [hsame]
      exact .refl g corpus dataset _
    · obtain ⟨summary', u, hdone, -, hkeeps⟩ := hsecond hfiles' hlabelled
      rwa [hafter, Selecting.after_of_eq_ok hdone]
  · intro summary? u hrun
    obtain ⟨files', labelled, hfiles', hlabelled, hdone⟩ := run_eq_ok_iff.1 hrun
    obtain ⟨summary', u', hdone', hprocessed, -⟩ := hsecond hfiles' hlabelled
    obtain ⟨rfl, -⟩ : summary? = some summary' ∧ u = u' := by simpa [hdone] using hdone'
    exact ⟨summary', rfl, hprocessed⟩

/-- The ids of a dataset that was absent at first are different in every line.  A run that succeeds
counts every file once and appends the examples that its visits make, in natural order of the
files; if it can be repeated, a second run leaves the dataset alone, and it ends if it begins. -/
theorem run_of_reached (hreached : Reached α dataset s) :
    ∃ es : List (TrainingExample α), Dataset.Holds s.storage dataset es ∧
      (es.map (·.circuitId)).Nodup ∧
      ∀ (g : Generator α) corpus, g.Spares s.storage dataset → s.storage.Lists corpus →
        ∀ summary t, g.run corpus dataset s = .ok (some summary) t →
          ∃ files os, Corpus.files s.storage corpus = .ok files ∧
            files.Pairwise (fun a b => naturalOrder a b ≠ .gt) ∧
            Visits g dataset (es.map (·.circuitId)) s files os t ∧
            summary.processed = (os.filterMap Outcome.example?).length ∧
            summary.skipped = os.countP Outcome.isSkipped ∧
            summary.alreadyLabelled = os.countP Outcome.isLabelled ∧
            summary.processed + summary.skipped + summary.alreadyLabelled = files.length ∧
            Dataset.Holds t.storage dataset (es ++ os.filterMap Outcome.example?) ∧
            ((os.filterMap Outcome.example?).map (·.circuitId)).Sublist
              (files.map Corpus.circuitId) ∧
            ((es ++ os.filterMap Outcome.example?).map (·.circuitId)).Nodup ∧
            (g.Repeatable s.storage corpus dataset → t.storage.Lists corpus →
              Storage.Keeps dataset t.storage
                  (Selecting.after (g.run corpus dataset) t).storage ∧
                ∀ summary? u, g.run corpus dataset t = .ok summary? u →
                  ∃ summary', summary? = some summary' ∧ summary'.processed = 0) := by
  obtain ⟨es, hholds, hes⟩ := exists_holds_of_reached hreached
  refine ⟨es, hholds, hes, fun g corpus hspares hlists summary t hrun => ?_⟩
  obtain ⟨files, os, hfiles, hvisits, hprocessed, hskipped, halready, hafter⟩ :=
    exists_visits_of_run hspares hlists hholds hrun
  have hcount : os.length = files.length := hvisits.length_eq
  refine ⟨files, os, hfiles, Corpus.pairwise_files hfiles, hvisits, hprocessed, hskipped, halready,
    ?_, hafter, hvisits.sublist_circuitId.1,
    hvisits.nodup_map_circuitId (Corpus.nodup_map_circuitId hlists hfiles) hes,
    fun hrepeat hlists' => ?_⟩
  · rw [hprocessed, hskipped, halready, Outcome.length_eq, hcount]
  · obtain ⟨hundisturbed, hnothing⟩ :=
      undisturbed_after_run hrepeat hspares hlists hlists' hfiles hvisits hafter
    exact ⟨hundisturbed.dataset, hnothing⟩

end Second

end Repetition

/-! ## A run over three files -/

/-- A circuit without operations. -/
def idleCircuit : Circuit := .withSize "idle" 2 0

/-- A storage with an empty cache and a corpus of two circuits and a file that is none; the circuits
are not listed in their natural order. -/
def idleStorage : Storage where
  home := "/"
  entries := [(["cache"], .directory), (["corpus"], .directory),
    (["corpus", "idle10.json"], .file idleCircuit.toText),
    (["corpus", "idle2.json"], .file idleCircuit.toText), (["corpus", "blank.json"], .file "")]

private theorem place?_idleStorage :
    idleStorage.place? "cache" = some ["cache"] ∧ idleStorage.place? "corpus" = some ["corpus"] ∧
      idleStorage.place? "data.jsonl" = some ["data.jsonl"] :=
  ⟨rfl, rfl, rfl⟩

private theorem files_idleStorage :
    Corpus.files idleStorage "corpus" =
      .ok ["corpus/blank.json", "corpus/idle2.json", "corpus/idle10.json"] :=
  Corpus.files_eq_ok_iff.2 ⟨["idle10.json", "idle2.json", "blank.json"], rfl,
    naturalSort_eq_iff.2 ⟨by decide, by decide⟩⟩

private theorem ofText_toText_idleCircuit :
    Circuit.ofText idleCircuit.toText = .ok idleCircuit := by
  have hbuilt : idleCircuit.Built := .withSize "idle" (by decide) (by decide)
  have hgates : idleCircuit.Representable := fun i hi => by cases hi
  exact hbuilt.replayed.ofText_toText hgates

/-- A file with the circuit in it can be used. -/
theorem usable?_of_read {s : Storage} {file : String}
    (h : s.read file = .ok idleCircuit.toText) : usable? (α := Rat) s file = some idleCircuit :=
  usable?_eq_some_iff.2
    ⟨Corpus.readCircuit_eq_ok_iff.2 ⟨_, h, ofText_toText_idleCircuit⟩, by decide +kernel⟩

private theorem usable?_blank : usable? (α := Rat) idleStorage "corpus/blank.json" = none := rfl

private theorem lists_of_list {s : Storage}
    (h : s.list "corpus" = .ok ["idle10.json", "idle2.json", "blank.json"]) :
    s.Lists "corpus" := by
  intro names hnames
  obtain rfl := Except.ok.inj (h.symm.trans hnames)
  have hplain : ∀ name ∈ ["idle10.json", "idle2.json", "blank.json"],
      '/' ∉ name.toList ∧ name ≠ "" ∧ name ≠ "." ∧ name ≠ ".." := by decide
  exact ⟨by decide, fun name hname => hplain name hname⟩

/-- The compilers of the plain generator leave the storage as it is. -/
theorem compile_plainGenerator {toolchain : Toolchain} {c : Compiler}
    (h : plainGenerator.compilers.get? toolchain = some c) (circuit : Circuit)
    (request : CompileRequest) (s : Storage) :
    c.compile circuit request s = (.finished ⟨0⟩ (.ok circuit), s) := by
  rw [plainGenerator, CompilerSet.get?_insert] at h
  split_ifs at h
  · obtain rfl := Option.some.inj h
    rfl
  · cases h

private theorem spares_idleStorage : plainGenerator.Spares idleStorage "data.jsonl" where
  call _ _ hc circuit request s := by
    rw [compile_plainGenerator hc]
    exact .refl _ s
  store id index l hid hl := by
    obtain ⟨hcache, -, hdataset⟩ := place?_idleStorage
    replace hcache : idleStorage.place? plainGenerator.cache.directory = some ["cache"] := hcache
    obtain rfl := Option.some.inj (hdataset.symm.trans hl)
    rw [ArtifactCache.place?_draft (by decide) hcache hid,
      ArtifactCache.place?_path (by decide) hcache hid]
    simp

private theorem repeatable_idleStorage :
    plainGenerator.Repeatable idleStorage "corpus" "data.jsonl" where
  steady _ _ hc circuit request s t := by
    rw [compile_plainGenerator hc, compile_plainGenerator hc]
  call _ _ hc circuit request s := by
    rw [compile_plainGenerator hc]
    exact .refl _ _ _ s
  ready := ⟨by decide, ["cache"], ["cache"], rfl, rfl, rfl⟩
  cache l k hl hk := by
    obtain ⟨hcache, hcorpus, -⟩ := place?_idleStorage
    obtain rfl := Option.some.inj (hcache.symm.trans hl)
    obtain rfl := Option.some.inj (hcorpus.symm.trans hk)
    decide
  dataset l k hl hk := by
    obtain ⟨-, hcorpus, hdataset⟩ := place?_idleStorage
    obtain rfl := Option.some.inj (hdataset.symm.trans hl)
    obtain rfl := Option.some.inj (hcorpus.symm.trans hk)
    decide

/-- A run over the three files makes examples of two of them and leaves the corpus as it is. -/
theorem exists_run_idleStorage :
    ∃ summary t, plainGenerator.run "corpus" "data.jsonl" (.fresh idleStorage) =
        .ok (some summary) t ∧
      summary.processed = 2 ∧ summary.skipped = 1 ∧
      t.storage.list "corpus" = .ok ["idle10.json", "idle2.json", "blank.json"] := by
  -- what is left of the first circuit goes into the second one
  have hinto : Selecting.yields
      (plainGenerator.processInto "data.jsonl" "idle2" idleCircuit ⟨0, 1, 0, 0⟩)
      (.fresh idleStorage) (fun next? u =>
        (u.storage.read "corpus/idle10.json").toOption == some idleCircuit.toText &&
          next?.any fun next => Selecting.yields
            (plainGenerator.processInto "data.jsonl" "idle10" idleCircuit next) u
            (fun summary? t => summary?.any (fun summary => summary.processed == 2 &&
                summary.skipped == 1) &&
              (t.storage.list "corpus").toOption ==
                some ["idle10.json", "idle2.json", "blank.json"])) = true := by
    decide +kernel
  obtain ⟨next?, u, hfirst, hkind⟩ := Selecting.exists_of_yields hinto
  simp only [Bool.and_eq_true, beq_iff_eq, Option.any_eq_true] at hkind
  obtain ⟨hread, next, rfl, hmore⟩ := hkind
  obtain ⟨summary?, t, hsecond, hkind⟩ := Selecting.exists_of_yields hmore
  simp only [Bool.and_eq_true, beq_iff_eq, Option.any_eq_true] at hkind
  obtain ⟨⟨summary, rfl, hprocessed, hskipped⟩, hlist⟩ := hkind
  have hnew (file : String) : Corpus.circuitId file ∉ [] := List.not_mem_nil
  have hblank : plainGenerator.processFile "data.jsonl" [] ⟨0, 0, 0, 0⟩ "corpus/blank.json"
      (.fresh idleStorage) = .ok (some ⟨0, 1, 0, 0⟩) (.fresh idleStorage) := by
    rw [processFile_of_not_mem (hnew _), Session.fresh, usable?_blank]
  have hidle2 : plainGenerator.processFile "data.jsonl" [] ⟨0, 1, 0, 0⟩ "corpus/idle2.json"
      (.fresh idleStorage) = .ok (some next) u := by
    rw [processFile_of_not_mem (hnew _), Session.fresh, usable?_of_read rfl]
    exact hfirst
  have hidle10 : plainGenerator.processFile "data.jsonl" [] next "corpus/idle10.json" u =
      .ok (some summary) t := by
    rw [processFile_of_not_mem (hnew _), usable?_of_read (toOption_eq_some_iff.1 hread)]
    exact hsecond
  refine ⟨summary, t, run_eq_ok_iff.2 ⟨_, [], files_idleStorage, rfl, ?_⟩, hprocessed, hskipped,
    toOption_eq_some_iff.1 hlist⟩
  exact processFiles_cons_eq_some_iff.2 ⟨_, _, hblank,
    processFiles_cons_eq_some_iff.2 ⟨_, _, hidle2,
      processFiles_cons_eq_some_iff.2 ⟨_, _, hidle10, rfl⟩⟩⟩

/-- A first run over the three files skips the one that is no circuit and appends the examples of
the two others in natural order; a second one appends nothing. -/
theorem run_of_reached_idleStorage :
    ∃ summary t, ∃ e e' : TrainingExample Rat,
      plainGenerator.run "corpus" "data.jsonl" (.fresh idleStorage) = .ok (some summary) t ∧
      summary.processed = 2 ∧ summary.skipped = 1 ∧ summary.alreadyLabelled = 0 ∧
      e.circuitId = "idle2" ∧ e'.circuitId = "idle10" ∧
      Dataset.Holds t.storage "data.jsonl" [e, e'] ∧
      Storage.Keeps "data.jsonl" t.storage
        (Selecting.after (plainGenerator.run "corpus" "data.jsonl") t).storage := by
  have habsent : idleStorage.Lacks "data.jsonl" := by
    intro l text hl
    obtain rfl := Option.some.inj (place?_idleStorage.2.2.symm.trans hl)
    have hnothing : idleStorage.entryAt? ["data.jsonl"] = none := rfl
    simp [hnothing]
  have hlists : idleStorage.Lists "corpus" := lists_of_list rfl
  obtain ⟨summary, t, hrun, htwo, hone, hlist⟩ := exists_run_idleStorage
  have hreached : Reached Rat "data.jsonl" (.fresh idleStorage) := .start habsent
  obtain ⟨es, hholds, -, hruns⟩ := run_of_reached hreached
  obtain ⟨files, os, hfiles, -, hvisits, hprocessed, -, -, htotal, hafter, -, -, hagain⟩ :=
    hruns plainGenerator "corpus" spares_idleStorage hlists summary t hrun
  obtain rfl : es = [] := by
    rcases hholds with ⟨rfl, -⟩ | hread
    · rfl
    · exact absurd hread (Dataset.read_ne_ok_of_lacks habsent)
  obtain rfl := Except.ok.inj (files_idleStorage.symm.trans hfiles)
  rw [htwo] at hprocessed
  rw [htwo, hone] at htotal
  -- the first file makes no example, so the two examples are those of the others
  cases hvisits with
  | @cons _ u _ _ _ o os head tail =>
    have hnone : o.example? = none := by
      cases head with
      | made hid hread hfits =>
        have husable := usable?_eq_some_iff.2 ⟨hread, hfits⟩
        rw [Session.fresh, usable?_blank] at husable
        cases husable
      | labelled | unreadable | tooWide | uncompiled => rfl
    rw [List.filterMap_cons_none hnone] at hprocessed hafter
    obtain ⟨e, e', hexamples⟩ := List.length_eq_two.1 hprocessed.symm
    have hids := tail.sublist_circuitId.1.eq_of_length (by simpa using hprocessed.symm)
    rw [hexamples] at hids hafter
    replace hids : [e.circuitId, e'.circuitId] = ["idle2", "idle10"] := hids
    obtain ⟨hid, hid'⟩ : e.circuitId = "idle2" ∧ e'.circuitId = "idle10" := by simpa using hids
    exact ⟨summary, t, e, e', hrun, htwo, hone, by simpa using htotal, hid, hid', hafter,
      (hagain repeatable_idleStorage (lists_of_list hlist)).1⟩

end Generator

end PathSelection
