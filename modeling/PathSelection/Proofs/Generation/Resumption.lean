import PathSelection.Proofs.Dataset.Lines
import PathSelection.Proofs.Generation.Cache
import PathSelection.Proofs.Generation.Corpus
import PathSelection.Proofs.Generation.Visits

/-!
# Runs that go on where others have ended

A dataset that was absent at first and has only been appended to by runs holds
one line for each example, and no two of them have the same id: a run reads the
ids that earlier runs have written and leaves their circuits alone.

Main results:

- Theorem `Generator.Visits.holds`: visits append their examples.
- Theorem `Generator.Visits.nodup_map_circuitId`: visits of different files append
  no id twice.
- Theorem `Generator.exists_holds_of_reached`: after any runs, whether they have
  succeeded or not, no two lines have the same id.
- Theorem `Generator.exists_visits_of_run`: a run that succeeds visits all files
  and counts each of them once.
-/

namespace PathSelection

/-- From a storage with this home on, what a path name leads to is kept. -/
def Storage.KeepsAt (home path : String) (s t : Storage) : Prop := s.home = home → Keeps path s t

/-- Compilers that leave a file alone keep it at its place. -/
theorem CompilerSet.respects_keepsAt {cs : CompilerSet} {path : String}
    (h : ∀ toolchain c, cs.get? toolchain = some c → ∀ circuit request s,
      Storage.Keeps path s (c.compile circuit request s).2) (home : String) :
    cs.Respects (Storage.KeepsAt home path) where
  refl s _ := .refl path s
  trans hst htu hs := (hst hs).trans (htu ((hst hs).home.trans hs))
  call toolchain c hc circuit request s _ := h toolchain c hc circuit request s

namespace Generator

variable {α : Type} [Scalar α] {g : Generator α} {corpus dataset file id : String}
  {labelled files : List String} {es : List (TrainingExample α)} {o : Outcome α}
  {os : List (Outcome α)} {s t : Session}

/-! ## Datasets that are only appended to -/

/-- Neither compilers nor files of the cache interfere with a dataset. -/
structure Spares (g : Generator α) (s : Storage) (dataset : String) : Prop where
  call : ∀ toolchain c, g.compilers.get? toolchain = some c → ∀ circuit request s,
    Storage.Keeps dataset s (c.compile circuit request s).2
  store : ∀ id index l, '/' ∉ id.toList → s.place? dataset = some l →
    s.place? (g.cache.draft id index) ≠ some l ∧ s.place? (g.cache.path id index) ≠ some l

omit [Scalar α] in
private theorem Spares.keepsAt_store {storage : Storage} (h : g.Spares storage dataset)
    (hid : '/' ∉ id.toList) (index : Nat) (compiled : Circuit) (s : Storage) :
    Storage.KeepsAt storage.home dataset s (g.cache.store s id index compiled).2 := by
  intro hhome
  refine (ArtifactCache.edits_store g.cache s id index compiled).keeps fun l hl htouched => ?_
  simp only [Storage.place?_congr hhome] at hl htouched
  obtain ⟨hdraft, hpath⟩ := h.store id index l hid hl
  exact htouched.elim hdraft hpath

/-- A visit appends its example, if it makes one. -/
theorem Visit.holds (hvisit : Visit g dataset labelled file s o t) {storage : Storage}
    (hspares : g.Spares storage dataset) (hid : '/' ∉ (Corpus.circuitId file).toList)
    (hhome : s.storage.home = storage.home) (h : Dataset.Holds s.storage dataset es) :
    Dataset.Holds t.storage dataset (es ++ o.example?.toList) ∧
      t.storage.home = storage.home := by
  have hartifacts {circuit : Circuit} {as : List (Artifact α)} {u : Session}
      (has : g.artifacts (Corpus.circuitId file) circuit CompilationPath.catalog s = .ok as u) :
      Storage.Keeps dataset s.storage u.storage :=
    rel_of_artifacts (CompilerSet.respects_keepsAt hspares.call storage.home)
      (hspares.keepsAt_store hid) has hhome
  cases hvisit with
  | labelled | unreadable | tooWide => simpa [Outcome.example?] using ⟨h, hhome⟩
  | uncompiled _ _ _ hnone =>
    have hkeeps := hartifacts hnone
    simpa [Outcome.example?] using ⟨h.of_keeps hkeeps, hkeeps.home.trans hhome⟩
  | made _ _ _ hsome _ _ happend =>
    have hkeeps := hartifacts hsome
    exact ⟨Dataset.holds_of_append (h.of_keeps hkeeps) happend,
      (Dataset.edits_of_append happend).home.trans (hkeeps.home.trans hhome)⟩

/-- Visits append their examples, in the order of the files. -/
theorem Visits.holds (hvisits : Visits g dataset labelled s files os t) {storage : Storage}
    (hspares : g.Spares storage dataset)
    (hids : ∀ file ∈ files, '/' ∉ (Corpus.circuitId file).toList)
    (hhome : s.storage.home = storage.home) (h : Dataset.Holds s.storage dataset es) :
    Dataset.Holds t.storage dataset (es ++ os.filterMap Outcome.example?) ∧
      t.storage.home = storage.home := by
  induction hvisits generalizing es with
  | nil => simpa using ⟨h, hhome⟩
  | @cons s t u file files o os head _ ih =>
    obtain ⟨hid, hids⟩ := List.forall_mem_cons.1 hids
    obtain ⟨hhead, hhome'⟩ := head.holds hspares hid hhome h
    have hexamples : es ++ (o :: os).filterMap Outcome.example? =
        es ++ o.example?.toList ++ os.filterMap Outcome.example? := by
      rw [List.filterMap_cons]
      cases o.example? <;> simp
    rw [hexamples]
    exact ih hids hhome' hhead

/-! ## Runs -/

/-- A run processes the files of its corpus, knowing the ids that are labelled. -/
theorem run_eq_ok_iff {summary? : Option GenerationSummary} :
    g.run corpus dataset s = .ok summary? t ↔
      ∃ files labelled, Corpus.files s.storage corpus = .ok files ∧
        Dataset.labelledIds s.storage dataset = .ok labelled ∧
        g.processFiles dataset labelled ⟨0, 0, 0, 0⟩ files s = .ok summary? t := by
  unfold run
  simp only [Selecting.bind_eq_ok_iff, Selecting.look_eq_ok_iff]
  constructor
  · rintro ⟨files, _, ⟨hfiles, rfl⟩, labelled, _, ⟨hlabelled, rfl⟩, hdone⟩
    exact ⟨files, labelled, hfiles, hlabelled, hdone⟩
  · rintro ⟨files, labelled, hfiles, hlabelled, hdone⟩
    exact ⟨files, s, ⟨hfiles, rfl⟩, labelled, s, ⟨hlabelled, rfl⟩, hdone⟩

/-- A run that cannot begin changes nothing; another one handles the files of the corpus. -/
theorem after_run_cases (g : Generator α) (corpus dataset : String) (s : Session) :
    Selecting.after (g.run corpus dataset) s = s ∨
      ∃ files labelled, Corpus.files s.storage corpus = .ok files ∧
        Dataset.labelledIds s.storage dataset = .ok labelled ∧
        Selecting.after (g.run corpus dataset) s =
          Selecting.after (g.processFiles dataset labelled ⟨0, 0, 0, 0⟩ files) s := by
  cases hfiles : Corpus.files s.storage corpus with
  | error cause =>
    have hfails : g.run corpus dataset s = .error cause s :=
      Selecting.bind_eq_error_iff.2 (.inl (Selecting.look_eq_error_iff.2 ⟨hfiles, rfl⟩))
    exact .inl (Selecting.after_of_eq_error hfails)
  | ok files =>
    have hlook : Selecting.look (Corpus.files · corpus) s = .ok files s :=
      Selecting.look_eq_ok_iff.2 ⟨hfiles, rfl⟩
    cases hlabelled : Dataset.labelledIds s.storage dataset with
    | error cause =>
      have hfails : g.run corpus dataset s = .error cause s :=
        Selecting.bind_eq_error_iff.2 (.inr ⟨files, s, hlook, Selecting.bind_eq_error_iff.2
          (.inl (Selecting.look_eq_error_iff.2 ⟨hlabelled, rfl⟩))⟩)
      exact .inl (Selecting.after_of_eq_error hfails)
    | ok labelled =>
      refine .inr ⟨files, labelled, rfl, rfl, ?_⟩
      have hlook' : Selecting.look (Dataset.labelledIds · dataset) s = .ok labelled s :=
        Selecting.look_eq_ok_iff.2 ⟨hlabelled, rfl⟩
      unfold Selecting.after run
      simp only [bind, EStateM.bind, hlook, hlook']

/-- Visits of files with different ids append no id twice. -/
theorem Visits.nodup_map_circuitId (h : Visits g dataset (es.map (·.circuitId)) s files os t)
    (hfiles : (files.map Corpus.circuitId).Nodup) (hes : (es.map (·.circuitId)).Nodup) :
    ((es ++ os.filterMap Outcome.example?).map (·.circuitId)).Nodup := by
  obtain ⟨hsub, hnew⟩ := h.sublist_circuitId
  rw [List.map_append]
  refine List.nodup_append'.2 ⟨hes, hfiles.sublist hsub, fun id hid hid' => ?_⟩
  obtain ⟨e, he, rfl⟩ := List.mem_map.1 hid'
  exact hnew e he hid

/-- A run that succeeds visits all files and counts each of them once. -/
theorem exists_visits_of_run {summary : GenerationSummary} (hspares : g.Spares s.storage dataset)
    (hlists : s.storage.Lists corpus) (hholds : Dataset.Holds s.storage dataset es)
    (h : g.run corpus dataset s = .ok (some summary) t) :
    ∃ files os, Corpus.files s.storage corpus = .ok files ∧
      Visits g dataset (es.map (·.circuitId)) s files os t ∧
      summary.processed = (os.filterMap Outcome.example?).length ∧
      summary.skipped = os.countP Outcome.isSkipped ∧
      summary.alreadyLabelled = os.countP Outcome.isLabelled ∧
      Dataset.Holds t.storage dataset (es ++ os.filterMap Outcome.example?) := by
  obtain ⟨files, labelled, hfiles, hlabelled, hdone⟩ := run_eq_ok_iff.1 h
  obtain rfl := Dataset.labelledIds_of_holds hholds hlabelled
  obtain ⟨os, hvisits, hprocessed, hskipped, halready⟩ := exists_visits_of_processFiles hdone
  have hids : ∀ file ∈ files, '/' ∉ (Corpus.circuitId file).toList := fun file hfile =>
    (Corpus.names_of_mem_files hlists hfiles hfile).not_mem_toList
  exact ⟨files, os, hfiles, hvisits, by simpa using hprocessed, by simpa using hskipped,
    by simpa using halready, (hvisits.holds hspares hids rfl hholds).1⟩

/-- The sessions in which a dataset that was absent at first has been touched by runs only, some of
which may have failed. -/
inductive Reached (α : Type) [Scalar α] (dataset : String) : Session → Prop
  | start {s : Session} (absent : s.storage.Lacks dataset) : Reached α dataset s
  | elsewhere {s t : Session} (before : Reached α dataset s)
      (keeps : Storage.Keeps dataset s.storage t.storage) : Reached α dataset t
  | run {s : Session} (before : Reached α dataset s) (g : Generator α) (corpus : String)
      (spares : g.Spares s.storage dataset) (lists : s.storage.Lists corpus) :
      Reached α dataset (Selecting.after (g.run corpus dataset) s)

/-- A run appends examples to a dataset whose ids are new, whether or not it succeeds or ends. -/
theorem exists_holds_after_run (hspares : g.Spares s.storage dataset)
    (hlists : s.storage.Lists corpus) (hholds : Dataset.Holds s.storage dataset es)
    (hes : (es.map (·.circuitId)).Nodup) :
    ∃ new : List (TrainingExample α),
      Dataset.Holds (Selecting.after (g.run corpus dataset) s).storage dataset (es ++ new) ∧
        ((es ++ new).map (·.circuitId)).Nodup := by
  rcases after_run_cases g corpus dataset s with
    hafter | ⟨files, labelled, hfiles, hlabelled, hafter⟩
  · exact ⟨[], by simpa [hafter] using hholds, by simpa using hes⟩
  · obtain rfl := Dataset.labelledIds_of_holds hholds hlabelled
    have hnodup := Corpus.nodup_map_circuitId hlists hfiles
    have hids : ∀ file ∈ files, '/' ∉ (Corpus.circuitId file).toList := fun file hfile =>
      (Corpus.names_of_mem_files hlists hfiles hfile).not_mem_toList
    rw [hafter]
    by_cases hdone : ∃ summary t, g.processFiles dataset (es.map (·.circuitId)) ⟨0, 0, 0, 0⟩ files s =
        .ok (some summary) t
    · obtain ⟨summary, t, hdone⟩ := hdone
      obtain ⟨os, hvisits, -⟩ := exists_visits_of_processFiles hdone
      rw [Selecting.after_of_eq_ok hdone]
      exact ⟨_, (hvisits.holds hspares hids rfl hholds).1, hvisits.nodup_map_circuitId hnodup hes⟩
    · -- what the visits have appended is left by looking for the artifacts of one more file
      obtain ⟨visited, file, rest, os, u, circuit, as, rfl, hvisits, has⟩ :=
        exists_visits_of_not_done fun summary t h => hdone ⟨summary, t, h⟩
      obtain ⟨hvisited, hrest⟩ := List.forall_mem_append.1 hids
      obtain ⟨hbefore, hhome⟩ := hvisits.holds hspares hvisited rfl hholds
      have hkeeps := rel_of_artifacts (CompilerSet.respects_keepsAt hspares.call s.storage.home)
        (hspares.keepsAt_store (hrest file List.mem_cons_self)) has hhome
      rw [List.map_append] at hnodup
      exact ⟨_, hbefore.of_keeps hkeeps, hvisits.nodup_map_circuitId hnodup.of_append_left hes⟩

/-- After any runs a dataset that was absent at first holds examples with different ids. -/
theorem exists_holds_of_reached (h : Reached α dataset s) :
    ∃ es : List (TrainingExample α), Dataset.Holds s.storage dataset es ∧
      (es.map (·.circuitId)).Nodup := by
  induction h with
  | start absent => exact ⟨[], .inl ⟨rfl, absent⟩, List.nodup_nil⟩
  | elsewhere _ keeps ih =>
    obtain ⟨es, hholds, hes⟩ := ih
    exact ⟨es, hholds.of_keeps keeps, hes⟩
  | run _ g corpus spares lists ih =>
    obtain ⟨es, hholds, hes⟩ := ih
    obtain ⟨new, hnew, hnodup⟩ := exists_holds_after_run spares lists hholds hes
    exact ⟨es ++ new, hnew, hnodup⟩

end Generator

end PathSelection
