import PathSelection.Proofs.Generation.Cache
import PathSelection.Proofs.Generation.Corpus
import PathSelection.Proofs.Generation.Visits

/-!
# Files that are stuck

A file is stuck if no run can make an example of it: its circuit cannot be read,
is too wide or has all its paths closed.  A path is closed to a circuit if its
device is too narrow, or if the cache has no compiled circuit and no compiler
ever comes to one.  A file stays stuck as long as it is left alone together with
its files in the cache.

Main results:

- Theorem `Generator.closed_of_artifacts`: a circuit without artifacts has all its
  paths closed.
- Theorem `Generator.exists_artifacts_of_closed`: it has none if they are.
- Theorem `Generator.Stuck.of_keepsFile`: a file that is left alone stays stuck.
- Theorem `Generator.Visit.settled`: a file is labelled or stuck after its visit.
-/

namespace PathSelection

/-- A circuit is read from the text of its file. -/
theorem Corpus.readCircuit_eq_ok_iff {s : Storage} {file : String} {circuit : Circuit} :
    Corpus.readCircuit s file = .ok circuit ↔
      ∃ text, s.read file = .ok text ∧ Circuit.ofText text = .ok circuit := by
  unfold Corpus.readCircuit
  cases s.read file with
  | error fault => simp [Except.mapError, bind, Except.bind]
  | ok text =>
    simp only [Except.mapError, bind, Except.bind, Except.ok.injEq, exists_eq_left']
    cases Circuit.ofText text <;> simp

/-- No place of a path name is in a directory or below it. -/
def Storage.Outside (s : Storage) (path directory : String) : Prop :=
  ∀ l k, s.place? path = some l → s.place? directory = some k → ¬ k <+: l

/-- Compilers whose outcome for a circuit and a path is always the same. -/
def CompilerSet.Steady (cs : CompilerSet) : Prop :=
  ∀ toolchain c, cs.get? toolchain = some c → ∀ circuit request s t,
    (c.compile circuit request s).1 = (c.compile circuit request t).1

namespace Generator

variable {α : Type} {g : Generator α} {corpus dataset file id name : String} {circuit : Circuit}
  {p : CompilationPath} {labelled files : List String} {os : List (Outcome α)}

/-! ## What is left alone -/

/-- A file of a corpus is left alone, and the circuits compiled from it are left in the cache. -/
structure KeepsFile (g : Generator α) (file : String) (s t : Storage) : Prop where
  source : Storage.Keeps file s t
  artifact : ∀ index, Storage.Keeps (g.cache.path (Corpus.circuitId file) index) s t
  directory : ∀ l, s.Opens g.cache.directory l → t.Opens g.cache.directory l

/-- The dataset, all files of the corpus and all compiled circuits in the cache are left alone. -/
structure Undisturbed (g : Generator α) (corpus dataset : String) (s t : Storage) : Prop where
  dataset : Storage.Keeps dataset s t
  file : ∀ name, PathName.IsPlain name → Storage.Keeps (PathName.join corpus name) s t
  artifact : ∀ id index, '/' ∉ id.toList → Storage.Keeps (g.cache.path id index) s t
  directory : ∀ l, s.Opens g.cache.directory l → t.Opens g.cache.directory l

namespace Undisturbed

variable {s t u : Storage}

/-- Nothing is disturbed where nothing happens. -/
theorem refl (g : Generator α) (corpus dataset : String) (s : Storage) :
    g.Undisturbed corpus dataset s s :=
  ⟨.refl dataset s, fun _ _ => .refl _ s, fun _ _ _ => .refl _ s, fun _ h => h⟩

/-- What disturbs nothing in either part disturbs nothing. -/
theorem trans (h : g.Undisturbed corpus dataset s t) (h' : g.Undisturbed corpus dataset t u) :
    g.Undisturbed corpus dataset s u where
  dataset := h.dataset.trans h'.dataset
  file name hname := (h.file name hname).trans (h'.file name hname)
  artifact id index hid := (h.artifact id index hid).trans (h'.artifact id index hid)
  directory l hopen := h'.directory l (h.directory l hopen)

/-- Undisturbed storages keep the files of the corpus and what the cache has for them. -/
theorem keepsFile (h : g.Undisturbed corpus dataset s t) (hfile : Corpus.Names corpus file) :
    g.KeepsFile file s t := by
  obtain ⟨name, hname, rfl, hid⟩ := hfile
  exact ⟨h.file name hname, fun index => h.artifact _ index hid, h.directory⟩

end Undisturbed

/-- The storage has a root of its own, and the directory of the cache has been made. -/
def Ready (g : Generator α) (s : Storage) : Prop :=
  PathName.isAbsolute s.home = true ∧ ∃ l, s.Opens g.cache.directory l

/-- A generator stays ready where files are kept. -/
theorem Ready.of_keepsFile {s t : Storage} (h : g.Ready s) (hkeeps : g.KeepsFile file s t) :
    g.Ready t := by
  obtain ⟨hhome, l, hopen⟩ := h
  exact ⟨hkeeps.source.home ▸ hhome, l, hkeeps.directory l hopen⟩

/-- A run can be repeated: the outcomes of compilers are always the same, compilers leave alone
what the generator works with, and the dataset and the cache lie outside the corpus. -/
structure Repeatable (g : Generator α) (s : Storage) (corpus dataset : String) : Prop where
  steady : g.compilers.Steady
  call : ∀ toolchain c, g.compilers.get? toolchain = some c → ∀ circuit request s,
    g.Undisturbed corpus dataset s (c.compile circuit request s).2
  ready : g.Ready s
  cache : s.Outside g.cache.directory corpus
  dataset : s.Outside dataset corpus

private theorem Repeatable.respects {storage : Storage} (h : g.Repeatable storage corpus dataset) :
    g.compilers.Respects (g.Undisturbed corpus dataset) where
  refl := .refl g corpus dataset
  trans := .trans
  call := h.call

/-! ## Closed paths -/

/-- The cache has no circuit that is compiled along a path. -/
def Uncached (g : Generator α) (id : String) (p : CompilationPath) (s : Storage) : Prop :=
  ∀ text, s.read (g.cache.path id p.index) = .ok text → ∀ c, Circuit.ofText text ≠ .ok c

/-- No compiler has a result for a circuit and a path. -/
def Refuses (g : Generator α) (circuit : Circuit) (p : CompilationPath) : Prop :=
  ∀ c, g.compilers.get? p.toolchain = some c → ∀ s, ∃ cause,
    (c.compile circuit p.request s).1.resultBy p.request.path (some g.deadline) = .error cause

/-- A path is closed to a circuit: its device is too narrow, or there is no compiled circuit in the
cache and none to be had from a compiler. -/
def Closed [Scalar α] (g : Generator α) (id : String) (circuit : Circuit) (p : CompilationPath)
    (s : Storage) : Prop :=
  (∀ d : Descriptor α, p.descriptor = .ok d → d.numQubits < circuit.numQubits) ∨
    g.Uncached id p s ∧ g.Refuses circuit p

private theorem cached?_eq_none_iff {s : Session} :
    g.cached? s id p = none ↔ g.Uncached id p s.storage := by
  unfold cached? ArtifactCache.load Uncached
  cases hread : s.storage.read (g.cache.path id p.index) with
  | error fault => cases fault <;> simp
  | ok text =>
    simp only [Except.ok.injEq, forall_eq']
    cases Circuit.ofText text <;> simp [Except.toOption]

section Closed

variable {s t : Session}

private theorem compiled?_eq_none_iff : g.compiled? id circuit p s = .ok none t ↔
    g.Uncached id p s.storage ∧ ∃ cause, g.compile id circuit p s = .error cause t := by
  rw [← cached?_eq_none_iff]
  unfold compiled?
  cases g.cached? s id p with
  | some c => simp
  | none => cases g.compile id circuit p s <;> simp

/-- A compiler without a result is all that a failed compilation has called. -/
theorem compile_eq_error (hsteady : g.compilers.Steady) {R : Storage → Storage → Prop}
    (hrespects : g.compilers.Respects R) {cause : SelectionError}
    (h : g.compile id circuit p s = .error cause t) :
    g.Refuses circuit p ∧ R s.storage t.storage := by
  cases hcompiler : g.compilers.get? p.toolchain with
  | none =>
    obtain ⟨cause', hfails⟩ := compile_of_eq_none hcompiler id circuit s
    obtain ⟨-, rfl⟩ : cause' = cause ∧ s = t := by simpa [hfails] using h
    exact ⟨fun c hc => by simp [hcompiler] at hc, hrespects.refl _⟩
  | some c =>
    rw [compile_of_eq_some hcompiler] at h
    split at h
    · cases h
    · rename_i reason hresult
      obtain ⟨-, rfl⟩ : reason = cause ∧ called c circuit p s = t := by simpa using h
      refine ⟨fun other hother storage => ⟨reason, ?_⟩, hrespects.call _ c hcompiler _ _ _⟩
      obtain rfl : c = other := Option.some.inj (hcompiler.symm.trans hother)
      rw [hsteady _ c hcompiler circuit p.request storage s.storage, hresult]

private theorem exists_compile_eq_error (h : g.Refuses circuit p) (id : String) (s : Session) :
    ∃ cause t, g.compile id circuit p s = .error cause t := by
  cases hcompiler : g.compilers.get? p.toolchain with
  | none =>
    obtain ⟨cause, hfails⟩ := compile_of_eq_none hcompiler id circuit s
    exact ⟨cause, s, hfails⟩
  | some c =>
    obtain ⟨cause, hresult⟩ := h c hcompiler s.storage
    exact ⟨cause, called c circuit p s, by rw [compile_of_eq_some hcompiler, hresult]⟩

variable [Scalar α]

/-- A path without an artifact is closed, and nothing but its compiler was called. -/
theorem closed_of_artifact? (hsteady : g.compilers.Steady) {R : Storage → Storage → Prop}
    (hrespects : g.compilers.Respects R) (h : g.artifact? id circuit p s = .ok none t) :
    g.Closed id circuit p s.storage ∧ R s.storage t.storage := by
  unfold artifact? at h
  obtain ⟨d, u, hdevice, h⟩ := Selecting.bind_eq_ok_iff.1 h
  obtain ⟨hdescriptor, rfl⟩ := Selecting.ofExcept_eq_ok_iff.1 hdevice
  split_ifs at h with hwide
  · obtain ⟨-, rfl⟩ := Selecting.pure_eq_ok_iff.1 h
    refine ⟨.inl fun d' hd' => ?_, hrespects.refl _⟩
    obtain rfl : d = d' := Except.ok.inj (hdescriptor.symm.trans hd')
    exact hwide
  · obtain ⟨c?, u, hcompiled, h⟩ := Selecting.bind_eq_ok_iff.1 h
    obtain ⟨hnone, rfl⟩ := Selecting.pure_eq_ok_iff.1 h
    obtain rfl : c? = none := by simpa using hnone
    obtain ⟨huncached, cause, hcompile⟩ := compiled?_eq_none_iff.1 hcompiled
    obtain ⟨hrefuses, hrel⟩ := compile_eq_error hsteady hrespects hcompile
    exact ⟨.inr ⟨huncached, hrefuses⟩, hrel⟩

/-- A closed path has no artifact. -/
theorem exists_artifact?_of_closed {d : Descriptor α} (hdescriptor : p.descriptor = .ok d)
    (h : g.Closed id circuit p s.storage) : ∃ t, g.artifact? id circuit p s = .ok none t := by
  unfold artifact?
  have hdevice : Selecting.ofExcept (p.descriptor : Except _ (Descriptor α)) s = .ok d s :=
    Selecting.ofExcept_eq_ok_iff.2 ⟨hdescriptor, rfl⟩
  by_cases hwide : d.numQubits < circuit.numQubits
  · exact ⟨s, Selecting.bind_eq_ok_iff.2 ⟨d, s, hdevice, by rw [if_pos hwide]; rfl⟩⟩
  · rcases h with hnarrow | ⟨huncached, hrefuses⟩
    · exact absurd (hnarrow d hdescriptor) hwide
    · obtain ⟨cause, t, hcompile⟩ := exists_compile_eq_error hrefuses id s
      refine ⟨t, Selecting.bind_eq_ok_iff.2 ⟨d, s, hdevice, ?_⟩⟩
      rw [if_neg hwide]
      exact Selecting.bind_eq_ok_iff.2
        ⟨none, t, compiled?_eq_none_iff.2 ⟨huncached, cause, hcompile⟩, rfl⟩

private theorem Closed.of_keepsFile {s t : Storage}
    (h : g.Closed (Corpus.circuitId file) circuit p s)
    (hready : g.Ready s) (hfile : Corpus.Names corpus file) (hkeeps : g.KeepsFile file s t) :
    g.Closed (Corpus.circuitId file) circuit p t := by
  obtain ⟨hhome, l, hopen⟩ := hready
  refine h.imp_right fun ⟨huncached, hrefuses⟩ => ⟨fun text hread => ?_, hrefuses⟩
  exact huncached text (Storage.read_of_keeps hopen (hkeeps.directory l hopen)
    (ArtifactCache.isPlain_fileName hfile.not_mem_toList) hhome (hkeeps.artifact p.index) hread)

section Artifacts

variable {ps : List CompilationPath} {storage : Storage}

/-- When a circuit has no artifacts, all its paths are closed, and nothing but compilers was
called. -/
theorem closed_of_artifacts (hrepeat : g.Repeatable storage corpus dataset)
    (hfile : Corpus.Names corpus file) (hready : g.Ready s.storage)
    (h : g.artifacts (Corpus.circuitId file) circuit ps s = .ok [] t) :
    (∀ p ∈ ps, g.Closed (Corpus.circuitId file) circuit p t.storage) ∧
      g.Undisturbed corpus dataset s.storage t.storage := by
  -- a path that is closed when its turn comes stays closed while the others are tried
  induction ps generalizing s with
  | nil =>
    obtain ⟨-, rfl⟩ := Selecting.pure_eq_ok_iff.1 h
    exact ⟨by simp, .refl g corpus dataset _⟩
  | cons p ps ih =>
    obtain ⟨here, u, hhere, h⟩ := Selecting.bind_eq_ok_iff.1 h
    obtain ⟨rest, v, hrest, h⟩ := Selecting.bind_eq_ok_iff.1 h
    obtain ⟨hnil, rfl⟩ := Selecting.pure_eq_ok_iff.1 h
    obtain ⟨hnone, rfl⟩ := List.append_eq_nil_iff.1 hnil
    obtain rfl : here = none := by simpa using hnone
    obtain ⟨hclosed, hhere⟩ := closed_of_artifact? hrepeat.steady hrepeat.respects hhere
    obtain ⟨hrest, hmore⟩ := ih (hready.of_keepsFile (hhere.keepsFile hfile)) hrest
    have hall := hhere.trans hmore
    exact ⟨List.forall_mem_cons.2
      ⟨hclosed.of_keepsFile hready hfile (hall.keepsFile hfile), hrest⟩, hall⟩

/-- A circuit to which all paths are closed has no artifacts. -/
theorem exists_artifacts_of_closed (hrepeat : g.Repeatable storage corpus dataset)
    (hfile : Corpus.Names corpus file) (hready : g.Ready s.storage)
    (hps : ∀ p ∈ ps, ∃ d : Descriptor α, p.descriptor = .ok d)
    (h : ∀ p ∈ ps, g.Closed (Corpus.circuitId file) circuit p s.storage) :
    ∃ t, g.artifacts (Corpus.circuitId file) circuit ps s = .ok [] t := by
  induction ps generalizing s with
  | nil => exact ⟨s, rfl⟩
  | cons p ps ih =>
    obtain ⟨⟨d, hd⟩, hps⟩ := List.forall_mem_cons.1 hps
    obtain ⟨hp, hrest⟩ := List.forall_mem_cons.1 h
    obtain ⟨u, hhere⟩ := exists_artifact?_of_closed hd hp
    have hkeeps := (closed_of_artifact? hrepeat.steady hrepeat.respects hhere).2.keepsFile hfile
    obtain ⟨t, hnil⟩ := ih (hready.of_keepsFile hkeeps) hps
      fun q hq => (hrest q hq).of_keepsFile hready hfile hkeeps
    exact ⟨t, Selecting.bind_eq_ok_iff.2
      ⟨none, u, hhere, Selecting.bind_eq_ok_iff.2 ⟨[], t, hnil, rfl⟩⟩⟩

end Artifacts

end Closed

/-! ## Files that are stuck -/

section Stuck

variable [Scalar α]

/-- No run makes an example of a file: its circuit cannot be read, is too wide or has all its paths
closed. -/
def Stuck (g : Generator α) (file : String) (s : Storage) : Prop :=
  ∃ text, s.read file = .ok text ∧ ∀ circuit, Circuit.ofText text = .ok circuit →
    circuit.numQubits ≤ (Registry.builtin : Registry α).maxNumQubits →
      ∀ p ∈ CompilationPath.catalog, g.Closed (Corpus.circuitId file) circuit p s

/-- A file that is stuck stays so where it is kept. -/
theorem Stuck.of_keepsFile {s t : Storage} (h : g.Stuck file s) (hready : g.Ready s)
    (hfile : Corpus.Names corpus file) (hkeeps : g.KeepsFile file s t) : g.Stuck file t := by
  obtain ⟨text, hread, hclosed⟩ := h
  exact ⟨text, hkeeps.source.read text hread, fun circuit hcircuit hfits p hp =>
    (hclosed circuit hcircuit hfits p hp).of_keepsFile hready hfile hkeeps⟩

variable {s t : Session} {storage : Storage} {o : Outcome α}

/-- A file is labelled or stuck after its visit. -/
theorem Visit.settled (hvisit : Visit g dataset labelled file s o t)
    (hrepeat : g.Repeatable storage corpus dataset) (hfile : Corpus.Names corpus file)
    (hready : g.Ready s.storage) {text : String} (hread : s.storage.read file = .ok text) :
    Corpus.circuitId file ∈ labelled ∨
      Corpus.circuitId file ∈ o.example?.toList.map (·.circuitId) ∨ g.Stuck file t.storage := by
  have hcircuit {circuit : Circuit} (h : Circuit.ofText text = .ok circuit) :
      Corpus.readCircuit s.storage file = .ok circuit :=
    Corpus.readCircuit_eq_ok_iff.2 ⟨text, hread, h⟩
  have hid := hvisit.circuitId_eq
  cases hvisit with
  | labelled hmem => exact .inl hmem
  | unreadable _ hfails =>
    refine .inr (.inr ⟨text, hread, fun circuit hparsed => ?_⟩)
    rw [hcircuit hparsed] at hfails
    cases hfails
  | tooWide _ hsome hwide =>
    refine .inr (.inr ⟨text, hread, fun circuit hparsed hfits => ?_⟩)
    obtain rfl := Except.ok.inj ((hcircuit hparsed).symm.trans hsome)
    omega
  | uncompiled _ hsome _ hnone =>
    obtain ⟨hclosed, hkeeps⟩ := closed_of_artifacts hrepeat hfile hready hnone
    refine .inr (.inr ⟨text, hkeeps.keepsFile hfile |>.source.read text hread,
      fun circuit hparsed _ => ?_⟩)
    obtain rfl := Except.ok.inj ((hcircuit hparsed).symm.trans hsome)
    exact hclosed
  | @made _ _ _ e =>
    obtain ⟨he, -⟩ := hid e rfl
    exact .inr (.inl (by simp [Outcome.example?, he]))

end Stuck

end Generator

end PathSelection
