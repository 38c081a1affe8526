import PathSelection.Proofs.Generation.Artifacts

/-!
# Visits to the files of a corpus

A run visits the files of a corpus one after the other.  A visit ends in one of
three ways: the file is left alone because the dataset has an example of it, it
is skipped, or an example is made of it and appended to the dataset.

Main results:

- Theorem `Generator.processFile_cases`: what handling a file comes to.
- Theorem `Generator.exists_visits_of_processFiles`: a run that succeeds visits every
  file and counts how the visits end.
- Theorem `Generator.exists_visits_of_not_done`: a run that fails or never ends has
  visited some files before.
- Theorem `Generator.Visits.rel`: what compilers, the cache and appending
  respect is respected by visits.
-/

namespace PathSelection

/-! ## Sessions after work -/

namespace Selecting

variable {β γ : Type} {x : Selecting β} {f : β → Selecting γ} {s t : Session} {b : β}
  {cause : SelectionError}

/-- The session that work leaves, whether it succeeds or not. -/
def after (x : Selecting β) (s : Session) : Session :=
  match x s with
  | .ok _ t => t
  | .error _ t => t

/-- The session behind work that succeeds. -/
theorem after_of_eq_ok (h : x s = .ok b t) : after x s = t := by
  simp only [after, h]

/-- Does work succeed with a result and a session of some kind? -/
def yields (x : Selecting β) (s : Session) (kind : β → Session → Bool) : Bool :=
  match x s with
  | .ok b t => kind b t
  | .error _ _ => false

/-- Work that yields something of a kind succeeds with it. -/
theorem exists_of_yields {kind : β → Session → Bool} (h : yields x s kind = true) :
    ∃ b t, x s = .ok b t ∧ kind b t = true := by
  unfold yields at h
  cases hresult : x s with
  | ok b t => exact ⟨b, t, rfl, by simpa only [hresult] using h⟩
  | error cause t => simp [hresult] at h

/-- The session behind work that fails. -/
theorem after_of_eq_error (h : x s = .error cause t) : after x s = t := by
  simp only [after, h]

/-- Work that goes on after other work fails if one of them does. -/
theorem bind_eq_error_iff : (x >>= f) s = .error cause t ↔
    x s = .error cause t ∨ ∃ b u, x s = .ok b u ∧ f b u = .error cause t := by
  change EStateM.bind x f s = .error cause t ↔ _
  unfold EStateM.bind
  cases x s with
  | ok b u => simp
  | error other u => simp

@[simp]
theorem after_ofExcept (x : Except SelectionError β) (s : Session) : after (ofExcept x) s = s := by
  cases x <;> rfl

/-- A relation that holds from before to after work holds over work that goes on after it. -/
theorem rel_after_bind {R : Storage → Storage → Prop}
    (trans : ∀ {s t u}, R s t → R t u → R s u) (hx : R s.storage (after x s).storage)
    (hf : ∀ b t, x s = .ok b t → R t.storage (after (f b) t).storage) :
    R s.storage (after (x >>= f) s).storage := by
  change R _ (after (EStateM.bind x f) s).storage
  unfold after at hx hf ⊢
  simp only [EStateM.bind]
  cases hresult : x s with
  | ok b t =>
    simp only [hresult] at hx
    exact trans hx (hf b t hresult)
  | error cause t => simpa only [hresult] using hx

/-- A look at the storage that fails leaves the session as it is. -/
theorem look_eq_error_iff {look : Storage → Except SelectionError β} :
    Selecting.look look s = .error cause t ↔ look s.storage = .error cause ∧ s = t := by
  unfold Selecting.look
  cases look s.storage with
  | error other => simp
  | ok b => simp

end Selecting

/-! ## Compilers -/

/-- A relation between storages that holds from before any work of these compilers to after it. -/
structure CompilerSet.Respects (cs : CompilerSet) (R : Storage → Storage → Prop) : Prop where
  refl : ∀ s, R s s
  trans : ∀ {s t u}, R s t → R t u → R s u
  call : ∀ toolchain c, cs.get? toolchain = some c → ∀ circuit request s,
    R s (c.compile circuit request s).2

namespace Generator

section Compiling

variable {α : Type} {g : Generator α} {id : String} {circuit : Circuit}
  {p : CompilationPath} {s t : Session}

/-- A session after a call of a compiler. -/
def called (c : Compiler) (circuit : Circuit) (p : CompilationPath) (s : Session) : Session :=
  ⟨(c.compile circuit p.request s.storage).2, s.calls ++ [⟨c.name, p.request⟩]⟩

/-- A path without a compiler compiles nothing. -/
theorem compile_of_eq_none (h : g.compilers.get? p.toolchain = none) (id : String)
    (circuit : Circuit) (s : Session) : ∃ cause, g.compile id circuit p s = .error cause s := by
  simp only [compile, bind, EStateM.bind, CompilerSet.forPath, CompilerSet.get, h,
    Selecting.ofExcept]
  exact ⟨_, rfl⟩

/-- A compiler with a result has it put into the cache. -/
theorem compile_of_eq_some {c : Compiler} (h : g.compilers.get? p.toolchain = some c) (id : String)
    (circuit : Circuit) (s : Session) :
    g.compile id circuit p s =
      match (c.compile circuit p.request s.storage).1.resultBy p.request.path (some g.deadline) with
      | .ok compiled => .ok compiled ⟨(g.cache.store (called c circuit p s).storage id p.index
          compiled).2, (called c circuit p s).calls⟩
      | .error cause => .error cause (called c circuit p s) := by
  simp only [compile, bind, EStateM.bind, CompilerSet.forPath, CompilerSet.get, h,
    Selecting.ofExcept, pure, EStateM.pure, Compiler.call]
  generalize (c.compile circuit p.request s.storage).1.resultBy p.request.path (some g.deadline) =
    result
  cases result <;> rfl

end Compiling

section Respects

variable {α : Type} [Scalar α] {g : Generator α} {id : String} {p : CompilationPath} {s t : Session}
  {R : Storage → Storage → Prop} (hrespects : g.compilers.Respects R)

include hrespects

omit [Scalar α] in
private theorem rel_after_compile
    (hstore : ∀ compiled s, R s (g.cache.store s id p.index compiled).2)
    (circuit : Circuit) (s : Session) :
    R s.storage (Selecting.after (g.compile id circuit p) s).storage := by
  cases hcompiler : g.compilers.get? p.toolchain with
  | none =>
    obtain ⟨cause, hfails⟩ := compile_of_eq_none hcompiler id circuit s
    rw [Selecting.after_of_eq_error hfails]
    exact hrespects.refl _
  | some c =>
    have hcalled : R s.storage (called c circuit p s).storage := hrespects.call _ c hcompiler _ _ _
    have hcompile := compile_of_eq_some hcompiler id circuit s
    split at hcompile
    · rw [Selecting.after_of_eq_ok hcompile]
      exact hrespects.trans hcalled (hstore _ _)
    · rw [Selecting.after_of_eq_error hcompile]
      exact hcalled

omit [Scalar α] in
private theorem rel_after_compiled?
    (hstore : ∀ compiled s, R s (g.cache.store s id p.index compiled).2)
    (circuit : Circuit) (s : Session) :
    R s.storage (Selecting.after (g.compiled? id circuit p) s).storage := by
  have hcompile := rel_after_compile hrespects hstore circuit s
  unfold Selecting.after at hcompile ⊢
  unfold compiled?
  cases g.cached? s id p with
  | some c => exact hrespects.refl _
  | none => cases hresult : g.compile id circuit p s <;> simpa only [hresult] using hcompile

/-- What storing in the cache and compilers respect, the turn of a path respects. -/
theorem rel_after_artifact? (hstore : ∀ compiled s, R s (g.cache.store s id p.index compiled).2)
    (circuit : Circuit) (s : Session) :
    R s.storage (Selecting.after (g.artifact? id circuit p) s).storage := by
  unfold artifact?
  refine Selecting.rel_after_bind hrespects.trans ?_ fun device t _ => ?_
  · rw [Selecting.after_ofExcept]
    exact hrespects.refl _
  · split_ifs
    · exact hrespects.refl _
    · refine Selecting.rel_after_bind hrespects.trans ?_ fun c? u _ => hrespects.refl _
      exact rel_after_compiled? hrespects hstore circuit t

/-- What compilers and the cache respect for some paths is respected by looking for their
artifacts. -/
theorem rel_after_artifacts {ps : List CompilationPath}
    (hstore : ∀ p ∈ ps, ∀ compiled s, R s (g.cache.store s id p.index compiled).2)
    (circuit : Circuit) (s : Session) :
    R s.storage (Selecting.after (g.artifacts id circuit ps) s).storage := by
  induction ps generalizing s with
  | nil => exact hrespects.refl _
  | cons p ps ih =>
    obtain ⟨hhere, hrest⟩ := List.forall_mem_cons.1 hstore
    unfold artifacts
    refine Selecting.rel_after_bind hrespects.trans
      (rel_after_artifact? hrespects hhere circuit s) fun here t _ => ?_
    exact Selecting.rel_after_bind hrespects.trans (ih hrest t) fun rest u _ => hrespects.refl _

/-- What storing in the cache and compilers respect, the turns of all paths respect. -/
theorem rel_of_artifacts {circuit : Circuit} {ps : List CompilationPath} {as : List (Artifact α)}
    (hstore : ∀ index compiled s, R s (g.cache.store s id index compiled).2)
    (h : g.artifacts id circuit ps s = .ok as t) : R s.storage t.storage := by
  rw [← Selecting.after_of_eq_ok h]
  exact rel_after_artifacts hrespects (fun p _ => hstore p.index) circuit s

end Respects

/-! ## Visits -/

/-- How the visit of a file ends. -/
inductive Outcome (α : Type) where
  /-- the dataset has an example of the circuit -/
  | labelled
  /-- the circuit cannot be read, is too wide or cannot be compiled along any path -/
  | skipped
  /-- an example was appended -/
  | made (e : TrainingExample α)

namespace Outcome

variable {α : Type}

/-- The example that was appended. -/
def example? : Outcome α → Option (TrainingExample α)
  | made e => some e
  | labelled | skipped => none

/-- Does the dataset have an example of the circuit? -/
def isLabelled : Outcome α → Bool
  | labelled => true
  | skipped | made _ => false

/-- Was the circuit skipped? -/
def isSkipped : Outcome α → Bool
  | skipped => true
  | labelled | made _ => false

/-- A visit ends in one of three ways. -/
theorem length_eq (os : List (Outcome α)) :
    (os.filterMap example?).length + os.countP isSkipped + os.countP isLabelled = os.length := by
  induction os with
  | nil => rfl
  | cons o os ih =>
    cases o <;>
      simp only [List.filterMap_cons, List.countP_cons, example?, isLabelled, isSkipped,
        List.length_cons, Bool.false_eq_true, if_true, if_false] <;> omega

end Outcome

section Visits

variable {α : Type} [Scalar α]

/-- The visit of a file when the dataset had examples of these circuits at first. -/
inductive Visit (g : Generator α) (dataset : String) (labelled : List String) (file : String) :
    Session → Outcome α → Session → Prop
  | labelled {s : Session} (hid : Corpus.circuitId file ∈ labelled) :
      Visit g dataset labelled file s .labelled s
  | unreadable {s : Session} {cause : SelectionError} (hid : Corpus.circuitId file ∉ labelled)
      (hread : Corpus.readCircuit s.storage file = .error cause) :
      Visit g dataset labelled file s .skipped s
  | tooWide {s : Session} {circuit : Circuit} (hid : Corpus.circuitId file ∉ labelled)
      (hread : Corpus.readCircuit s.storage file = .ok circuit)
      (hwide : (Registry.builtin : Registry α).maxNumQubits < circuit.numQubits) :
      Visit g dataset labelled file s .skipped s
  | uncompiled {s t : Session} {circuit : Circuit} (hid : Corpus.circuitId file ∉ labelled)
      (hread : Corpus.readCircuit s.storage file = .ok circuit)
      (hfits : circuit.numQubits ≤ (Registry.builtin : Registry α).maxNumQubits)
      (hnone : g.artifacts (Corpus.circuitId file) circuit CompilationPath.catalog s = .ok [] t) :
      Visit g dataset labelled file s .skipped t
  | made {s t : Session} {circuit : Circuit} {artifacts : List (Artifact α)}
      {e : TrainingExample α} {storage : Storage} (hid : Corpus.circuitId file ∉ labelled)
      (hread : Corpus.readCircuit s.storage file = .ok circuit)
      (hfits : circuit.numQubits ≤ (Registry.builtin : Registry α).maxNumQubits)
      (hsome : g.artifacts (Corpus.circuitId file) circuit CompilationPath.catalog s =
        .ok artifacts t)
      (hne : artifacts ≠ [])
      (hlabel : g.label (Corpus.circuitId file) circuit artifacts = .ok (some e))
      (happend : Dataset.append t.storage dataset e = .ok storage) :
      Visit g dataset labelled file s (.made e) { t with storage := storage }

/-- Visits of files one after the other. -/
inductive Visits (g : Generator α) (dataset : String) (labelled : List String) :
    Session → List String → List (Outcome α) → Session → Prop
  | nil (s : Session) : Visits g dataset labelled s [] [] s
  | cons {s t u : Session} {file : String} {files : List String} {o : Outcome α}
      {os : List (Outcome α)} (head : Visit g dataset labelled file s o t)
      (tail : Visits g dataset labelled t files os u) :
      Visits g dataset labelled s (file :: files) (o :: os) u

variable {g : Generator α} {dataset file id : String} {circuit : Circuit} {p : CompilationPath}
  {labelled files : List String} {s t : Session}
  {o : Outcome α} {os : List (Outcome α)} {summary summary' : GenerationSummary}

/-- What handling a file adds to a summary besides sentinels. -/
def Counts (o : Outcome α) (summary summary' : GenerationSummary) : Prop :=
  summary'.processed = summary.processed + (o.example?.toList).length ∧
    summary'.skipped = summary.skipped + (if o.isSkipped then 1 else 0) ∧
    summary'.alreadyLabelled = summary.alreadyLabelled + (if o.isLabelled then 1 else 0)

/-- A file is used if it has a circuit that is not wider than all devices. -/
theorem usable?_eq_some_iff {storage : Storage} {circuit : Circuit} :
    usable? (α := α) storage file = some circuit ↔
      Corpus.readCircuit storage file = .ok circuit ∧
        circuit.numQubits ≤ (Registry.builtin : Registry α).maxNumQubits := by
  unfold usable?
  cases Corpus.readCircuit storage file with
  | error cause => simp
  | ok c =>
    by_cases hwide : (Registry.builtin : Registry α).maxNumQubits < c.numQubits
    · simp only [if_pos hwide, reduceCtorEq, Except.ok.injEq, false_iff]
      rintro ⟨rfl, hfits⟩
      omega
    · simp only [if_neg hwide, Option.some.injEq, Except.ok.injEq]
      constructor
      · rintro rfl
        exact ⟨rfl, Nat.le_of_not_lt hwide⟩
      · exact fun h => h.1

private theorem usable?_eq_none {storage : Storage} (h : usable? (α := α) storage file = none) :
    (∃ cause, Corpus.readCircuit storage file = .error cause) ∨
      ∃ circuit, Corpus.readCircuit storage file = .ok circuit ∧
        (Registry.builtin : Registry α).maxNumQubits < circuit.numQubits := by
  cases hread : Corpus.readCircuit storage file with
  | error cause => exact .inl ⟨cause, rfl⟩
  | ok circuit =>
    refine .inr ⟨circuit, rfl, Nat.lt_of_not_le fun hfits => ?_⟩
    simp [usable?_eq_some_iff.2 ⟨hread, hfits⟩] at h

/-! ## Handling files -/

/-- The example of a circuit has its id. -/
theorem circuitId_of_label {as : List (Artifact α)} {e : TrainingExample α}
    (h : g.label id circuit as = .ok (some e)) : e.circuitId = id := by
  have hne : as ≠ [] := by
    rintro rfl
    cases h
  cases hbatch : g.engine.scoreBatch (as.map fun a => ⟨a.circuit, a.device⟩) circuit.numQubits with
  | none =>
    rw [label_eq_none g id circuit hne hbatch] at h
    cases h
  | some batch =>
    obtain ⟨best, -, hlabel⟩ := exists_label_best g id circuit hne hbatch
    rw [hlabel] at h
    obtain rfl := Option.some.inj (Except.ok.inj h)
    rfl

/-- Handling a circuit skips it, appends its example, or is never done with it. -/
theorem processInto_cases (g : Generator α) (dataset id : String) (circuit : Circuit)
    (summary : GenerationSummary) (s : Session) :
    ∃ as t, g.artifacts id circuit CompilationPath.catalog s = .ok as t ∧
      ((as = [] ∧ ∃ summary', g.processInto dataset id circuit summary s = .ok (some summary') t ∧
          Counts (α := α) .skipped summary summary') ∨
        as ≠ [] ∧
          ((∃ e storage summary', g.label id circuit as = .ok (some e) ∧
              Dataset.append t.storage dataset e = .ok storage ∧
              g.processInto dataset id circuit summary s =
                .ok (some summary') { t with storage := storage } ∧
              Counts (.made e) summary summary') ∨
            g.processInto dataset id circuit summary s = .ok none t ∨
            ∃ cause, g.processInto dataset id circuit summary s = .error cause t)) := by
  obtain ⟨as, t, has⟩ := exists_artifacts_catalog g id circuit s
  refine ⟨as, t, has, ?_⟩
  rcases eq_or_ne as [] with rfl | hne
  · refine .inl ⟨rfl, { summary with
      skipped := summary.skipped + 1
      unavailablePaths := summary.unavailablePaths + CompilationPath.count }, ?_, rfl, rfl, rfl⟩
    rw [processInto, processCircuit_of_artifacts has]
    rfl
  · refine .inr ⟨hne, ?_⟩
    rw [processInto, processCircuit_of_artifacts has]
    cases hbatch : g.engine.scoreBatch (as.map fun a => ⟨a.circuit, a.device⟩)
        circuit.numQubits with
    | none =>
      rw [label_eq_none g id circuit hne hbatch]
      exact .inr (.inl rfl)
    | some batch =>
      obtain ⟨e, hlabel⟩ : ∃ e, g.label id circuit as = .ok (some e) := by
        obtain ⟨best, -, hlabel⟩ := exists_label_best g id circuit hne hbatch
        exact ⟨_, hlabel⟩
      rw [hlabel, Selecting.ofExcept_ok]
      simp only [Selecting.change]
      cases happend : Dataset.append t.storage dataset e with
      | ok storage => exact .inl ⟨e, storage, _, rfl, happend, rfl, rfl, rfl, rfl⟩
      | error cause => exact .inr (.inr ⟨cause, rfl⟩)

/-- A circuit that is labelled is not processed again. -/
theorem processFile_of_mem (h : Corpus.circuitId file ∈ labelled) :
    g.processFile dataset labelled summary file s =
      .ok (some { summary with alreadyLabelled := summary.alreadyLabelled + 1 }) s := by
  have hcontains : labelled.contains (Corpus.circuitId file) = true := by simpa using h
  simp only [processFile, hcontains, if_true]
  rfl

/-- A circuit that is not labelled is processed if its file is used, and skipped otherwise. -/
theorem processFile_of_not_mem (h : Corpus.circuitId file ∉ labelled) :
    g.processFile dataset labelled summary file s =
      match usable? (α := α) s.storage file with
      | some circuit => g.processInto dataset (Corpus.circuitId file) circuit summary s
      | none => .ok (some { summary with skipped := summary.skipped + 1 }) s := by
  have hcontains : labelled.contains (Corpus.circuitId file) = false := by simpa using h
  have hget : (get : Selecting Session) s = .ok s s := rfl
  simp only [processFile, hcontains, Bool.false_eq_true, if_false, bind, EStateM.bind, hget]
  cases usable? (α := α) s.storage file <;> rfl

/-- What handling a file comes to: a visit that is counted, or else it has looked for artifacts. -/
theorem processFile_cases (g : Generator α) (dataset : String) (labelled : List String)
    (summary : GenerationSummary) (file : String) (s : Session) :
    (∃ o summary' t, g.processFile dataset labelled summary file s = .ok (some summary') t ∧
        Visit g dataset labelled file s o t ∧ Counts o summary summary') ∨
      ∃ circuit as t, g.artifacts (Corpus.circuitId file) circuit CompilationPath.catalog s =
          .ok as t ∧
        (g.processFile dataset labelled summary file s = .ok none t ∨
          ∃ cause, g.processFile dataset labelled summary file s = .error cause t) := by
  by_cases hid : Corpus.circuitId file ∈ labelled
  · rw [processFile_of_mem hid]
    exact .inl ⟨.labelled, _, s, rfl, .labelled hid, rfl, rfl, rfl⟩
  · rw [processFile_of_not_mem hid]
    cases husable : usable? (α := α) s.storage file with
    | none =>
      rcases usable?_eq_none husable with ⟨cause, hread⟩ | ⟨circuit, hread, hwide⟩
      · exact .inl ⟨.skipped, _, s, rfl, .unreadable hid hread, rfl, rfl, rfl⟩
      · exact .inl ⟨.skipped, _, s, rfl, .tooWide hid hread hwide, rfl, rfl, rfl⟩
    | some circuit =>
      obtain ⟨hread, hfits⟩ := usable?_eq_some_iff.1 husable
      obtain ⟨as, t, has, hcases⟩ :=
        processInto_cases g dataset (Corpus.circuitId file) circuit summary s
      rcases hcases with ⟨rfl, summary', hinto, hcounts⟩ |
        ⟨hne, ⟨e, storage, summary', hlabel, happend, hinto, hcounts⟩ | hunfinished⟩
      · exact .inl ⟨.skipped, summary', t, hinto, .uncompiled hid hread hfits has, hcounts⟩
      · exact .inl ⟨.made e, summary', _, hinto, .made hid hread hfits has hne hlabel happend,
          hcounts⟩
      · exact .inr ⟨circuit, as, t, has, hunfinished⟩

/-- A run that succeeds visits every file and counts how the visits end. -/
theorem exists_visits_of_processFiles
    (h : g.processFiles dataset labelled summary files s = .ok (some summary') t) :
    ∃ os, Visits g dataset labelled s files os t ∧
      summary'.processed = summary.processed + (os.filterMap Outcome.example?).length ∧
      summary'.skipped = summary.skipped + os.countP Outcome.isSkipped ∧
      summary'.alreadyLabelled = summary.alreadyLabelled + os.countP Outcome.isLabelled := by
  -- the summary and the session after a file are those with which the next one is handled
  induction files generalizing summary s with
  | nil =>
    obtain ⟨hsame, rfl⟩ := Selecting.pure_eq_ok_iff.1 h
    obtain rfl := Option.some.inj hsame
    exact ⟨[], .nil s, rfl, rfl, rfl⟩
  | cons file files ih =>
    obtain ⟨next, u, hfile, hrest⟩ := processFiles_cons_eq_some_iff.1 h
    rcases processFile_cases g dataset labelled summary file s with
      ⟨o, next', u', hfile', hvisit, hprocessed, hskipped, hlabelled⟩ |
        ⟨_, _, _, -, hnone | ⟨_, hfails⟩⟩
    · rw [hfile] at hfile'
      obtain ⟨rfl, rfl⟩ : next = next' ∧ u = u' := by simpa using hfile'
      obtain ⟨os, hvisits, hprocessed', hskipped', hlabelled'⟩ := ih hrest
      refine ⟨o :: os, .cons hvisit hvisits, ?_, ?_, ?_⟩
      · rw [hprocessed', hprocessed, List.filterMap_cons]
        cases o.example? with
        | none => simp
        | some e =>
          simp only [Option.toList_some, List.length_cons, List.length_nil]
          omega
      · rw [hskipped', hskipped, List.countP_cons]
        omega
      · rw [hlabelled', hlabelled, List.countP_cons]
        omega
    · rw [hfile] at hnone
      cases hnone
    · rw [hfile] at hfails
      cases hfails

/-- A run without a summary has visited some files and has then looked for the artifacts of another
one. -/
theorem exists_visits_of_not_done
    (h : ∀ summary' t, g.processFiles dataset labelled summary files s ≠ .ok (some summary') t) :
    ∃ visited file rest os u circuit as, files = visited ++ file :: rest ∧
      Visits g dataset labelled s visited os u ∧
      g.artifacts (Corpus.circuitId file) circuit CompilationPath.catalog u =
        .ok as (Selecting.after (g.processFiles dataset labelled summary files) s) := by
  induction files generalizing summary s with
  | nil => exact absurd rfl (h summary s)
  | cons file files ih =>
    have hcons := processFiles_cons g dataset labelled summary file files
    rcases processFile_cases g dataset labelled summary file s with
      ⟨o, next, u, hfile, hvisit, -⟩ | ⟨circuit, as, u, has, hunfinished⟩
    · have hnext : g.processFiles dataset labelled summary (file :: files) s =
          g.processFiles dataset labelled next files u :=
        (congrFun hcons s).trans (Selecting.bind_of_eq_ok hfile)
      obtain ⟨visited, file', rest, os, v, circuit, as, rfl, hvisits, has⟩ :=
        ih fun summary' t hdone => h summary' t (hnext.trans hdone)
      refine ⟨file :: visited, file', rest, o :: os, v, circuit, as, rfl, .cons hvisit hvisits, ?_⟩
      rwa [Selecting.after, hnext]
    · have hleft : Selecting.after (g.processFiles dataset labelled summary (file :: files)) s =
          u := by
        rw [hcons]
        rcases hunfinished with hnone | ⟨cause, hfails⟩
        · exact Selecting.after_of_eq_ok ((Selecting.bind_of_eq_ok hnone).trans rfl)
        · exact Selecting.after_of_eq_error (Selecting.bind_eq_error_iff.2 (.inl hfails))
      exact ⟨[], file, files, [], s, circuit, as, rfl, .nil s, hleft ▸ has⟩

/-! ## What visits respect -/

section Respects

variable {R : Storage → Storage → Prop}

/-- What compilers, the cache and appending respect is respected by a visit. -/
theorem Visit.rel (h : Visit g dataset labelled file s o t) (hrespects : g.compilers.Respects R)
    (hstore : ∀ index compiled s,
      R s (g.cache.store s (Corpus.circuitId file) index compiled).2)
    (happend : ∀ (e : TrainingExample α) s t, Dataset.append s dataset e = .ok t → R s t) :
    R s.storage t.storage := by
  cases h with
  | labelled => exact hrespects.refl _
  | unreadable => exact hrespects.refl _
  | tooWide => exact hrespects.refl _
  | uncompiled _ _ _ hnone => exact rel_of_artifacts hrespects hstore hnone
  | made _ _ _ hsome _ _ hstored =>
    exact hrespects.trans (rel_of_artifacts hrespects hstore hsome) (happend _ _ _ hstored)

/-- What compilers, the cache and appending respect is respected by visits. -/
theorem Visits.rel (h : Visits g dataset labelled s files os t)
    (hrespects : g.compilers.Respects R)
    (hstore : ∀ file ∈ files, ∀ index compiled s,
      R s (g.cache.store s (Corpus.circuitId file) index compiled).2)
    (happend : ∀ (e : TrainingExample α) s t, Dataset.append s dataset e = .ok t → R s t) :
    R s.storage t.storage := by
  induction h with
  | nil => exact hrespects.refl _
  | cons head _ ih =>
    obtain ⟨hhere, hmore⟩ := List.forall_mem_cons.1 hstore
    exact hrespects.trans (head.rel hrespects hhere happend) (ih hmore)

end Respects

/-- There is one visit for each file. -/
theorem Visits.length_eq (h : Visits g dataset labelled s files os t) :
    os.length = files.length := by
  induction h with
  | nil => rfl
  | cons _ _ ih => rw [List.length_cons, List.length_cons, ih]

/-! ## Examples that visits append -/

/-- The example of a file has its id, and it is new. -/
theorem Visit.circuitId_eq (h : Visit g dataset labelled file s o t) :
    ∀ e ∈ o.example?, e.circuitId = Corpus.circuitId file ∧ Corpus.circuitId file ∉ labelled := by
  cases h with
  | made hid _ _ _ _ hlabel =>
    intro e he
    obtain rfl := Option.some.inj he
    exact ⟨circuitId_of_label hlabel, hid⟩
  | labelled | unreadable | tooWide | uncompiled => simp [Outcome.example?]

/-- The examples of visits have the ids of some of the files, in their order, and are new. -/
theorem Visits.sublist_circuitId (h : Visits g dataset labelled s files os t) :
    ((os.filterMap Outcome.example?).map (·.circuitId)).Sublist (files.map Corpus.circuitId) ∧
      ∀ e ∈ os.filterMap Outcome.example?, e.circuitId ∉ labelled := by
  induction h with
  | nil => simp
  | @cons s t u file files o os head _ ih =>
    have hhead := head.circuitId_eq
    rw [List.filterMap_cons]
    cases hexample : o.example? with
    | none => exact ⟨ih.1.cons _, ih.2⟩
    | some e =>
      obtain ⟨hid, hnew⟩ := hhead e hexample
      refine ⟨?_, List.forall_mem_cons.2 ⟨hid ▸ hnew, ih.2⟩⟩
      rw [List.map_cons, List.map_cons, hid]
      exact ih.1.cons_cons _

end Visits

end Generator

end PathSelection
