import PathSelection.Generation.Generator
import PathSelection.Proofs.Dataset.Scores
import PathSelection.Proofs.Scoring.Sentinel

/-!
# Compiled paths and labels
-/

namespace PathSelection

/-! ## Work on sessions -/

namespace Selecting

variable {β γ : Type} {s t : Session}

/-- Work that goes on after other work succeeds if both do. -/
theorem bind_eq_ok_iff {x : Selecting β} {f : β → Selecting γ} {c : γ} :
    (x >>= f) s = .ok c t ↔ ∃ b u, x s = .ok b u ∧ f b u = .ok c t := by
  change EStateM.bind x f s = .ok c t ↔ _
  unfold EStateM.bind
  cases x s with
  | ok b u => simp
  | error cause u => simp

/-- Work goes on with the result of its first part. -/
theorem bind_of_eq_ok {x : Selecting β} {f : β → Selecting γ} {b : β} (h : x s = .ok b t) :
    (x >>= f) s = f b t := by
  change EStateM.bind x f s = f b t
  simp only [EStateM.bind, h]

/-- A result that is given leaves the session as it is. -/
theorem pure_eq_ok_iff {b c : β} : (pure b : Selecting β) s = .ok c t ↔ b = c ∧ s = t := by
  change EStateM.Result.ok b s = .ok c t ↔ _
  simp

/-- Asking for the session leaves it as it is. -/
theorem get_eq_ok_iff {u : Session} : (get : Selecting Session) s = .ok u t ↔ s = u ∧ s = t := by
  change EStateM.Result.ok s s = .ok u t ↔ _
  simp

/-- A look at the storage leaves the session as it is. -/
theorem look_eq_ok_iff {f : Storage → Except SelectionError β} {b : β} :
    look f s = .ok b t ↔ f s.storage = .ok b ∧ s = t := by
  unfold look
  cases f s.storage with
  | error cause => simp
  | ok c => simp

@[simp]
theorem ofExcept_ok (b : β) : ofExcept (.ok b) s = .ok b s := rfl

/-- A result that does not depend on the session leaves it as it is. -/
theorem ofExcept_eq_ok_iff {x : Except SelectionError β} {b : β} :
    ofExcept x s = .ok b t ↔ x = .ok b ∧ s = t := by
  cases x with
  | error cause =>
    change EStateM.Result.error cause s = .ok b t ↔ _
    simp
  | ok c =>
    rw [ofExcept, pure_eq_ok_iff]
    simp

end Selecting

/-! ## Devices of the catalog -/

/-- Every path of the catalog has a device, and a valid one. -/
theorem CompilationPath.descriptor_catalog :
    ∀ p ∈ catalog, ∃ d : Descriptor Rat, p.descriptor = .ok d ∧ d.validate = .ok () := by
  have hdevices : ∀ p ∈ catalog,
      (match (p.descriptor : Except SelectionError (Descriptor Rat)) with
        | .ok d => d.fault?.isNone
        | .error _ => false) = true := by
    decide +kernel
  intro p hp
  have hdevice := hdevices p hp
  cases hd : (p.descriptor : Except SelectionError (Descriptor Rat)) with
  | error cause => simp [hd] at hdevice
  | ok d =>
    rw [hd] at hdevice
    refine ⟨d, rfl, ?_⟩
    unfold Descriptor.validate
    rw [Option.isNone_iff_eq_none.1 hdevice]

/-- The paths of the catalog are numbered from zero. -/
theorem CompilationPath.map_index_catalog : catalog.map (·.index) = List.range count := by
  decide

namespace Generator

/-! ## Artifacts -/

section

variable {α : Type} [Scalar α] {g : Generator α} {id : String} {circuit : Circuit}
  {s t : Session}

/-- An artifact is compiled for the device of its path, which is wide enough. -/
theorem artifact?_spec {p : CompilationPath} {a? : Option (Artifact α)}
    (h : g.artifact? id circuit p s = .ok a? t) :
    ∀ a ∈ a?, a.path = p ∧ p.descriptor = .ok a.device ∧
      circuit.numQubits ≤ a.device.numQubits := by
  unfold artifact? at h
  rcases Selecting.bind_eq_ok_iff.1 h with ⟨device, u, hdevice, h⟩
  rcases Selecting.ofExcept_eq_ok_iff.1 hdevice with ⟨hdescriptor, _⟩
  split at h
  · rcases Selecting.pure_eq_ok_iff.1 h with ⟨rfl, _⟩
    simp
  · rename_i hfits
    rcases Selecting.bind_eq_ok_iff.1 h with ⟨compiled?, u, _, h⟩
    rcases Selecting.pure_eq_ok_iff.1 h with ⟨rfl, _⟩
    intro a ha
    rcases Option.map_eq_some_iff.1 ha with ⟨c, _, rfl⟩
    exact ⟨rfl, hdescriptor, not_lt.1 hfits⟩

/-- Looking for the artifact of a path with a device always comes to a result. -/
theorem exists_artifact? (g : Generator α) (id : String) (circuit : Circuit) {p : CompilationPath}
    {d : Descriptor α} (h : p.descriptor = .ok d) (s : Session) :
    ∃ a? t, g.artifact? id circuit p s = .ok a? t := by
  have hcompiled : ∃ c? t, g.compiled? id circuit p s = .ok c? t := by
    unfold compiled?
    cases g.cached? s id p with
    | some c => exact ⟨some c, s, rfl⟩
    | none =>
      cases g.compile id circuit p s with
      | ok c t => exact ⟨some c, t, rfl⟩
      | error cause t => exact ⟨none, t, rfl⟩
  unfold artifact?
  by_cases hwide : d.numQubits < circuit.numQubits
  · refine ⟨none, s, Selecting.bind_eq_ok_iff.2
      ⟨d, s, Selecting.ofExcept_eq_ok_iff.2 ⟨h, rfl⟩, ?_⟩⟩
    rw [if_pos hwide]
    rfl
  · rcases hcompiled with ⟨c?, t, hc⟩
    refine ⟨c?.map fun c => ⟨p, d, c⟩, t, Selecting.bind_eq_ok_iff.2
      ⟨d, s, Selecting.ofExcept_eq_ok_iff.2 ⟨h, rfl⟩, ?_⟩⟩
    rw [if_neg hwide]
    exact Selecting.bind_eq_ok_iff.2 ⟨c?, t, hc, rfl⟩

/-- Artifacts come in the order of their paths, at most one for each. -/
theorem artifacts_spec {ps : List CompilationPath} {as : List (Artifact α)}
    (h : g.artifacts id circuit ps s = .ok as t) :
    (as.map (·.path)).Sublist ps ∧
      ∀ a ∈ as, a.path.descriptor = .ok a.device ∧ circuit.numQubits ≤ a.device.numQubits := by
  induction ps generalizing s as with
  | nil =>
    rcases Selecting.pure_eq_ok_iff.1 h with ⟨rfl, _⟩
    simp
  | cons p ps ih =>
    rcases Selecting.bind_eq_ok_iff.1 h with ⟨here, u, hhere, h⟩
    rcases Selecting.bind_eq_ok_iff.1 h with ⟨rest, v, hrest, h⟩
    rcases Selecting.pure_eq_ok_iff.1 h with ⟨rfl, rfl⟩
    rcases ih hrest with ⟨hsub, hall⟩
    have hspec := artifact?_spec hhere
    cases here with
    | none => exact ⟨by simpa using hsub.cons p, by simpa using hall⟩
    | some a =>
      rcases hspec a rfl with ⟨rfl, hdevice⟩
      exact ⟨by simpa using hsub.cons_cons a.path, by simpa using ⟨hdevice, hall⟩⟩

/-- Looking for the artifacts of paths with devices always comes to a result. -/
theorem exists_artifacts (g : Generator α) (id : String) (circuit : Circuit)
    {ps : List CompilationPath} (h : ∀ p ∈ ps, ∃ d : Descriptor α, p.descriptor = .ok d)
    (s : Session) :
    ∃ as t, g.artifacts id circuit ps s = .ok as t := by
  induction ps generalizing s with
  | nil => exact ⟨[], s, rfl⟩
  | cons p ps ih =>
    rcases h p List.mem_cons_self with ⟨d, hd⟩
    rcases exists_artifact? g id circuit hd s with ⟨here, u, hhere⟩
    rcases ih (fun q hq => h q (List.mem_cons_of_mem p hq)) u with ⟨rest, t, hrest⟩
    exact ⟨here.toList ++ rest, t, Selecting.bind_eq_ok_iff.2
      ⟨here, u, hhere, Selecting.bind_eq_ok_iff.2 ⟨rest, t, hrest, rfl⟩⟩⟩

/-- Every path of the catalog has a device, whatever numbers are computed with. -/
theorem exists_descriptor {p : CompilationPath} (h : p ∈ CompilationPath.catalog) :
    ∃ d : Descriptor α, p.descriptor = .ok d := by
  have hdevice : ∀ name ∈ ["ibm_washington", "ibm_montreal", "ionq", "rigetti_m1", "oqc_lucy"],
      ∃ d : Descriptor α, Registry.builtinDevice name = .ok d := by
    simp only [List.forall_mem_cons]
    exact ⟨⟨_, rfl⟩, ⟨_, rfl⟩, ⟨_, rfl⟩, ⟨_, rfl⟩, ⟨_, rfl⟩, by simp⟩
  obtain ⟨d, hd⟩ := hdevice _ (CompilationPath.device_catalog p h)
  exact ⟨d, by simp [CompilationPath.descriptor, hd, Except.mapError]⟩

/-- Looking for the artifacts of a circuit always comes to a result. -/
theorem exists_artifacts_catalog (g : Generator α) (id : String) (circuit : Circuit)
    (s : Session) : ∃ as t, g.artifacts id circuit CompilationPath.catalog s = .ok as t :=
  exists_artifacts g id circuit (fun _ hp => exists_descriptor hp) s

/-- Processing a circuit is labelling it with its artifacts. -/
theorem processCircuit_of_artifacts {as : List (Artifact α)}
    (h : g.artifacts id circuit CompilationPath.catalog s = .ok as t) :
    g.processCircuit id circuit s = Selecting.ofExcept (g.label id circuit as) t := by
  change EStateM.bind _ _ s = _
  rw [EStateM.bind, h]

omit [Scalar α] in
/-- The places of paths of the catalog come in their order, none twice. -/
theorem sublist_map_index {as : List (Artifact α)}
    (h : (as.map (·.path)).Sublist CompilationPath.catalog) :
    (as.map (·.path.index)).Sublist (List.range CompilationPath.count) := by
  have hsub := h.map CompilationPath.index
  rwa [CompilationPath.map_index_catalog, List.map_map] at hsub

/-! ## Labels -/

private theorem exists_best? {v : ScoreVector α} (h : v.scores ≠ []) :
    ∃ best, v.best? = some best := by
  have hsome : ∀ (entries : List (α × Nat)) (best : Nat × α),
      (entries.foldl ScoreVector.better (some best)).isSome = true := by
    intro entries
    induction entries with
    | nil => simp
    | cons entry entries ih =>
      rintro ⟨place, score⟩
      simp only [List.foldl_cons, ScoreVector.better]
      split_ifs
      · exact ih _
      · exact ih _
  obtain ⟨score, scores, hscores⟩ := List.exists_cons_of_ne_nil h
  unfold ScoreVector.best?
  rw [hscores, List.zipIdx_cons, List.foldl_cons]
  obtain ⟨best, hbest⟩ := Option.isSome_iff_exists.1 (hsome (scores.zipIdx (0 + 1)) (0, score))
  exact ⟨best.1, by simp [ScoreVector.better, hbest]⟩

/-- The scores of all paths are those of artifacts, written to their places. -/
theorem scatter_eq_written (as : List (Artifact α)) (scores : List (Score α)) :
    scatter as scores = .written CompilationPath.count
      ((as.zip scores).map fun pair => (pair.1.path.index, pair.2.value)) := by
  rw [scatter, ScoreVector.written, List.foldl_map]

/-- There is one score for each path of the catalog. -/
theorem length_scatter (as : List (Artifact α)) (scores : List (Score α)) :
    (scatter as scores).scores.length = CompilationPath.count := by
  rw [scatter_eq_written, ScoreVector.length_scores_written]

omit [Scalar α] in
/-- The scores are put at the indices of the paths of the artifacts. -/
theorem map_fst_places {as : List (Artifact α)} {scores : List (Score α)}
    (h : as.length = scores.length) :
    ((as.zip scores).map fun pair => (pair.1.path.index, pair.2.value)).map (·.1) =
      as.map (·.path.index) := by
  have hfirst := congrArg (List.map fun a => a.path.index) (List.map_fst_zip h.le)
  simpa [Function.comp_def] using hfirst

/-- The place of an artifact holds the score that stands where the artifact does. -/
theorem getElem?_scatter_of_getElem? {as : List (Artifact α)} {scores : List (Score α)} {i : Nat}
    {a : Artifact α} {score : Score α} (hlength : as.length = scores.length)
    (hnodup : (as.map (·.path.index)).Nodup) (ha : as[i]? = some a)
    (hscore : scores[i]? = some score) (hplace : a.path.index < CompilationPath.count) :
    (scatter as scores).scores[a.path.index]? = some score.value := by
  rw [scatter_eq_written]
  refine ScoreVector.getElem?_written_of_mem ?_ ?_ hplace
  · rwa [map_fst_places hlength]
  · have hpair : (as.zip scores)[i]? = some (a, score) :=
      List.getElem?_zip_eq_some.2 ⟨ha, hscore⟩
    exact List.mem_map.2 ⟨(a, score), List.mem_of_getElem? hpair, rfl⟩

/-- The places of no artifact hold the sentinel. -/
theorem getElem?_scatter_of_not_mem {as : List (Artifact α)} {scores : List (Score α)} {place : Nat}
    (hlength : as.length = scores.length) (h : place ∉ as.map (·.path.index))
    (hplace : place < CompilationPath.count) :
    (scatter as scores).scores[place]? = some sentinelPenalty := by
  rw [scatter_eq_written]
  refine ScoreVector.getElem?_written_of_not_mem ?_ hplace
  rwa [map_fst_places hlength]

/-- Files are processed one after the other, as long as each comes to an end. -/
theorem processFiles_cons (g : Generator α) (dataset : String) (labelled : List String)
    (summary : GenerationSummary) (file : String) (files : List String) :
    g.processFiles dataset labelled summary (file :: files) =
      g.processFile dataset labelled summary file >>= fun next? =>
        next?.elim (pure none) fun next => g.processFiles dataset labelled next files := by
  rw [processFiles]
  congr 1
  funext next?
  cases next? <;> rfl

/-- Files are handled if the first one is, and the others are after it. -/
theorem processFiles_cons_eq_some_iff {g : Generator α} {dataset file : String}
    {labelled files : List String} {summary summary' : GenerationSummary} {s t : Session} :
    g.processFiles dataset labelled summary (file :: files) s = .ok (some summary') t ↔
      ∃ next u, g.processFile dataset labelled summary file s = .ok (some next) u ∧
        g.processFiles dataset labelled next files u = .ok (some summary') t := by
  rw [processFiles_cons, Selecting.bind_eq_ok_iff]
  constructor
  · rintro ⟨next?, u, hfile, hrest⟩
    cases next? with
    | none => simp [Selecting.pure_eq_ok_iff] at hrest
    | some next => exact ⟨next, u, hfile, hrest⟩
  · rintro ⟨next, u, hfile, hrest⟩
    exact ⟨some next, u, hfile, hrest⟩

/-- A circuit with artifacts is labelled with the best place among their scores. -/
theorem exists_label_best (g : Generator α) (id : String) (circuit : Circuit)
    {as : List (Artifact α)} (h : as ≠ []) {batch : ScoreBatch α}
    (hbatch : g.engine.scoreBatch (as.map fun a => ⟨a.circuit, a.device⟩) circuit.numQubits =
      some batch) :
    ∃ best, (scatter as batch.scores).best? = some best ∧
      g.label id circuit as = .ok (some ⟨id, .ofCircuit circuit, best, scatter as batch.scores,
        some batch.strategy⟩) := by
  have hempty : as.isEmpty = false := by simpa using h
  have hscores : (scatter as batch.scores).scores ≠ [] := by
    intro hnil
    have hlength := length_scatter as batch.scores
    rw [hnil, List.length_nil] at hlength
    exact absurd hlength (by decide)
  obtain ⟨best, hbest⟩ := exists_best? hscores
  refine ⟨best, hbest, ?_⟩
  simp only [label, hempty, Bool.false_eq_true, if_false, hbatch, TrainingExample.ofScores, hbest]
  rfl

/-- Artifacts whose scores cannot be computed make no example. -/
theorem label_eq_none (g : Generator α) (id : String) (circuit : Circuit)
    {as : List (Artifact α)} (h : as ≠ [])
    (hbatch : g.engine.scoreBatch (as.map fun a => ⟨a.circuit, a.device⟩) circuit.numQubits =
      none) :
    g.label id circuit as = .ok none := by
  have hempty : as.isEmpty = false := by simpa using h
  simp only [label, hempty, Bool.false_eq_true, if_false, hbatch]
  rfl

end

end Generator

end PathSelection
