import PathSelection.Proofs.Generation.Artifacts

/-!
# Ranking of compiled paths

A generator tells the paths that have no compiled circuit only by their scores, which
are the sentinel.  A compiled path whose score is not below the sentinel is taken for
one of them.

Main results:

- Theorem `Generator.processCircuit_spec`: the label and the available paths of an example.
- Theorem `Generator.unavailablePaths_run`: the unavailable paths of a run.
- Theorem `Generator.ranking_iff_withinBudget`: compiled paths rank in front of all others
  exactly if an analytical batch stays within its budget.
- Theorem `Generator.score_not_lt_sentinel`: one gate that takes as long as ten thousand
  coherence times is scored above the sentinel.
-/

namespace PathSelection

/-- An artifact as a candidate for scoring. -/
def Artifact.candidate {α : Type} (a : Artifact α) : Candidate α := ⟨a.circuit, a.device⟩

namespace Generator

variable {g : Generator Rat} {id : String} {circuit : Circuit} {as : List (Artifact Rat)}
  {b : ScoreBatch Rat} {s t : Session}

/-! ## Scores of artifacts -/

/-- The scores of the artifacts of a circuit, if they can be computed. -/
def batch (g : Generator Rat) (circuit : Circuit) (as : List (Artifact Rat)) :
    Option (ScoreBatch Rat) :=
  g.engine.scoreBatch (as.map Artifact.candidate) circuit.numQubits

/-- The score of an artifact among the others, if it can be computed. -/
def value? (g : Generator Rat) (circuit : Circuit) (as : List (Artifact Rat)) (a : Artifact Rat) :
    Option Rat :=
  ((g.engine.under (g.engine.agreedPolicy (as.map Artifact.candidate) circuit.numQubits)).score
    a.candidate circuit.numQubits).map (·.value)

/-- The places of artifacts with the scores that are written to them. -/
def entries (as : List (Artifact Rat)) (scores : List (Score Rat)) : List (Nat × Rat) :=
  (as.zip scores).map fun pair => (pair.1.path.index, pair.2.value)

/-- A batch has the score of every artifact. -/
theorem forall₂_value? (h : g.batch circuit as = some b) :
    List.Forall₂ (fun a s => g.value? circuit as a = some s.value) as b.scores := by
  refine (List.forall₂_map_left_iff.1 (ScoringEngine.scoreBatch_eq_some_iff.1 h).1).imp
    fun a s hs => ?_
  rw [value?, hs, Option.map_some]

/-- The entries of a batch are the places and the scores of the artifacts. -/
theorem forall₂_entries (h : g.batch circuit as = some b) :
    List.Forall₂ (fun a entry => entry.1 = a.path.index ∧ g.value? circuit as a = some entry.2) as
      (entries as b.scores) := by
  have hvalues := forall₂_value? h
  -- The whole list stands in the policy of each score, so only what is paired is generalized.
  generalize b.scores = scores at hvalues ⊢
  generalize g.value? circuit as = value at hvalues ⊢
  clear h
  induction hvalues with
  | nil => exact .nil
  | cons hhead _ ih => exact .cons ⟨rfl, hhead⟩ ih

/-- Is an artifact ranked behind by an analytical score although it is compiled? -/
def Lost (g : Generator Rat) (circuit : Circuit) (as : List (Artifact Rat)) (a : Artifact Rat) :
    Prop :=
  (∃ b ∈ g.batch circuit as, b.strategy = .analytical) ∧ ¬g.engine.WithinBudget a.candidate

instance {a : Artifact Rat} : Decidable (g.Lost circuit as a) :=
  inferInstanceAs (Decidable ((∃ _ ∈ _, _) ∧ _))

private theorem lost_iff (h : g.batch circuit as = some b) {a : Artifact Rat} :
    g.Lost circuit as a ↔ b.strategy = .analytical ∧ ¬g.engine.WithinBudget a.candidate := by
  simp [Lost, h]

/-- What the artifacts of a circuit are made of: paths of the catalog with their devices. -/
structure Compiled (circuit : Circuit) (as : List (Artifact Rat)) : Prop where
  paths : (as.map (·.path)).Sublist CompilationPath.catalog
  valid : ∀ a ∈ as, a.device.validate = .ok ()
  fits : ∀ a ∈ as, circuit.numQubits ≤ a.device.numQubits

private theorem compiled_of_artifacts
    (h : g.artifacts id circuit CompilationPath.catalog s = .ok as t) :
    Compiled circuit as := by
  rcases artifacts_spec h with ⟨hsub, hall⟩
  refine ⟨hsub, fun a ha => ?_, fun a ha => (hall a ha).2⟩
  have hmem : a.path ∈ CompilationPath.catalog := hsub.subset (List.mem_map.2 ⟨a, ha, rfl⟩)
  rcases CompilationPath.descriptor_catalog a.path hmem with ⟨d, hd, hvalid⟩
  rw [(hall a ha).1] at hd
  exact Except.ok.inj hd ▸ hvalid

private theorem map_fst_entries (h : g.batch circuit as = some b) :
    (entries as b.scores).map (·.1) = as.map (·.path.index) :=
  map_fst_places (forall₂_value? h).length_eq

private theorem Compiled.sublist_range (h : Compiled circuit as) :
    (as.map (·.path.index)).Sublist (List.range CompilationPath.count) :=
  sublist_map_index h.paths

/-- The entries of artifacts go to different places. -/
theorem Compiled.nodup_places (h : Compiled circuit as) (hb : g.batch circuit as = some b) :
    ((entries as b.scores).map (·.1)).Nodup := by
  rw [map_fst_entries hb]
  exact h.sublist_range.nodup List.nodup_range

private theorem Compiled.place_lt (h : Compiled circuit as) (hb : g.batch circuit as = some b) :
    ∀ entry ∈ entries as b.scores, entry.1 < CompilationPath.count := by
  intro entry hentry
  have hmem : entry.1 ∈ as.map (·.path.index) := by
    rw [← map_fst_entries hb]
    exact List.mem_map.2 ⟨entry, hentry, rfl⟩
  exact List.mem_range.1 (h.sublist_range.subset hmem)

private theorem Compiled.length_le (h : Compiled circuit as) :
    as.length ≤ CompilationPath.count := by
  simpa [CompilationPath.count] using h.paths.length_le

/-- The score of an artifact is below the sentinel unless the artifact is lost. -/
theorem Compiled.value_lt_sentinel_iff (hrange : g.engine.InRange) (h : Compiled circuit as)
    (hb : g.batch circuit as = some b) {a : Artifact Rat} (ha : a ∈ as) {x : Rat}
    (hx : g.value? circuit as a = some x) : x < sentinelPenalty ↔ ¬g.Lost circuit as a := by
  have hcandidate : a.candidate ∈ as.map Artifact.candidate := List.mem_map.2 ⟨a, ha, rfl⟩
  have hfits : circuit.numQubits ≤ a.candidate.device.numQubits := h.fits a ha
  obtain ⟨s, hs, rfl⟩ := Option.map_eq_some_iff.1 hx
  have hiff := ScoringEngine.value_scoreBatch_lt_sentinel_iff hrange hb hcandidate (h.valid a ha)
    hfits hs
  rw [hiff, lost_iff hb, not_and, not_not]

/-- The available paths and the lost artifacts are all artifacts. -/
theorem Compiled.availableCount_add_lost (hrange : g.engine.InRange) (h : Compiled circuit as)
    (hb : g.batch circuit as = some b) :
    (scatter as b.scores).availableCount + as.countP (fun a => g.Lost circuit as a) =
      as.length := by
  have hkept : as.countP (fun a => ¬g.Lost circuit as a) =
      (entries as b.scores).countP fun entry => Scalar.lt entry.2 sentinelPenalty := by
    refine countP_eq_of_forall₂ (((List.forall₂_and_left _ _).2
      ⟨fun a ha => ha, forall₂_entries hb⟩).imp ?_)
    rintro a entry ⟨ha, -, hx⟩
    have hiff := h.value_lt_sentinel_iff hrange hb ha hx
    rw [Bool.eq_iff_iff, Scalar.lt_rat, decide_eq_true_iff, hiff]
  rw [scatter_eq_written, ← entries, ScoreVector.availableCount_written (h.nodup_places hb)
    (h.place_lt hb), ← hkept, Nat.add_comm,
    List.length_eq_countP_add_countP (fun a => g.Lost circuit as a)]
  simp

/-- No artifact is lost exactly if an analytical batch stays within its budget. -/
theorem countP_lost_eq_zero_iff (hb : g.batch circuit as = some b) :
    as.countP (fun a => g.Lost circuit as a) = 0 ↔
      (b.strategy = .analytical → ∀ a ∈ as, g.engine.WithinBudget a.candidate) := by
  simp only [List.countP_eq_zero, decide_eq_true_eq, lost_iff hb, not_and, not_not]
  exact ⟨fun h hstrategy a ha => h a ha hstrategy, fun h a ha hstrategy => h hstrategy a ha⟩

/-! ## Labels -/

/-- A circuit is compiled along all paths that can be used and then labelled. -/
theorem processCircuit_eq (g : Generator Rat) (id : String) (circuit : Circuit) (s : Session) :
    ∃ as t, g.artifacts id circuit CompilationPath.catalog s = .ok as t ∧
      g.processCircuit id circuit s = Selecting.ofExcept (g.label id circuit as) t := by
  obtain ⟨as, t, has⟩ := exists_artifacts_catalog g id circuit s
  exact ⟨as, t, has, processCircuit_of_artifacts has⟩

/-- The example of a circuit is made of the scores of its artifacts. -/
theorem exists_batch_of_label {e : TrainingExample Rat}
    (h : g.label id circuit as = .ok (some e)) :
    as ≠ [] ∧ ∃ b, g.batch circuit as = some b ∧ e.scores = scatter as b.scores ∧
      e.scores.best? = some e.bestPath := by
  have hne : as ≠ [] := by
    rintro rfl
    cases h
  refine ⟨hne, ?_⟩
  cases hb : g.batch circuit as with
  | none =>
    rw [label_eq_none g id circuit hne hb] at h
    cases h
  | some b =>
    obtain ⟨best, hbest, hlabel⟩ := exists_label_best g id circuit hne hb
    rw [hlabel] at h
    obtain rfl := Option.some.inj (Except.ok.inj h)
    exact ⟨b, rfl, rfl, hbest⟩

/-- An example has as many available paths as artifacts that are not lost.  Its label is that of
an artifact exactly if the score of some artifact is not beaten by the sentinels. -/
theorem processCircuit_spec (hrange : g.engine.InRange) {e : TrainingExample Rat}
    (h : g.processCircuit id circuit s = .ok (some e) t) :
    ∃ as b, g.artifacts id circuit CompilationPath.catalog s = .ok as t ∧ as ≠ [] ∧
      g.batch circuit as = some b ∧
      e.scores.availableCount + as.countP (fun a => g.Lost circuit as a) = as.length ∧
      (e.bestPath ∈ as.map (·.path.index) ↔
        ∃ a ∈ as, ∃ x, g.value? circuit as a = some x ∧
          ∀ other < CompilationPath.count, other ∉ as.map (·.path.index) →
            x < sentinelPenalty ∨ (x = sentinelPenalty ∧ a.path.index < other)) := by
  rcases processCircuit_eq g id circuit s with ⟨as, u, has, heq⟩
  rw [heq] at h
  rcases Selecting.ofExcept_eq_ok_iff.1 h with ⟨hlabel, rfl⟩
  obtain ⟨hne, b, hb, hscores, hbest⟩ := exists_batch_of_label hlabel
  have hcompiled := compiled_of_artifacts has
  refine ⟨as, b, has, hne, hb, hscores ▸ hcompiled.availableCount_add_lost hrange hb, ?_⟩
  rw [hscores, scatter_eq_written, ← entries] at hbest
  have hiff := ScoreVector.best?_written_mem_iff (hcompiled.nodup_places hb) (hcompiled.place_lt hb)
    hbest
  rw [map_fst_entries hb] at hiff
  refine hiff.trans ⟨?_, ?_⟩
  · rintro ⟨entry, hentry, hfirst⟩
    obtain ⟨a, ha, hplace, hx⟩ := exists_source_of_forall₂ (forall₂_entries hb) hentry
    exact ⟨a, ha, entry.2, hx, hplace ▸ hfirst⟩
  · rintro ⟨a, ha, x, hx, hfirst⟩
    obtain ⟨entry, hentry, hplace, hx'⟩ := exists_of_forall₂ (forall₂_entries hb) ha
    obtain rfl : x = entry.2 := Option.some.inj (hx.symm.trans hx')
    exact ⟨entry, hentry, hplace ▸ hfirst⟩

/-! ## Runs -/

/-- The circuit of a file that is to be handled, with its artifacts, if there is one. -/
def handledIn (g : Generator Rat) (labelled : List String) (file : String) (s : Session) :
    List (Circuit × List (Artifact Rat)) :=
  let id := Corpus.circuitId file
  if labelled.contains id then []
  else match usable? (α := Rat) s.storage file with
    | none => []
    | some circuit =>
      match g.artifacts id circuit CompilationPath.catalog s with
      | .ok as _ => [(circuit, as)]
      | .error _ _ => []

/-- The circuits that are handled in a run over files, with their artifacts. -/
def handled (g : Generator Rat) (dataset : String) (labelled : List String) :
    GenerationSummary → List String → Session → List (Circuit × List (Artifact Rat))
  | _, [], _ => []
  | summary, file :: files, s =>
    g.handledIn labelled file s ++
      match g.processFile dataset labelled summary file s with
      | .ok (some summary) s => g.handled dataset labelled summary files s
      | .ok none _ | .error _ _ => []

/-- The paths without a compiled circuit. -/
def uncompiled (handled : List (Circuit × List (Artifact Rat))) : Nat :=
  (handled.map fun h => CompilationPath.count - h.2.length).sum

/-- The compiled paths whose scores are not below the sentinel. -/
def lost (g : Generator Rat) (handled : List (Circuit × List (Artifact Rat))) : Nat :=
  (handled.map fun h => h.2.countP fun a => g.Lost h.1 h.2 a).sum

/-- Handling a circuit counts its paths without a compiled circuit and its lost artifacts. -/
theorem unavailablePaths_processInto (hrange : g.engine.InRange) {dataset : String}
    {summary summary' : GenerationSummary} (has : g.artifacts id circuit CompilationPath.catalog s =
      .ok as t) {u : Session} (h : g.processInto dataset id circuit summary s =
        .ok (some summary') u) :
    summary'.unavailablePaths = summary.unavailablePaths + (CompilationPath.count - as.length) +
      as.countP fun a => g.Lost circuit as a := by
  rcases processCircuit_eq g id circuit s with ⟨bs, v, hbs, heq⟩
  rw [has] at hbs
  obtain ⟨rfl, rfl⟩ : as = bs ∧ t = v := by simpa using hbs
  unfold processInto at h
  rw [heq] at h
  by_cases hnil : as = []
  · subst hnil
    -- Without artifacts the label fails, and all paths of the catalog are counted.
    change EStateM.Result.ok (some { summary with
      skipped := summary.skipped + 1
      unavailablePaths := summary.unavailablePaths + CompilationPath.count }) t = _ at h
    obtain ⟨rfl, _⟩ : _ = summary' ∧ t = u := by simpa using h
    simp
  · cases hb : g.batch circuit as with
    | none =>
      rw [label_eq_none g id circuit hnil hb] at h
      simp at h
    | some b =>
      obtain ⟨best, -, hlabel⟩ := exists_label_best g id circuit hnil hb
      have hcount := (compiled_of_artifacts has).availableCount_add_lost hrange hb
      have hle := (compiled_of_artifacts has).length_le
      rw [hlabel] at h
      simp only [Selecting.ofExcept_ok] at h
      split at h
      · obtain ⟨rfl, _⟩ : _ = summary' ∧ _ = u := by simpa using h
        simp only
        omega
      · simp at h

/-- Handling a file counts the paths of its circuit, if it has one. -/
theorem unavailablePaths_processFile (hrange : g.engine.InRange) {dataset file : String}
    {labelled : List String} {summary summary' : GenerationSummary}
    (h : g.processFile dataset labelled summary file s = .ok (some summary') t) :
    summary'.unavailablePaths = summary.unavailablePaths +
      uncompiled (g.handledIn labelled file s) + g.lost (g.handledIn labelled file s) := by
  unfold processFile at h
  unfold handledIn
  simp only at h ⊢
  split at h
  · rename_i hlabelled
    obtain ⟨rfl, -⟩ : _ = summary' ∧ s = t := by simpa using Selecting.pure_eq_ok_iff.1 h
    rw [if_pos hlabelled]
    simp [uncompiled, lost]
  · rename_i hnew
    rcases Selecting.bind_eq_ok_iff.1 h with ⟨u, v, hget, h⟩
    rcases Selecting.get_eq_ok_iff.1 hget with ⟨rfl, rfl⟩
    rw [if_neg hnew]
    cases husable : usable? (α := Rat) s.storage file with
    | none =>
      rw [husable] at h
      obtain ⟨rfl, -⟩ : _ = summary' ∧ s = t := by simpa using Selecting.pure_eq_ok_iff.1 h
      simp [uncompiled, lost]
    | some circuit =>
      rw [husable] at h
      rcases processCircuit_eq g (Corpus.circuitId file) circuit s with ⟨as, v, has, _⟩
      simpa [uncompiled, lost, has] using unavailablePaths_processInto hrange has h

/-- A run counts the paths of all circuits that it handles. -/
theorem unavailablePaths_processFiles (hrange : g.engine.InRange) {dataset : String}
    {labelled files : List String} {summary summary' : GenerationSummary}
    (h : g.processFiles dataset labelled summary files s = .ok (some summary') t) :
    summary'.unavailablePaths = summary.unavailablePaths +
      uncompiled (g.handled dataset labelled summary files s) +
        g.lost (g.handled dataset labelled summary files s) := by
  -- The session after one file is where the next one is handled, so both are generalized.
  induction files generalizing summary s with
  | nil =>
    obtain ⟨rfl, -⟩ : summary = summary' ∧ s = t := by simpa using Selecting.pure_eq_ok_iff.1 h
    simp [handled, uncompiled, lost]
  | cons file files ih =>
    obtain ⟨next, u, hfile, hrest⟩ := processFiles_cons_eq_some_iff.1 h
    have hhere := unavailablePaths_processFile hrange hfile
    have hthere := ih hrest
    have hsplit : g.handled dataset labelled summary (file :: files) s =
        g.handledIn labelled file s ++ g.handled dataset labelled next files u := by
      rw [handled, hfile]
    rw [hthere, hhere, hsplit]
    simp only [uncompiled, lost, List.map_append, List.sum_append]
    omega

/-- A run counts as unavailable the paths without a compiled circuit and the lost artifacts. -/
theorem unavailablePaths_run (hrange : g.engine.InRange) {corpus dataset : String}
    {summary : GenerationSummary} (h : g.run corpus dataset s = .ok (some summary) t) :
    ∃ files labelled, Corpus.files s.storage corpus = .ok files ∧
      Dataset.labelledIds s.storage dataset = .ok labelled ∧
      summary.unavailablePaths =
        uncompiled (g.handled dataset labelled ⟨0, 0, 0, 0⟩ files s) +
          g.lost (g.handled dataset labelled ⟨0, 0, 0, 0⟩ files s) := by
  unfold run at h
  rcases Selecting.bind_eq_ok_iff.1 h with ⟨files, u, hfiles, h⟩
  rcases Selecting.look_eq_ok_iff.1 hfiles with ⟨hcorpus, rfl⟩
  rcases Selecting.bind_eq_ok_iff.1 h with ⟨labelled, v, hlabelled, h⟩
  rcases Selecting.look_eq_ok_iff.1 hlabelled with ⟨hdataset, rfl⟩
  refine ⟨files, labelled, hcorpus, hdataset, ?_⟩
  simpa using unavailablePaths_processFiles hrange h

/-! ## The sentinel as a rank -/

/-- Scores are below the sentinel, labels are those of compiled paths and all compiled paths are
available exactly if an analytical batch stays within its budget.  The compiled paths that are
lost beyond it are counted with the unavailable ones. -/
theorem ranking_iff_withinBudget (g : Generator Rat) (hrange : g.engine.InRange) :
    (∀ cs width batch, (∀ c ∈ cs, c.device.validate = .ok ()) →
      g.engine.scoreBatch cs width = some batch →
      ((∀ s ∈ batch.scores, s.isSentinel = false → s.value < sentinelPenalty) ↔
        (batch.strategy = .analytical →
          ∀ c ∈ cs, width ≤ c.device.numQubits → g.engine.WithinBudget c))) ∧
    (∀ id circuit s e t, g.processCircuit id circuit s = .ok (some e) t →
      ∃ as b, g.artifacts id circuit CompilationPath.catalog s = .ok as t ∧
        g.batch circuit as = some b ∧
        (e.bestPath ∈ as.map (·.path.index) ∧ e.scores.availableCount = as.length ↔
          (b.strategy = .analytical → ∀ a ∈ as, g.engine.WithinBudget a.candidate)) ∧
        e.scores.availableCount + as.countP (fun a => g.Lost circuit as a) = as.length ∧
        (e.bestPath ∈ as.map (·.path.index) ↔
          ∃ a ∈ as, ∃ x, g.value? circuit as a = some x ∧
            ∀ other < CompilationPath.count, other ∉ as.map (·.path.index) →
              x < sentinelPenalty ∨ (x = sentinelPenalty ∧ a.path.index < other))) ∧
    ∀ corpus dataset s summary t, g.run corpus dataset s = .ok (some summary) t →
      ∃ files labelled, Corpus.files s.storage corpus = .ok files ∧
        Dataset.labelledIds s.storage dataset = .ok labelled ∧
        summary.unavailablePaths =
          uncompiled (g.handled dataset labelled ⟨0, 0, 0, 0⟩ files s) +
            g.lost (g.handled dataset labelled ⟨0, 0, 0, 0⟩ files s) := by
  refine ⟨fun cs width batch hvalid hbatch =>
      ScoringEngine.scoreBatch_lt_sentinel_iff hrange hbatch hvalid,
    fun id circuit s e t h => ?_, fun corpus dataset s summary t h =>
      unavailablePaths_run hrange h⟩
  rcases processCircuit_spec hrange h with ⟨as, b, has, hne, hb, hcount, hbest⟩
  refine ⟨as, b, has, hb, ?_, hcount, hbest⟩
  rw [← countP_lost_eq_zero_iff hb]
  constructor
  · rintro ⟨_, havailable⟩
    omega
  · intro hlost
    refine ⟨hbest.2 ?_, by omega⟩
    rcases List.exists_mem_of_ne_nil as hne with ⟨a, ha⟩
    have hkept : ¬g.Lost circuit as a := by
      have hnone := List.countP_eq_zero.1 hlost a ha
      simpa using hnone
    obtain ⟨x, -, hx⟩ := exists_of_forall₂ (forall₂_value? hb) ha
    have hbelow := ((compiled_of_artifacts has).value_lt_sentinel_iff hrange hb ha hx).2 hkept
    exact ⟨a, ha, x.value, hx, fun _ _ _ => .inl hbelow⟩

/-- A circuit of one gate on two qubits. -/
def pairCircuit : Circuit :=
  match Circuit.cx 0 1 (Circuit.withSize "pair" 2 0) with
  | .ok _ c => c
  | .error _ c => c

/-- A generator that scores analytically and has one compiler, which changes nothing. -/
def plainGenerator : Generator Rat where
  compilers := CompilerSet.empty.insert .qiskit
    (.ofOutcome "plain" fun circuit _ => .finished ⟨0⟩ (.ok circuit))
  engine := ⟨[], .analytical, .wholeCircuit⟩
  cache := ⟨"cache"⟩
  deadline := defaultDeadline

/-- One gate is within the budget of all devices: the label is that of a compiled path, and all
ten compiled paths are available. -/
theorem ranking_pairCircuit :
    plainGenerator.engine.InRange ∧
    ∃ e t, plainGenerator.processCircuit "pair" pairCircuit (.fresh (.empty "/")) =
        .ok (some e) t ∧
      ∃ as, plainGenerator.artifacts "pair" pairCircuit CompilationPath.catalog
          (.fresh (.empty "/")) = .ok as t ∧
        as.length = 10 ∧ e.bestPath ∈ as.map (·.path.index) ∧
        e.scores.availableCount = as.length := by
  have hrange : plainGenerator.engine.InRange := fun t ht => by cases ht
  refine ⟨hrange, ?_⟩
  have hexample : (match plainGenerator.processCircuit "pair" pairCircuit
      (.fresh (.empty "/")) with
      | .ok (some _) _ => true
      | .ok none _ | .error _ _ => false) = true := by
    decide +kernel
  have hartifacts : (match plainGenerator.artifacts "pair" pairCircuit CompilationPath.catalog
      (.fresh (.empty "/")) with
      | .ok as _ => decide (as.length = 10 ∧
          ∀ a ∈ as, plainGenerator.engine.WithinBudget a.candidate)
      | .error _ _ => false) = true := by
    decide +kernel
  cases hrun : plainGenerator.processCircuit "pair" pairCircuit (.fresh (.empty "/")) with
  | error cause t => simp [hrun] at hexample
  | ok e? t =>
    cases e? with
    | none => simp [hrun] at hexample
    | some e =>
      obtain ⟨as, b, has, -, hiff, _⟩ :=
        (ranking_iff_withinBudget plainGenerator hrange).2.1 _ _ _ e t hrun
      simp only [has, decide_eq_true_eq] at hartifacts
      rcases hartifacts with ⟨hlength, hbudget⟩
      rcases hiff.2 fun _ => hbudget with ⟨hbest, havailable⟩
      exact ⟨e, t, rfl, as, has, hlength, hbest, havailable⟩

/-- A valid device whose gates on two qubits take ten thousand coherence times. -/
def slowDevice : Descriptor Rat :=
  { Descriptor.ofProvider .ibm "slow" 2 with gateTime2 := 10000 }

/-- On a slow device one gate is scored above the sentinel, although the device is valid and
wide enough. -/
theorem score_not_lt_sentinel :
    slowDevice.validate = .ok () ∧ pairCircuit.numQubits ≤ slowDevice.numQubits ∧
      (plainGenerator.engine.scoreBatch [⟨pairCircuit, slowDevice⟩] pairCircuit.numQubits).map
        (fun batch => batch.scores.map fun s => (s.value, s.isSentinel)) =
          some [(10000000, false)] ∧
      ¬(10000000 : Rat) < sentinelPenalty := by
  refine ⟨?_, by decide, by decide +kernel, by decide⟩
  have hfault : slowDevice.fault? = none := by decide +kernel
  unfold Descriptor.validate
  rw [hfault]

end Generator

end PathSelection
