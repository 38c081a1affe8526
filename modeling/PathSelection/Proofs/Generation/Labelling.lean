import Mathlib.Data.List.Nodup
import PathSelection.Proofs.Generation.Cache
import PathSelection.Proofs.Generation.Ranking
import PathSelection.Proofs.Generation.Visits

/-!
# Examples of circuits

A path is ready for a circuit if its device is wide enough and there is a compiled
circuit, in the cache or else from its compiler.  The paths take turns in the order
of the catalog, and the example of a circuit has at the place of every path that is
ready its score in the batch of all of them, and at all other places the sentinel.
There is no example where the batch is never done.

Main results:

- Theorem `Generator.artifacts_take`: the artifacts and the calls of the first paths.
- Theorem `Generator.cached?_turn`: what the cache has for a path at its turn it has
  from the start.
- Theorem `Generator.exists_readyBatch_iff`: when the batch of all paths that are ready
  is done.
- Theorem `Generator.processCircuit_labels`: what processing a circuit comes to.
- Theorem `Generator.processCircuit_repeatCircuit`: a circuit that is never done with.
-/

namespace PathSelection

namespace CompilationPath

/-- Paths of the catalog that ask for the same are the same. -/
theorem request_injOn {p q : CompilationPath} (hp : p ∈ catalog) (hq : q ∈ catalog)
    (h : p.request = q.request) : p = q :=
  List.inj_on_of_nodup_map catalog_names_nodup hp hq (congrArg CompileRequest.path h)

private theorem index_injOn {p q : CompilationPath} (hp : p ∈ catalog) (hq : q ∈ catalog)
    (h : p.index = q.index) : p = q :=
  List.inj_on_of_nodup_map (by rw [map_index_catalog]; exact List.nodup_range) hp hq h

private theorem index_lt_of_mem_take {p : CompilationPath} {n : Nat} (h : p ∈ catalog.take n) :
    p.index < n := by
  obtain ⟨i, hi, rfl⟩ := List.mem_iff_getElem.1 h
  rw [List.length_take, lt_min_iff] at hi
  rw [List.getElem_take, index_catalog i hi.2]
  exact hi.1

/-- The paths of the catalog have the indices below their number. -/
theorem index_lt_count {p : CompilationPath} (h : p ∈ catalog) : p.index < count :=
  index_lt_of_mem_take (List.take_length.symm ▸ h)

end CompilationPath

namespace Generator

variable {α : Type} [Scalar α] {g : Generator α} {id : String} {circuit : Circuit} {s t u : Session}
  {p : CompilationPath} {as : List (Artifact α)}

/-! ## Paths that are ready -/

/-- The circuit that comes of calling the compiler of a path, if there is one and it succeeds. -/
def outcome? (g : Generator α) (circuit : Circuit) (s : Session) (p : CompilationPath) :
    Option Circuit :=
  (g.compilers.get? p.toolchain).bind fun c =>
    ((c.compile circuit p.request s.storage).1.resultBy p.request.path (some g.deadline)).toOption

/-- The circuit in the cache for a path, or else that of its compiler. -/
def found? (g : Generator α) (id : String) (circuit : Circuit) (s : Session)
    (p : CompilationPath) : Option Circuit :=
  (g.cached? s id p).or (g.outcome? circuit s p)

/-- The call of the compiler of a path for which the cache has no circuit. -/
def asked? (g : Generator α) (id : String) (s : Session) (p : CompilationPath) :
    Option CompilerCall :=
  match g.cached? s id p with
  | some _ => none
  | none => (g.compilers.get? p.toolchain).map fun c => ⟨c.name, p.request⟩

/-- The device of a path if it is wide enough for a circuit. -/
def wide? (α : Type) [Scalar α] (circuit : Circuit) (p : CompilationPath) : Option (Descriptor α) :=
  p.descriptor.toOption.filter fun d => decide (circuit.numQubits ≤ d.numQubits)

/-- The artifact of a path if it is ready. -/
def readyAt? (g : Generator α) (id : String) (circuit : Circuit) (s : Session)
    (p : CompilationPath) : Option (Artifact α) :=
  (wide? α circuit p).bind fun d => (g.found? id circuit s p).map fun c => ⟨p, d, c⟩

/-- The call for a path if it needs one. -/
def callAt? (g : Generator α) (id : String) (circuit : Circuit) (s : Session)
    (p : CompilationPath) : Option CompilerCall :=
  (wide? α circuit p).bind fun _ => g.asked? id s p

/-- The session when it is the turn of a path: all paths in front of it have been dealt with. -/
def turn (g : Generator α) (id : String) (circuit : Circuit) (s : Session)
    (p : CompilationPath) : Session :=
  Selecting.after (g.artifacts id circuit (CompilationPath.catalog.take p.index)) s

/-- The artifact of a path that is ready at its turn. -/
def ready? (g : Generator α) (id : String) (circuit : Circuit) (s : Session)
    (p : CompilationPath) : Option (Artifact α) :=
  g.readyAt? id circuit (g.turn id circuit s p) p

/-- The call for a path at its turn, if it needs one. -/
def call? (g : Generator α) (id : String) (circuit : Circuit) (s : Session)
    (p : CompilationPath) : Option CompilerCall :=
  g.callAt? id circuit (g.turn id circuit s p) p

/-- The artifacts of all paths that are ready. -/
def ready (g : Generator α) (id : String) (circuit : Circuit) (s : Session) : List (Artifact α) :=
  CompilationPath.catalog.filterMap (g.ready? id circuit s)

/-- The calls for all paths that need one. -/
def made (g : Generator α) (id : String) (circuit : Circuit) (s : Session) : List CompilerCall :=
  CompilationPath.catalog.filterMap (g.call? id circuit s)

/-- A path is wide enough if its device has the qubits of the circuit. -/
theorem wide?_eq_some_iff {d : Descriptor α} :
    wide? α circuit p = some d ↔ p.descriptor = .ok d ∧ circuit.numQubits ≤ d.numQubits := by
  unfold wide?
  cases (p.descriptor : Except SelectionError (Descriptor α)) with
  | error cause => simp [Except.toOption]
  | ok d' =>
    simp only [Except.toOption, Option.filter_eq_some_iff, Option.some.injEq, Except.ok.injEq,
      decide_eq_true_eq]

private theorem readyAt?_eq_some_iff {a : Artifact α} :
    g.readyAt? id circuit s p = some a ↔
      ∃ d c, p.descriptor = .ok d ∧ circuit.numQubits ≤ d.numQubits ∧
        g.found? id circuit s p = some c ∧ ⟨p, d, c⟩ = a := by
  simp only [readyAt?, Option.bind_eq_some_iff, wide?_eq_some_iff, Option.map_eq_some_iff]
  constructor
  · rintro ⟨d, ⟨hd, hwide⟩, c, hc, rfl⟩
    exact ⟨d, c, hd, hwide, hc, rfl⟩
  · rintro ⟨d, c, hd, hwide, hc, rfl⟩
    exact ⟨d, ⟨hd, hwide⟩, c, hc, rfl⟩

/-- A path calls its compiler, if it has one and is wide enough and nothing is in the cache. -/
theorem callAt?_eq_some_iff {call : CompilerCall} :
    g.callAt? id circuit s p = some call ↔
      (∃ d : Descriptor α, p.descriptor = .ok d ∧ circuit.numQubits ≤ d.numQubits) ∧
        g.cached? s id p = none ∧
          ∃ c, g.compilers.get? p.toolchain = some c ∧ ⟨c.name, p.request⟩ = call := by
  simp only [callAt?, Option.bind_eq_some_iff, wide?_eq_some_iff, exists_and_right]
  refine and_congr_right fun _ => ?_
  unfold asked?
  cases g.cached? s id p with
  | some c => simp
  | none => simp

/-! ## One path after the other -/

omit [Scalar α] in
/-- A wide enough path takes the circuit in the cache, or else calls its compiler. -/
theorem exists_compiled? (g : Generator α) (id : String) (circuit : Circuit) (s : Session)
    (p : CompilationPath) :
    ∃ t, g.compiled? id circuit p s = .ok (g.found? id circuit s p) t ∧
      t.calls = s.calls ++ (g.asked? id s p).toList := by
  unfold compiled? found? asked? outcome?
  cases g.cached? s id p with
  | some c => exact ⟨s, rfl, by simp⟩
  | none =>
    cases hcompiler : g.compilers.get? p.toolchain with
    | none =>
      obtain ⟨cause, hfails⟩ := compile_of_eq_none hcompiler id circuit s
      exact ⟨s, by simp [hfails], by simp⟩
    | some c =>
      rw [compile_of_eq_some hcompiler]
      cases hresult : (c.compile circuit p.request s.storage).1.resultBy p.request.path
          (some g.deadline) with
      | ok compiled =>
        refine ⟨_, by simp [hresult, Except.toOption]; rfl, by simp [called]⟩
      | error cause =>
        refine ⟨_, by simp [hresult, Except.toOption]; rfl, by simp [called]⟩

/-- The turn of a path gives its artifact, if it is ready, and its call, if there is one. -/
theorem exists_artifact?_readyAt? {d : Descriptor α} (hd : p.descriptor = .ok d)
    (g : Generator α) (id : String) (circuit : Circuit) (s : Session) :
    ∃ t, g.artifact? id circuit p s = .ok (g.readyAt? id circuit s p) t ∧
      t.calls = s.calls ++ (g.callAt? id circuit s p).toList := by
  unfold artifact? readyAt? callAt? wide?
  simp only [hd, Except.toOption]
  by_cases hwide : circuit.numQubits ≤ d.numQubits
  · obtain ⟨t, hcompiled, hcalls⟩ := exists_compiled? g id circuit s p
    simp only [Option.filter, hwide, decide_true, if_true, Option.bind_some]
    refine ⟨t, Selecting.bind_eq_ok_iff.2 ⟨d, s, rfl, ?_⟩, hcalls⟩
    rw [if_neg (Nat.not_lt.2 hwide)]
    exact Selecting.bind_eq_ok_iff.2 ⟨_, t, hcompiled, rfl⟩
  · simp only [Option.filter, hwide, decide_false, Bool.false_eq_true, if_false, Option.bind_none]
    refine ⟨s, Selecting.bind_eq_ok_iff.2 ⟨d, s, rfl, ?_⟩, by simp⟩
    rw [if_pos (Nat.lt_of_not_le hwide)]
    rfl

/-- One more path adds its artifact at the end. -/
theorem artifacts_concat {ps : List CompilationPath} {a? : Option (Artifact α)}
    (h : g.artifacts id circuit ps s = .ok as t) (hlast : g.artifact? id circuit p t = .ok a? u) :
    g.artifacts id circuit (ps ++ [p]) s = .ok (as ++ a?.toList) u := by
  induction ps generalizing s as with
  | nil =>
    obtain ⟨rfl, rfl⟩ := Selecting.pure_eq_ok_iff.1 h
    exact Selecting.bind_eq_ok_iff.2 ⟨a?, u, hlast,
      Selecting.bind_eq_ok_iff.2 ⟨[], u, rfl, by simp [Selecting.pure_eq_ok_iff]⟩⟩
  | cons q ps ih =>
    obtain ⟨here, v, hhere, h⟩ := Selecting.bind_eq_ok_iff.1 h
    obtain ⟨rest, w, hrest, h⟩ := Selecting.bind_eq_ok_iff.1 h
    obtain ⟨rfl, rfl⟩ := Selecting.pure_eq_ok_iff.1 h
    refine Selecting.bind_eq_ok_iff.2 ⟨here, v, hhere,
      Selecting.bind_eq_ok_iff.2 ⟨_, u, ih hrest, ?_⟩⟩
    exact Selecting.pure_eq_ok_iff.2 ⟨(List.append_assoc _ _ _).symm, rfl⟩

/-- The first paths of the catalog leave the artifacts of those that are ready and make the calls
that they need. -/
theorem artifacts_take (g : Generator α) (id : String) (circuit : Circuit) (s : Session) {n : Nat}
    (hn : n ≤ CompilationPath.count) :
    ∃ t, g.artifacts id circuit (CompilationPath.catalog.take n) s =
        .ok ((CompilationPath.catalog.take n).filterMap (g.ready? id circuit s)) t ∧
      t.calls = s.calls ++ (CompilationPath.catalog.take n).filterMap (g.call? id circuit s) := by
  induction n with
  | zero => exact ⟨s, rfl, by simp⟩
  | succ n ih =>
    obtain ⟨t, has, hcalls⟩ := ih (Nat.le_of_succ_le hn)
    obtain ⟨d, hd⟩ := exists_descriptor (α := α) (List.getElem_mem hn)
    have hturn : g.turn id circuit s CompilationPath.catalog[n] = t := by
      rw [turn, CompilationPath.index_catalog n hn, Selecting.after_of_eq_ok has]
    obtain ⟨u, hlast, hcall⟩ := exists_artifact?_readyAt? hd g id circuit t
    refine ⟨u, ?_, ?_⟩
    · rw [List.take_succ_eq_append_getElem hn, artifacts_concat has hlast, List.filterMap_append]
      simp only [List.filterMap_cons, List.filterMap_nil, ready?, hturn]
      cases g.readyAt? id circuit t CompilationPath.catalog[n] <;> rfl
    · rw [List.take_succ_eq_append_getElem hn, hcall, hcalls, List.filterMap_append,
        List.append_assoc]
      simp only [List.filterMap_cons, List.filterMap_nil, call?, hturn]
      cases g.callAt? id circuit t CompilationPath.catalog[n] <;> rfl

/-- All turns give the artifacts of the paths that are ready, and the calls. -/
theorem exists_artifacts_ready (g : Generator α) (id : String) (circuit : Circuit) (s : Session) :
    ∃ t, g.artifacts id circuit CompilationPath.catalog s = .ok (g.ready id circuit s) t ∧
      t.calls = s.calls ++ g.made id circuit s := by
  have htake := artifacts_take g id circuit s le_rfl
  rwa [CompilationPath.count, List.take_length] at htake

/-- Only for paths that need a call there is one. -/
theorem mem_made_iff (hp : p ∈ CompilationPath.catalog) :
    (∃ call ∈ g.made id circuit s, call.request = p.request) ↔
      (∃ d : Descriptor α, p.descriptor = .ok d ∧ circuit.numQubits ≤ d.numQubits) ∧
        g.cached? (g.turn id circuit s p) id p = none ∧
          (g.compilers.get? p.toolchain).isSome := by
  constructor
  · rintro ⟨call, hcall, heq⟩
    obtain ⟨q, hq, hmade⟩ := List.mem_filterMap.1 hcall
    obtain ⟨hwide, hcached, c, hc, rfl⟩ := callAt?_eq_some_iff.1 hmade
    obtain rfl := CompilationPath.request_injOn hq hp heq
    exact ⟨hwide, hcached, by simp [hc]⟩
  · rintro ⟨hwide, hcached, hsome⟩
    obtain ⟨c, hc⟩ := Option.isSome_iff_exists.1 hsome
    exact ⟨_, List.mem_filterMap.2 ⟨p, hp, callAt?_eq_some_iff.2 ⟨hwide, hcached, c, hc, rfl⟩⟩, rfl⟩

/-! ## The cache at the turn of a path -/

omit [Scalar α] in
/-- The cache has the circuits of those of its files that say one. -/
theorem cached?_eq (g : Generator α) (id : String) (p : CompilationPath) (s : Session) :
    g.cached? s id p = (s.storage.read (g.cache.path id p.index)).toOption.bind fun text =>
      (Circuit.ofText text).toOption := by
  unfold cached? ArtifactCache.load
  cases s.storage.read (g.cache.path id p.index) with
  | ok text => rfl
  | error fault => cases fault <;> rfl

omit [Scalar α] in
/-- The cache has the same circuit where its file has the same text. -/
theorem cached?_congr
    (h : Storage.SameText (g.cache.path id p.index) s.storage t.storage) :
    g.cached? t id p = g.cached? s id p := by
  rw [cached?_eq, cached?_eq, h]

/-- What the cache has for a path at its turn it has from the start, if compilers leave that file
alone: the circuits of other paths go to other files. -/
theorem cached?_turn (id : String) (circuit : Circuit) (s : Session)
    (h : ∀ toolchain c, g.compilers.get? toolchain = some c → ∀ circuit request s,
      Storage.SameText (g.cache.path id p.index) s (c.compile circuit request s).2) :
    g.cached? (g.turn id circuit s p) id p = g.cached? s id p := by
  have hrespects : g.compilers.Respects (Storage.SameText (g.cache.path id p.index)) :=
    ⟨fun _ => rfl, .trans, h⟩
  refine cached?_congr (rel_after_artifacts hrespects (fun q hq compiled s => ?_) circuit s)
  have hindex := CompilationPath.index_lt_of_mem_take hq
  exact ArtifactCache.sameText_store hindex.ne' g.cache s id compiled

/-! ## Examples -/

private theorem mem_ready_iff {a : Artifact α} :
    a ∈ g.ready id circuit s ↔
      ∃ p ∈ CompilationPath.catalog, g.ready? id circuit s p = some a :=
  List.mem_filterMap

private theorem path_of_ready? {a : Artifact α} (h : g.ready? id circuit s p = some a) :
    a.path = p := by
  obtain ⟨d, c, _, _, _, rfl⟩ := readyAt?_eq_some_iff.1 h
  rfl

private theorem ready_eq_nil_iff :
    g.ready id circuit s = [] ↔
      ∀ p ∈ CompilationPath.catalog, g.ready? id circuit s p = none :=
  List.filterMap_eq_nil_iff

/-- No two artifacts of paths that are ready have the same place. -/
theorem nodup_map_index_ready (g : Generator α) (id : String) (circuit : Circuit) (s : Session) :
    ((g.ready id circuit s).map (·.path.index)).Nodup := by
  obtain ⟨t, has, _⟩ := exists_artifacts_ready g id circuit s
  exact (sublist_map_index (artifacts_spec has).1).nodup List.nodup_range

/-- The scores of the artifacts of all paths that are ready, if they can be computed. -/
def readyBatch (g : Generator α) (id : String) (circuit : Circuit) (s : Session) :
    Option (ScoreBatch α) :=
  g.engine.scoreBatch ((g.ready id circuit s).map Artifact.candidate) circuit.numQubits

/-- The devices of paths that are ready are wide enough. -/
theorem width_le_of_mem_ready {a : Artifact α} (h : a ∈ g.ready id circuit s) :
    circuit.numQubits ≤ a.candidate.device.numQubits := by
  obtain ⟨p, -, ha⟩ := mem_ready_iff.1 h
  obtain ⟨d, c, -, hwide, -, rfl⟩ := readyAt?_eq_some_iff.1 ha
  exact hwide

/-- The batch is done if calibration is wanted and can be had for all artifacts, or else if the
counting of the gates of each of them ends. -/
theorem exists_readyBatch_iff :
    (∃ batch, g.readyBatch id circuit s = some batch) ↔
      (g.engine.policy = .calibrated ∧ ∀ a ∈ g.ready id circuit s,
        ∃ t f, CalibrationStore.get g.engine.calibrations a.device.name = .ok t ∧
          calibrationFidelity a.circuit t = .ok f) ∨
      ∀ a ∈ g.ready id circuit s, g.engine.Countable a.candidate := by
  rw [readyBatch, ScoringEngine.exists_scoreBatch_iff, ScoringEngine.allCalibrated_iff]
  simp only [List.forall_mem_map]
  refine or_congr (and_congr_right fun _ => ?_) ?_
  · exact forall₂_congr fun a ha => forall_prop_of_true (width_le_of_mem_ready ha)
  · exact forall₂_congr fun a ha => forall_prop_of_true (width_le_of_mem_ready ha)

/-- What an example says of a circuit, and the batch that it has its scores from. -/
structure Labels (g : Generator α) (id : String) (circuit : Circuit) (s : Session)
    (batch : ScoreBatch α) (e : TrainingExample α) : Prop where
  scored : g.readyBatch id circuit s = some batch
  circuitId : e.circuitId = id
  features : e.features = .ofCircuit circuit
  strategy : e.strategy = some batch.strategy
  best : e.scores.best? = some e.bestPath
  size : e.scores.scores.length = 19
  ready : ∀ p ∈ CompilationPath.catalog, ∀ a, g.ready? id circuit s p = some a →
    ∃ (place : Nat) (score : Score α), (g.ready id circuit s)[place]? = some a ∧
      batch.scores[place]? = some score ∧ e.scores.scores[p.index]? = some score.value
  others : ∀ p ∈ CompilationPath.catalog, g.ready? id circuit s p = none →
    e.scores.scores[p.index]? = some sentinelPenalty

/-- A circuit for which some path is ready is labelled if the batch is done. -/
theorem exists_labels (h : g.ready id circuit s ≠ []) {batch : ScoreBatch α}
    (hbatch : g.readyBatch id circuit s = some batch) :
    ∃ e, g.label id circuit (g.ready id circuit s) = .ok (some e) ∧
      g.Labels id circuit s batch e := by
  obtain ⟨best, hbest, hlabel⟩ := exists_label_best g id circuit h hbatch
  have hlength : (g.ready id circuit s).length = batch.scores.length := by
    rw [← (ScoringEngine.scoreBatch_eq_some_iff.1 hbatch).1.length_eq, List.length_map]
  refine ⟨_, hlabel, hbatch, rfl, rfl, rfl, hbest, length_scatter _ _, fun p hp a ha => ?_,
    fun p hp hnone => ?_⟩
  · obtain ⟨place, hplace⟩ := List.mem_iff_getElem?.1 (mem_ready_iff.2 ⟨p, hp, ha⟩)
    have hlt := hlength ▸ (List.getElem?_eq_some_iff.1 hplace).1
    have hscore := List.getElem?_eq_getElem hlt
    obtain rfl := path_of_ready? ha
    exact ⟨place, _, hplace, hscore, getElem?_scatter_of_getElem? hlength
      (nodup_map_index_ready g id circuit s) hplace hscore (CompilationPath.index_lt_count hp)⟩
  · refine getElem?_scatter_of_not_mem hlength (fun hmem => ?_) (CompilationPath.index_lt_count hp)
    obtain ⟨a, ha, hindex⟩ := List.mem_map.1 hmem
    obtain ⟨q, hq, hready⟩ := mem_ready_iff.1 ha
    rw [path_of_ready? hready] at hindex
    obtain rfl := CompilationPath.index_injOn hq hp hindex
    rw [hnone] at hready
    cases hready

/-- Processing a circuit makes an example of it.  It fails exactly if no path is ready, and it never
ends exactly if some path is ready and the batch of them is never done.  The batch is done if no
operation of the artifacts names a classical bit twice.  A compiler is called once for each path
that is wide enough and for which the cache has no circuit at its turn, if it has a compiler, and
what the cache has at a turn it has from the start, if compilers leave that file alone. -/
theorem processCircuit_labels (g : Generator α) (id : String) (circuit : Circuit) (s : Session) :
    (match g.processCircuit id circuit s with
      | .ok (some e) _ => (∃ p ∈ CompilationPath.catalog, (g.ready? id circuit s p).isSome) ∧
        ∃ batch, g.Labels id circuit s batch e
      | .ok none _ => (∃ p ∈ CompilationPath.catalog, (g.ready? id circuit s p).isSome) ∧
        g.readyBatch id circuit s = none
      | .error cause _ => (∀ p ∈ CompilationPath.catalog, g.ready? id circuit s p = none) ∧
        cause = .allPathsUnavailable id) ∧
    ((∃ batch, g.readyBatch id circuit s = some batch) ↔
      (g.engine.policy = .calibrated ∧ ∀ a ∈ g.ready id circuit s,
        ∃ t f, CalibrationStore.get g.engine.calibrations a.device.name = .ok t ∧
          calibrationFidelity a.circuit t = .ok f) ∨
      ∀ a ∈ g.ready id circuit s, g.engine.Countable a.candidate) ∧
    (∀ a ∈ g.ready id circuit s, a.circuit.Reachable →
      (∀ i ∈ a.circuit.instructions, i.clbits.Nodup) → g.engine.Countable a.candidate) ∧
    (Selecting.after (g.processCircuit id circuit) s).calls = s.calls ++ g.made id circuit s ∧
    (∀ p ∈ CompilationPath.catalog, (∃ call ∈ g.made id circuit s, call.request = p.request) ↔
      (∃ d : Descriptor α, p.descriptor = .ok d ∧ circuit.numQubits ≤ d.numQubits) ∧
        g.cached? (g.turn id circuit s p) id p = none ∧
          (g.compilers.get? p.toolchain).isSome) ∧
    ∀ p, (∀ toolchain c, g.compilers.get? toolchain = some c → ∀ circuit request s,
        Storage.SameText (g.cache.path id p.index) s (c.compile circuit request s).2) →
      g.cached? (g.turn id circuit s p) id p = g.cached? s id p := by
  obtain ⟨t, has, hcalls⟩ := exists_artifacts_ready g id circuit s
  have hprocess := processCircuit_of_artifacts has
  refine ⟨?_, exists_readyBatch_iff,
    fun a _ => ScoringEngine.countable_of_nodup (c := a.candidate), ?_, fun p hp => mem_made_iff hp,
    fun p h => cached?_turn id circuit s h⟩
  · rw [hprocess]
    by_cases hnone : g.ready id circuit s = []
    · rw [hnone]
      exact ⟨ready_eq_nil_iff.1 hnone, rfl⟩
    · have hsome : ∃ p ∈ CompilationPath.catalog, (g.ready? id circuit s p).isSome := by
        obtain ⟨a, ha⟩ := List.exists_mem_of_ne_nil _ hnone
        obtain ⟨p, hp, hready⟩ := mem_ready_iff.1 ha
        exact ⟨p, hp, by simp [hready]⟩
      cases hbatch : g.readyBatch id circuit s with
      | none =>
        rw [label_eq_none g id circuit hnone hbatch]
        exact ⟨hsome, rfl⟩
      | some batch =>
        obtain ⟨e, hlabel, hlabels⟩ := exists_labels hnone hbatch
        rw [hlabel]
        exact ⟨hsome, batch, hlabels⟩
  · rw [← hcalls]
    unfold Selecting.after
    rw [hprocess]
    cases g.label id circuit (g.ready id circuit s) <;> rfl

/-- The first path has a compiler and is ready.  The last one has none, and as compilers leave the
cache alone, there is no circuit for it at its turn either: it keeps the sentinel, and nothing is
called for it. -/
theorem processCircuit_labels_pairCircuit :
    let first := CompilationPath.qiskit 0 "qiskit_ionq_opt2" "ionq" 2
    let last := CompilationPath.tket 18 "tket_oqc_graph" "oqc_lucy" .graph
    ∃ e t, plainGenerator.processCircuit "pair" pairCircuit (.fresh (.empty "/")) =
        .ok (some e) t ∧
      e.scores.scores.length = 19 ∧ e.scores.scores[18]? = some sentinelPenalty ∧
      (∃ call ∈ t.calls, call.request = first.request) ∧
      ∀ call ∈ t.calls, call.request ≠ last.request := by
  intro first last
  have hyields : Selecting.yields (plainGenerator.processCircuit "pair" pairCircuit)
      (.fresh (.empty "/")) (fun e? _ => e?.isSome) = true := by
    decide +kernel
  obtain ⟨e?, t, hrun, hsome⟩ := Selecting.exists_of_yields hyields
  obtain ⟨e, rfl⟩ := Option.isSome_iff_exists.1 hsome
  obtain ⟨hresult, -, -, hcalls, hmade, hturn⟩ :=
    processCircuit_labels plainGenerator "pair" pairCircuit (.fresh (.empty "/"))
  rw [hrun] at hresult
  rw [Selecting.after_of_eq_ok hrun] at hcalls
  have hcalls' : t.calls = plainGenerator.made "pair" pairCircuit (.fresh (.empty "/")) := hcalls
  obtain ⟨-, batch, hlabels⟩ := hresult
  have hlast : last ∈ CompilationPath.catalog := by decide
  have hcached := hturn last fun toolchain c hc circuit request s => by
    cases toolchain with
    | qiskit =>
      obtain rfl := Option.some.inj hc
      rfl
    | tket => cases hc
  have habsent : (plainGenerator.cached? (.fresh (.empty "/")) "pair" last).isNone := by
    decide +kernel
  have hnone : plainGenerator.ready? "pair" pairCircuit (.fresh (.empty "/")) last = none := by
    refine Option.eq_none_iff_forall_not_mem.2 fun a ha => ?_
    obtain ⟨d, c, _, _, hfound, _⟩ := readyAt?_eq_some_iff.1 ha
    rw [found?, hcached, Option.isNone_iff_eq_none.1 habsent] at hfound
    cases hfound
  have huncached : (plainGenerator.cached? (plainGenerator.turn "pair" pairCircuit
      (.fresh (.empty "/")) first) "pair" first).isNone := by
    decide +kernel
  refine ⟨e, t, hrun, hlabels.size, hlabels.others last hlast hnone, ?_, fun call hmem heq => ?_⟩
  · rw [hcalls', hmade first (by decide)]
    exact ⟨⟨_, rfl, by decide⟩, Option.isNone_iff_eq_none.1 huncached, rfl⟩
  · rw [hcalls'] at hmem
    obtain ⟨-, -, hcompiler⟩ := (hmade last hlast).1 ⟨call, hmem, heq⟩
    cases hcompiler

/-- The plain generator, but it counts gates along longest chains. -/
def endlessGenerator : Generator Rat :=
  { plainGenerator with engine := ⟨[], .analytical, .longestPath⟩ }

/-- The compiler of the first path returns the measurement that is its own parent.  The path is
ready, and the circuit is never done with. -/
theorem processCircuit_repeatCircuit :
    let first := CompilationPath.qiskit 0 "qiskit_ionq_opt2" "ionq" 2
    first ∈ CompilationPath.catalog ∧
      (endlessGenerator.ready? "repeat" ScoringEngine.repeatCircuit (.fresh (.empty "/"))
        first).isSome ∧
      ∃ t, endlessGenerator.processCircuit "repeat" ScoringEngine.repeatCircuit
        (.fresh (.empty "/")) = .ok none t := by
  refine ⟨by decide, by decide +kernel, ?_⟩
  have hyields : Selecting.yields
      (endlessGenerator.processCircuit "repeat" ScoringEngine.repeatCircuit)
      (.fresh (.empty "/")) (fun e? _ => e?.isNone) = true := by
    decide +kernel
  obtain ⟨e?, t, hresult, hnone⟩ := Selecting.exists_of_yields hyields
  exact ⟨t, Option.isNone_iff_eq_none.1 hnone ▸ hresult⟩

end Generator

end PathSelection
