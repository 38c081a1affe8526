import PathSelection.Proofs.Generation.Labelling
import PathSelection.Proofs.Generation.Repetition
import PathSelection.Proofs.Generation.Storing

/-!
# Labelling circuits again

When a circuit is processed, the compiled circuit of every path that is ready is in the
cache afterwards.  So when it is processed again, the same paths are ready with the same
circuits, whether they come from the cache or not, and the example is the same.

Main results:

- Theorem `Generator.cached?_after_compiled?`: what the cache has for a path after its
  turn.
- Theorem `Generator.cached?_after_artifacts`: what the cache has for a path after all
  paths had their turn.
- Theorem `Generator.ready?_again`: the same paths are ready when a circuit is processed
  again.
- Theorem `Generator.processCircuit_again`: what processing a circuit again comes to.
-/

namespace PathSelection

namespace Generator

variable {α : Type} [Scalar α] {g : Generator α} {id : String} {circuit : Circuit} {s t : Session}
  {p : CompilationPath}

/-! ## Circuits that come back from the cache -/

/-- Every circuit that is compiled when a circuit is processed is put into the cache. -/
def Stores (g : Generator α) (id : String) (circuit : Circuit) (s : Session) : Prop :=
  ∀ p ∈ CompilationPath.catalog, (g.call? id circuit s p).isSome →
    ∀ c compiled, g.compilers.get? p.toolchain = some c →
      g.outcome? circuit (g.turn id circuit s p) p = some compiled →
        (g.cache.store (called c circuit p (g.turn id circuit s p)).storage id p.index
          compiled).1 = .ok ()

/-- A circuit can be labelled again: the outcomes of compilers for it are always the same, their
results can be written and read back, compilers leave the files of the circuit in the cache alone,
and everything that is compiled is stored. -/
structure Cacheable (g : Generator α) (id : String) (circuit : Circuit) (s : Session) : Prop where
  steady : g.compilers.Steady
  results : ∀ toolchain c, g.compilers.get? toolchain = some c → ∀ request storage compiled,
    (c.compile circuit request storage).1.resultBy request.path (some g.deadline) = .ok compiled →
      compiled.Replayed ∧ compiled.Representable
  spares : ∀ index toolchain c, g.compilers.get? toolchain = some c → ∀ circuit request s,
    Storage.SameText (g.cache.path id index) s (c.compile circuit request s).2
  stores : g.Stores id circuit s

private theorem Cacheable.respects (h : g.Cacheable id circuit s) (index : Nat) :
    g.compilers.Respects (Storage.SameText (g.cache.path id index)) :=
  ⟨fun _ => rfl, .trans, h.spares index⟩

omit [Scalar α] in
/-- The outcome of a compiler does not depend on the session. -/
theorem outcome?_congr (h : g.compilers.Steady) (circuit : Circuit) (s t : Session)
    (p : CompilationPath) : g.outcome? circuit s p = g.outcome? circuit t p := by
  unfold outcome?
  cases hcompiler : g.compilers.get? p.toolchain with
  | none => rfl
  | some c =>
    rw [Option.bind_some, Option.bind_some, h _ c hcompiler circuit p.request s.storage t.storage]

omit [Scalar α] in
/-- A compiled circuit that was stored is in the cache. -/
theorem cached?_of_store {storage : Storage} {compiled : Circuit}
    (hreplayed : compiled.Replayed) (hgates : compiled.Representable)
    (hstored : (g.cache.store storage id p.index compiled).1 = .ok ())
    (h : t.storage = (g.cache.store storage id p.index compiled).2) :
    g.cached? t id p = some compiled := by
  have hreplace : storage.replace (g.cache.draft id p.index) (g.cache.path id p.index)
      compiled.toText = (.ok (), t.storage) := by
    rw [h]
    unfold ArtifactCache.store at hstored ⊢
    generalize storage.replace (g.cache.draft id p.index) (g.cache.path id p.index)
      compiled.toText = result at hstored
    obtain ⟨outcome, replaced⟩ := result
    cases outcome with
    | ok => rfl
    | error fault => cases hstored
  rw [cached?_eq, Storage.read_of_replace hreplace, Except.toOption, Option.bind_some,
    hreplayed.ofText_toText hgates, Except.toOption]

section Compiled

variable {compiled : Circuit} {cause : SelectionError} {u : Session}
  (hnone : g.cached? t id p = none)

include hnone

omit [Scalar α] in
private theorem compiled?_of_eq_ok (h : g.compile id circuit p t = .ok compiled u) :
    g.compiled? id circuit p t = .ok (some compiled) u := by
  unfold compiled?
  rw [hnone, h]

omit [Scalar α] in
private theorem compiled?_of_eq_error (h : g.compile id circuit p t = .error cause u) :
    g.compiled? id circuit p t = .ok none u := by
  unfold compiled?
  rw [hnone, h]

end Compiled

/-- After its turn the circuit that was found for a path is in the cache. -/
theorem cached?_after_compiled? (h : g.Cacheable id circuit s) (hp : p ∈ CompilationPath.catalog)
    (hwide : ∃ d : Descriptor α, p.descriptor = .ok d ∧ circuit.numQubits ≤ d.numQubits)
    (hturn : g.turn id circuit s p = t) :
    g.cached? (Selecting.after (g.compiled? id circuit p) t) id p = g.found? id circuit t p := by
  unfold found?
  cases hcached : g.cached? t id p with
  | some c =>
    have hcompiled : g.compiled? id circuit p t = .ok (some c) t := by
      unfold compiled?
      rw [hcached]
    rw [Selecting.after_of_eq_ok hcompiled, hcached, Option.some_or]
  | none =>
    rw [Option.none_or]
    cases hcompiler : g.compilers.get? p.toolchain with
    | none =>
      obtain ⟨cause, hfails⟩ := compile_of_eq_none hcompiler id circuit t
      rw [Selecting.after_of_eq_ok (compiled?_of_eq_error hcached hfails), hcached, outcome?,
        hcompiler, Option.bind_none]
    | some c =>
      have hcompile := compile_of_eq_some hcompiler id circuit t
      cases hresult : (c.compile circuit p.request t.storage).1.resultBy p.request.path
          (some g.deadline) with
      | ok compiled =>
        rw [hresult] at hcompile
        have houtcome : g.outcome? circuit t p = some compiled := by
          rw [outcome?, hcompiler, Option.bind_some, hresult]
          rfl
        have hcall : (g.call? id circuit s p).isSome := by
          rw [call?, hturn, callAt?_eq_some_iff.2 ⟨hwide, hcached, c, hcompiler, rfl⟩]
          rfl
        have hstored := h.stores p hp hcall c compiled hcompiler (hturn.symm ▸ houtcome)
        rw [hturn] at hstored
        obtain ⟨hreplayed, hgates⟩ := h.results _ c hcompiler _ _ compiled hresult
        rw [Selecting.after_of_eq_ok (compiled?_of_eq_ok hcached hcompile), houtcome]
        exact cached?_of_store hreplayed hgates hstored rfl
      | error cause =>
        rw [hresult] at hcompile
        have houtcome : g.outcome? circuit t p = none := by
          rw [outcome?, hcompiler, Option.bind_some, hresult]
          rfl
        have hspared : Storage.SameText (g.cache.path id p.index) t.storage
            (called c circuit p t).storage := h.spares _ _ c hcompiler circuit p.request t.storage
        rw [Selecting.after_of_eq_ok (compiled?_of_eq_error hcached hcompile), houtcome,
          cached?_congr hspared, hcached]

/-- In a directory that takes files everything is stored that is compiled for a circuit with a plain
and short id, if the directory goes on to take files when compilers are called. -/
theorem stores_of_takesFiles (htakes : s.storage.TakesFiles g.cache.directory)
    (hcompilers : ∀ toolchain c, g.compilers.get? toolchain = some c → ∀ circuit request s,
      s.TakesFiles g.cache.directory →
        (c.compile circuit request s).2.TakesFiles g.cache.directory)
    (hid : '/' ∉ id.toList) (hshort : ∀ p ∈ CompilationPath.catalog,
      (ArtifactCache.draftName id p.index).utf8ByteSize ≤ Storage.nameLimit) :
    g.Stores id circuit s := by
  intro p hp _ c compiled hc _
  have hrespects : g.compilers.Respects fun s t =>
      s.TakesFiles g.cache.directory → t.TakesFiles g.cache.directory :=
    ⟨fun _ h => h, fun h h' hs => h' (h hs), hcompilers⟩
  have hturn : (g.turn id circuit s p).storage.TakesFiles g.cache.directory :=
    rel_after_artifacts hrespects
      (fun p _ compiled s hs => ArtifactCache.takesFiles_store hs id p.index compiled) circuit s
      htakes
  exact ArtifactCache.store_eq_ok (hcompilers _ c hc circuit p.request _ hturn) hid (hshort p hp)
    compiled

/-! ## All paths -/

/-- A wide enough path leaves the session of its compiled circuit. -/
theorem after_artifact? {d : Descriptor α} (hd : p.descriptor = .ok d)
    (hwide : circuit.numQubits ≤ d.numQubits) (g : Generator α) (id : String) (t : Session) :
    Selecting.after (g.artifact? id circuit p) t =
      Selecting.after (g.compiled? id circuit p) t := by
  obtain ⟨u, hcompiled, -⟩ := exists_compiled? g id circuit t p
  have hartifact : g.artifact? id circuit p t =
      .ok ((g.found? id circuit t p).map fun c => ⟨p, d, c⟩) u := by
    unfold artifact?
    refine Selecting.bind_eq_ok_iff.2 ⟨d, t, by rw [hd]; rfl, ?_⟩
    rw [if_neg (Nat.not_lt.2 hwide)]
    exact Selecting.bind_eq_ok_iff.2 ⟨_, u, hcompiled, rfl⟩
  rw [Selecting.after_of_eq_ok hartifact, Selecting.after_of_eq_ok hcompiled]

/-- One more path is looked at after all in front of it. -/
theorem after_artifacts_take_succ (g : Generator α) (id : String) (circuit : Circuit) (s : Session)
    {n : Nat} (hn : n < CompilationPath.count) :
    Selecting.after (g.artifacts id circuit (CompilationPath.catalog.take (n + 1))) s =
      Selecting.after (g.artifact? id circuit CompilationPath.catalog[n])
        (Selecting.after (g.artifacts id circuit (CompilationPath.catalog.take n)) s) := by
  obtain ⟨t, has, -⟩ := artifacts_take g id circuit s (Nat.le_of_lt hn)
  obtain ⟨d, hd⟩ := exists_descriptor (α := α) (List.getElem_mem hn)
  obtain ⟨u, hlast, -⟩ := exists_artifact?_readyAt? hd g id circuit t
  rw [List.take_succ_eq_append_getElem hn, Selecting.after_of_eq_ok (artifacts_concat has hlast),
    Selecting.after_of_eq_ok has, Selecting.after_of_eq_ok hlast]

/-- After all paths had their turn the circuit that was found for a wide enough path is in the
cache. -/
theorem cached?_after_artifacts (h : g.Cacheable id circuit s) (hp : p ∈ CompilationPath.catalog)
    (hwide : ∃ d : Descriptor α, p.descriptor = .ok d ∧ circuit.numQubits ≤ d.numQubits) :
    g.cached? (Selecting.after (g.artifacts id circuit CompilationPath.catalog) s) id p =
      g.found? id circuit (g.turn id circuit s p) p := by
  -- the circuits of later paths go to other files
  have hlater : ∀ n, p.index + 1 ≤ n → n ≤ CompilationPath.count →
      g.cached? (Selecting.after (g.artifacts id circuit (CompilationPath.catalog.take n)) s) id p =
        g.found? id circuit (g.turn id circuit s p) p := by
    intro n hlt
    induction n, hlt using Nat.le_induction with
    | base =>
      intro _
      obtain ⟨d, hd, hfits⟩ := hwide
      obtain ⟨n, hn, rfl⟩ := List.mem_iff_getElem.1 hp
      have hturn : Selecting.after (g.artifacts id circuit (CompilationPath.catalog.take n)) s =
          g.turn id circuit s CompilationPath.catalog[n] := by
        rw [turn, CompilationPath.index_catalog n hn]
      rw [CompilationPath.index_catalog n hn, after_artifacts_take_succ g id circuit s hn,
        after_artifact? hd hfits, hturn]
      exact cached?_after_compiled? h hp ⟨d, hd, hfits⟩ rfl
    | succ n hlt ih =>
      intro hn
      rw [← ih (Nat.le_of_succ_le hn), after_artifacts_take_succ g id circuit s hn]
      refine cached?_congr
        (rel_after_artifact? (h.respects p.index) (fun compiled s => ?_) circuit _)
      rw [CompilationPath.index_catalog n hn]
      exact ArtifactCache.sameText_store (Nat.ne_of_lt hlt) g.cache s id compiled
  have hall := hlater _ (CompilationPath.index_lt_count hp) le_rfl
  rwa [CompilationPath.count, List.take_length] at hall

/-! ## Labelling again -/

/-- The same paths are ready with the same circuits when a circuit is processed again. -/
theorem ready?_again (h : g.Cacheable id circuit s) (hp : p ∈ CompilationPath.catalog) :
    g.ready? id circuit (Selecting.after (g.artifacts id circuit CompilationPath.catalog) s) p =
      g.ready? id circuit s p := by
  unfold ready? readyAt?
  cases hwide : wide? α circuit p with
  | none => rfl
  | some d =>
    have hcached := cached?_after_artifacts h hp ⟨d, wide?_eq_some_iff.1 hwide⟩
    rw [Option.bind_some, Option.bind_some]
    congr 1
    rw [found?, cached?_turn id circuit _ (h.spares p.index), hcached]
    cases hfound : g.found? id circuit (g.turn id circuit s p) p with
    | some c => rw [Option.some_or]
    | none =>
      rw [found?, Option.or_eq_none_iff] at hfound
      rw [Option.none_or, outcome?_congr h.steady circuit _ (g.turn id circuit s p), hfound.2]

/-- Processing a circuit again makes an equal example.  Compilers are called again exactly for the
paths that are wide enough and were not ready, as far as there are compilers for them. -/
theorem processCircuit_again {e : TrainingExample α} (h : g.Cacheable id circuit s)
    (hfirst : g.processCircuit id circuit s = .ok (some e) t) :
    ∃ u again, g.processCircuit id circuit t = .ok (some e) u ∧ u.calls = t.calls ++ again ∧
      (∀ call ∈ again, ∃ p ∈ CompilationPath.catalog, call.request = p.request) ∧
      ∀ p ∈ CompilationPath.catalog, (∃ call ∈ again, call.request = p.request) ↔
        (∃ d : Descriptor α, p.descriptor = .ok d ∧ circuit.numQubits ≤ d.numQubits) ∧
          g.ready? id circuit s p = none ∧ (g.compilers.get? p.toolchain).isSome := by
  obtain ⟨t', has, -⟩ := exists_artifacts_ready g id circuit s
  rw [processCircuit_of_artifacts has] at hfirst
  obtain ⟨hlabel, rfl⟩ := Selecting.ofExcept_eq_ok_iff.1 hfirst
  have hafter := Selecting.after_of_eq_ok has
  have hready : g.ready id circuit t' = g.ready id circuit s := by
    refine List.filterMap_congr fun p hp => ?_
    rw [← ready?_again h hp, hafter]
  obtain ⟨u, hagain, hcalls⟩ := exists_artifacts_ready g id circuit t'
  refine ⟨u, g.made id circuit t', ?_, hcalls, fun call hcall => ?_, fun p hp => ?_⟩
  · rw [processCircuit_of_artifacts hagain, hready]
    exact Selecting.ofExcept_eq_ok_iff.2 ⟨hlabel, rfl⟩
  · obtain ⟨p, hp, hmade⟩ := List.mem_filterMap.1 hcall
    obtain ⟨-, -, c, -, rfl⟩ := callAt?_eq_some_iff.1 hmade
    exact ⟨p, hp, rfl⟩
  · rw [mem_made_iff hp]
    refine and_congr_right fun hwide => and_congr_left' ?_
    rw [cached?_turn id circuit t' (h.spares p.index), ← hafter, cached?_after_artifacts h hp hwide]
    obtain ⟨d, hd⟩ := hwide
    rw [ready?, readyAt?, wide?_eq_some_iff.2 hd, Option.bind_some, Option.map_eq_none_iff]

/-! ## A plain circuit -/

private theorem representable_pairCircuit : pairCircuit.Built ∧ pairCircuit.Representable := by
  have hstart : (Circuit.withSize "pair" 2 0).Built := .withSize "pair" (by decide) (by decide)
  refine ⟨@Circuit.Built.call _ _ (.cx 0 1) hstart trivial rfl, fun i hi g hg => ?_⟩
  have hinstructions : pairCircuit.instructions = [.ofGate ⟨.standard .cx, []⟩ [0, 1]] := rfl
  rw [hinstructions, List.mem_singleton] at hi
  subst hi
  obtain rfl := Option.some.inj hg
  refine ⟨fun x hx => (List.not_mem_nil hx).elim, fun gate hgate => ?_, fun name n hcustom => ?_⟩
  · obtain rfl := GateKind.standard.inj hgate
    rfl
  · cases hcustom

/-- With an empty cache the plain generator can label a circuit again. -/
theorem cacheable_pairCircuit :
    plainGenerator.Cacheable "pair" pairCircuit (.fresh ⟨"/", [(["cache"], .directory)]⟩) where
  steady _ _ hc circuit request s t := by
    rw [compile_plainGenerator hc, compile_plainGenerator hc]
  results _ _ hc request storage compiled hresult := by
    rw [compile_plainGenerator hc, CompileOutcome.resultBy_prompt] at hresult
    obtain rfl := Except.ok.inj hresult
    exact ⟨representable_pairCircuit.1.replayed, representable_pairCircuit.2⟩
  spares _ _ _ hc circuit request s := by
    rw [compile_plainGenerator hc]
    rfl
  stores := by
    refine stores_of_takesFiles (Storage.contents_of_list rfl rfl).takesFiles
      (fun _ _ hc circuit request s hs => ?_) (by decide) (by decide)
    rw [compile_plainGenerator hc]
    exact hs

/-- All paths that have a compiler are ready the first time, so nothing is called when the circuit
is processed again. -/
theorem processCircuit_again_pairCircuit :
    ∃ e t u, plainGenerator.processCircuit "pair" pairCircuit
        (.fresh ⟨"/", [(["cache"], .directory)]⟩) = .ok (some e) t ∧
      plainGenerator.processCircuit "pair" pairCircuit t = .ok (some e) u ∧
      t.calls.length = 10 ∧ u.calls = t.calls := by
  have hyields : Selecting.yields (plainGenerator.processCircuit "pair" pairCircuit)
      (.fresh ⟨"/", [(["cache"], .directory)]⟩) (fun e? t => e?.isSome && t.calls.length == 10) =
        true := by
    decide +kernel
  obtain ⟨e?, t, hfirst, hkind⟩ := Selecting.exists_of_yields hyields
  obtain ⟨hsome, hten⟩ := Bool.and_eq_true_iff.1 hkind
  obtain ⟨e, rfl⟩ := Option.isSome_iff_exists.1 hsome
  obtain ⟨u, again, hsecond, hcalls, hpaths, hagain⟩ :=
    processCircuit_again cacheable_pairCircuit hfirst
  have hnothing : again = [] := by
    refine List.eq_nil_iff_forall_not_mem.2 fun call hcall => ?_
    obtain ⟨p, hp, hrequest⟩ := hpaths call hcall
    obtain ⟨⟨d, hd⟩, hnone, hsome⟩ := (hagain p hp).1 ⟨call, hcall, hrequest⟩
    obtain ⟨c, hc⟩ := Option.isSome_iff_exists.1 hsome
    have houtcome (s : Session) : plainGenerator.outcome? pairCircuit s p = some pairCircuit := by
      rw [outcome?, hc, Option.bind_some, compile_plainGenerator hc,
        CompileOutcome.resultBy_prompt]
      rfl
    rw [ready?, readyAt?, wide?_eq_some_iff.2 hd, Option.bind_some, Option.map_eq_none_iff, found?,
      houtcome, Option.or_eq_none_iff] at hnone
    cases hnone.2
  exact ⟨e, t, u, hfirst, hsecond, by simpa using hten, by rw [hcalls, hnothing, List.append_nil]⟩

end Generator

end PathSelection
