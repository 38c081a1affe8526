import PathSelection.Proofs.Model.Prediction

/-!
# The model that a predictor holds

A predictor is called again and again while the files of its model may change between
the calls in any way.  It holds no model at first.  A reload reads the files; a load or a
prediction reads them only while no model is held.  What is read successfully is held, and
nothing else changes what is held: where one of the reads or checks fails, the model stays,
and after the checks a prediction cannot fail any more.

- Definition `Predictor.turn`: a call, with the files that it finds.
- Definition `PredictorExchange.source?`: the files from which the held model comes.

Main results:

- Theorem `turn_cases`: a turn keeps the held model or installs the stored one.
- Theorem `Holds.turn`, `holds_after`: the held model is that of the last successful reload,
  or else that of the first successful load or prediction.
- Theorem `held_after`: what every further call answers and leaves.
-/

namespace PathSelection

/-! ## Calls and their answers -/

/-- A call of a predictor. -/
inductive PredictorCall where
  | state
  | load
  | reload
  | predict (circuit : Circuit)

namespace PredictorCall

/-- Does the call read the stored model in any case? -/
def isReload : PredictorCall → Bool
  | reload => true
  | state | load | predict _ => false

/-- Does the call work with the held model, and read the stored one only if none is held? -/
def usesModel : PredictorCall → Bool
  | load | predict _ => true
  | state | reload => false

end PredictorCall

/-- The answer of a predictor to a call that succeeds. -/
inductive PredictorReply (α : Type) where
  | state (isLoaded : Bool)
  | model (m : Model α)
  | reloaded
  | path (path : CompilationPath)

/-- A call of a predictor and the storage that it finds. -/
structure PredictorTurn where
  storage : Storage
  call : PredictorCall

/-- A call of a predictor with its answer. -/
structure PredictorExchange (α : Type) extends PredictorTurn where
  answer : Except SelectionError (PredictorReply α)

namespace PredictorExchange

variable {α : Type} {log : List (PredictorExchange α)} {e : PredictorExchange α}

/-- Is it a successful reload? -/
def reloads (e : PredictorExchange α) : Bool := e.call.isReload && e.answer.isOk

/-- Is it a successful load or prediction? -/
def loads (e : PredictorExchange α) : Bool := e.call.usesModel && e.answer.isOk

/-- The storage that the last successful reload found, or else the first successful load or
prediction. -/
def source? (log : List (PredictorExchange α)) : Option Storage :=
  ((log.findRev? reloads).or (log.find? loads)).map (·.storage)

/-- A successful reload decides from then on. -/
theorem source?_concat_of_reloads (h : e.reloads = true) :
    source? (log ++ [e]) = some e.storage := by
  simp [source?, List.findRev?_eq_find?_reverse, h]

/-- The first success decides. -/
theorem source?_concat_of_loads (hreloads : e.reloads = false) (hloads : e.loads = true)
    (hnone : source? log = none) : source? (log ++ [e]) = some e.storage := by
  obtain ⟨hreload, hload⟩ : log.findRev? reloads = none ∧ log.find? loads = none := by
    simpa only [source?, Option.map_eq_none_iff, Option.or_eq_none_iff] using hnone
  rw [List.findRev?_eq_find?_reverse] at hreload
  simp [source?, List.findRev?_eq_find?_reverse, hreloads, hloads, hreload, hload]

/-- Other exchanges change nothing. -/
theorem source?_concat_of_not (hreloads : e.reloads = false)
    (hloads : source? log = none → e.loads = false) : source? (log ++ [e]) = source? log := by
  unfold source?
  rw [List.findRev?_eq_find?_reverse, List.findRev?_eq_find?_reverse, List.reverse_concat,
    List.find?_cons, hreloads, List.find?_append]
  cases hlog : log.find? loads with
  | some first => rw [Option.some_or]
  | none =>
    cases hreload : log.reverse.find? reloads with
    | some last => simp
    | none =>
      have hnone : source? log = none := by
        simp [source?, List.findRev?_eq_find?_reverse, hlog, hreload]
      simp [hloads hnone]

end PredictorExchange

namespace PredictorState

variable {α : Type} {s : PredictorState α} {m : Model α}

/-- A state in which the storage was changed. -/
def finding (s : PredictorState α) (storage : Storage) : PredictorState α :=
  { s with session := { s.session with storage := storage } }

/-- A state in which a model is held. -/
def holding (s : PredictorState α) (m : Model α) : PredictorState α := { s with model := some m }

/-- To hold the model that is held changes nothing. -/
theorem holding_self (h : s.model = some m) (storage : Storage) :
    (s.finding storage).holding m = s.finding storage := by
  simp only [holding, finding, h]

end PredictorState

/-- A valid model has a path for every circuit. -/
theorem Model.Valid.exists_path {α : Type} [Scalar α] {m : Model α} (h : m.Valid) (c : Circuit) :
    ∃ label path, m.predict (.ofCircuit c) = .ok label ∧
      CompilationPath.catalog[label]? = some path := by
  obtain ⟨_, label, -, -, -, hlabel, -, hpredict⟩ := h.exists_predict c
  exact ⟨label, _, hpredict, List.getElem?_eq_getElem hlabel⟩

namespace Predictor

variable {α : Type} [Scalar α] {p : Predictor} {s : PredictorState α} {m : Model α}
  {t : PredictorTurn} {storage : Storage} {log : List (PredictorExchange α)}

/-- Calls a predictor. -/
def run (p : Predictor) : PredictorCall → Predicting α (PredictorReply α)
  | .state => fun s => .ok (.state s.isLoaded) s
  | .load => do return .model (← p.load)
  | .reload => do
    p.reload
    return .reloaded
  | .predict circuit => do return .path (← p.predict circuit)

/-- The answer to a call with the storage that it finds, and the state that it leaves. -/
def turn (p : Predictor) (s : PredictorState α) (t : PredictorTurn) :
    Except SelectionError (PredictorReply α) × PredictorState α :=
  match p.run t.call (s.finding t.storage) with
  | .ok reply s' => (.ok reply, s')
  | .error e s' => (.error e, s')

/-- The state after some turns. -/
def after (p : Predictor) (s : PredictorState α) (turns : List PredictorTurn) : PredictorState α :=
  turns.foldl (fun s t => (p.turn s t).2) s

/-- What was asked and answered in some turns. -/
def exchanges (p : Predictor) (s : PredictorState α) :
    List PredictorTurn → List (PredictorExchange α)
  | [] => []
  | t :: turns => ⟨t, (p.turn s t).1⟩ :: p.exchanges (p.turn s t).2 turns

private theorem after_append (turns later : List PredictorTurn) :
    p.after s (turns ++ later) = p.after (p.after s turns) later := List.foldl_append

private theorem exchanges_append (turns later : List PredictorTurn) :
    p.exchanges s (turns ++ later) = p.exchanges s turns ++ p.exchanges (p.after s turns) later := by
  induction turns generalizing s with
  | nil => rfl
  | cons t turns ih =>
    rw [List.cons_append, exchanges, ih]
    rfl

/-! ## What a turn does -/

/-- The model that a load finds: the one that is held, or else the stored one. -/
def available (p : Predictor) (s : PredictorState α) : Except SelectionError (Model α) :=
  match s.model with
  | some m => .ok m
  | none => Model.load s.session.storage p.directory

private theorem load_eq (s : PredictorState α) :
    p.load s = match p.available s with
      | .ok m => .ok m (s.holding m)
      | .error e => .error e s := by
  obtain ⟨session, model⟩ := s
  cases model with
  | some m => rfl
  | none =>
    simp only [load, available, install]
    cases Model.load (α := α) session.storage p.directory <;> rfl

private theorem turn_load (s : PredictorState α) (storage : Storage) :
    p.turn s ⟨storage, .load⟩ = match p.available (s.finding storage) with
      | .ok m => (.ok (.model m), (s.finding storage).holding m)
      | .error e => (.error e, s.finding storage) := by
  simp only [turn, run, bind, EStateM.bind, load_eq]
  cases p.available (s.finding storage) <;> rfl

private theorem turn_reload (s : PredictorState α) (storage : Storage) :
    p.turn s ⟨storage, .reload⟩ = match Model.load storage p.directory with
      | .ok m => (.ok .reloaded, (s.finding storage).holding m)
      | .error e => (.error e, s.finding storage) := by
  simp only [turn, run, reload, install, bind, EStateM.bind, PredictorState.finding]
  cases Model.load (α := α) storage p.directory <;> rfl

/-- A prediction needs a model, and with a valid one it has a path. -/
theorem turn_predict (s : PredictorState α) (storage : Storage) (c : Circuit)
    (hvalid : ∀ m, p.available (s.finding storage) = .ok m → m.Valid) :
    (∃ e, p.available (s.finding storage) = .error e ∧
      p.turn s ⟨storage, .predict c⟩ = (.error e, s.finding storage)) ∨
    ∃ m label path, p.available (s.finding storage) = .ok m ∧
      m.predict (.ofCircuit c) = .ok label ∧ CompilationPath.catalog[label]? = some path ∧
      p.turn s ⟨storage, .predict c⟩ =
        (.ok (.path path), (s.finding storage).holding m) := by
  have hload := load_eq (p := p) (s.finding storage)
  cases havailable : p.available (s.finding storage) with
  | error e =>
    rw [havailable] at hload
    refine .inl ⟨e, rfl, ?_⟩
    simp only [turn, run, predict, bind, EStateM.bind, hload]
  | ok m =>
    rw [havailable] at hload
    obtain ⟨label, path, hpredict, hpath⟩ := (hvalid m havailable).exists_path c
    refine .inr ⟨m, label, path, rfl, hpredict, hpath, ?_⟩
    simp only [turn, run, bind, EStateM.bind, predict_eq_ok hload hpredict hpath, pure,
      EStateM.pure]

private theorem available_of_held (h : s.model = some m) (storage : Storage) :
    p.available (s.finding storage) = .ok m := by
  simp [available, PredictorState.finding, h]

private theorem available_of_unloaded (h : s.model = none) (storage : Storage) :
    p.available (s.finding storage) = Model.load storage p.directory := by
  simp [available, PredictorState.finding, h]

/-- A stored model that can be loaded is valid. -/
theorem valid_of_load {directory : String} (h : Model.load storage directory = .ok m) : m.Valid :=
  (Model.load_eq_ok_iff.1 h).2.2.2

/-- What is available is valid if what is held is. -/
theorem valid_of_available (hheld : ∀ m, s.model = some m → m.Valid)
    (h : p.available (s.finding storage) = .ok m) : m.Valid := by
  cases hmodel : s.model with
  | some held =>
    rw [available_of_held hmodel] at h
    cases h
    exact hheld m hmodel
  | none =>
    rw [available_of_unloaded hmodel] at h
    exact valid_of_load h

/-- A load or a prediction works with the model that it finds, and fails only without one. -/
theorem turn_of_usesModel (hheld : ∀ m, s.model = some m → m.Valid) (storage : Storage)
    {call : PredictorCall} (hcall : call.usesModel = true) :
    (∃ e, p.available (s.finding storage) = .error e ∧
      p.turn s ⟨storage, call⟩ = (.error e, s.finding storage)) ∨
    ∃ m reply, p.available (s.finding storage) = .ok m ∧
      p.turn s ⟨storage, call⟩ = (.ok reply, (s.finding storage).holding m) := by
  cases call with
  | state | reload => cases hcall
  | load =>
    rw [turn_load]
    cases p.available (s.finding storage) with
    | error e => exact .inl ⟨e, rfl, rfl⟩
    | ok m => exact .inr ⟨m, _, rfl, rfl⟩
  | predict c =>
    obtain ⟨e, he, hturn⟩ | ⟨m, _, path, hm, -, -, hturn⟩ :=
      turn_predict (p := p) s storage c fun _ => valid_of_available hheld
    · exact .inl ⟨e, he, hturn⟩
    · exact .inr ⟨m, .path path, hm, hturn⟩

/-- A turn that fails changes nothing, and one that succeeds keeps what is held or installs the
stored model. -/
theorem turn_cases (hheld : ∀ m, s.model = some m → m.Valid) (t : PredictorTurn) :
    (∃ e, p.turn s t = (.error e, s.finding t.storage)) ∨
    (∃ reply, p.turn s t = (.ok reply, s.finding t.storage) ∧ t.call.isReload = false ∧
      (s.model = none → t.call.usesModel = false)) ∨
    ∃ reply m, p.turn s t = (.ok reply, (s.finding t.storage).holding m) ∧
      Model.load t.storage p.directory = .ok m ∧
      (t.call.isReload = true ∨
        s.model = none ∧ t.call.isReload = false ∧ t.call.usesModel = true) := by
  obtain ⟨storage, call⟩ := t
  cases huses : call.usesModel with
  | true =>
    have hreload : call.isReload = false := by
      cases call with
      | load | predict c => rfl
      | state | reload => cases huses
    obtain ⟨e, -, hturn⟩ | ⟨m, reply, havailable, hturn⟩ :=
      turn_of_usesModel (p := p) hheld storage huses
    · exact .inl ⟨e, hturn⟩
    · cases hmodel : s.model with
      | some held =>
        cases (available_of_held hmodel storage).symm.trans havailable
        rw [PredictorState.holding_self hmodel] at hturn
        exact .inr (.inl ⟨reply, hturn, hreload, nofun⟩)
      | none =>
        rw [available_of_unloaded hmodel] at havailable
        exact .inr (.inr ⟨reply, m, hturn, havailable, .inr ⟨rfl, hreload, rfl⟩⟩)
  | false =>
    cases call with
    | load | predict c => cases huses
    | state => exact .inr (.inl ⟨_, rfl, rfl, fun _ => rfl⟩)
    | reload =>
      have hturn := turn_reload (p := p) s storage
      cases hload : Model.load (α := α) storage p.directory with
      | error e =>
        rw [hload] at hturn
        exact .inl ⟨e, hturn⟩
      | ok m =>
        rw [hload] at hturn
        exact .inr (.inr ⟨_, m, hturn, rfl, .inl rfl⟩)

/-! ## The held model -/

/-- The held model is the one in the storage from which it comes, and no model is held where there
is no such storage. -/
def Holds (p : Predictor) (log : List (PredictorExchange α)) : Option (Model α) → Prop
  | none => PredictorExchange.source? log = none
  | some m => ∃ storage, PredictorExchange.source? log = some storage ∧
      Model.load storage p.directory = .ok m

/-- A held model is valid. -/
theorem Holds.valid (h : p.Holds log s.model) (m : Model α) (hm : s.model = some m) : m.Valid := by
  rw [hm] at h
  obtain ⟨storage, -, hload⟩ := h
  exact valid_of_load hload

/-- What is held depends only on the source. -/
theorem Holds.of_source? {log' : List (PredictorExchange α)} {held : Option (Model α)}
    (h : p.Holds log held)
    (hsource : PredictorExchange.source? log' = PredictorExchange.source? log) :
    p.Holds log' held := by
  cases held with
  | none => exact hsource.trans h
  | some m =>
    obtain ⟨storage, hstorage, hload⟩ := h
    exact ⟨storage, hsource.trans hstorage, hload⟩

/-- No model is held exactly if there is no source. -/
theorem Holds.eq_none_iff {held : Option (Model α)} (h : p.Holds log held) :
    held = none ↔ PredictorExchange.source? log = none := by
  cases held with
  | none => exact iff_of_true rfl h
  | some m =>
    obtain ⟨storage, hstorage, -⟩ := h
    simp [hstorage]

/-- After one more turn the held model is again that of its source. -/
theorem Holds.turn (h : p.Holds log s.model) (t : PredictorTurn) :
    p.Holds (log ++ [⟨t, (p.turn s t).1⟩]) (p.turn s t).2.model := by
  obtain ⟨e, hturn⟩ | ⟨reply, hturn, hreload, huses⟩ | ⟨reply, m, hturn, hload, hcall⟩ :=
    turn_cases h.valid t
  · rw [hturn]
    refine h.of_source? (PredictorExchange.source?_concat_of_not ?_ fun _ => ?_)
    · exact Bool.and_false _
    · exact Bool.and_false _
  · rw [hturn]
    refine h.of_source? (PredictorExchange.source?_concat_of_not ?_ fun hnone => ?_)
    · simp [PredictorExchange.reloads, hreload]
    · simp [PredictorExchange.loads, huses (h.eq_none_iff.2 hnone)]
  · rw [hturn]
    refine ⟨t.storage, ?_, hload⟩
    obtain hreload | ⟨hnone, hreload, huses⟩ := hcall
    · refine PredictorExchange.source?_concat_of_reloads ?_
      simp [PredictorExchange.reloads, hreload, Except.isOk, Except.toBool]
    · refine PredictorExchange.source?_concat_of_loads ?_ ?_ (h.eq_none_iff.1 hnone)
      · simp [PredictorExchange.reloads, hreload]
      · simp [PredictorExchange.loads, huses, Except.isOk, Except.toBool]

/-- After any turns the held model is that of its source. -/
theorem holds_after (p : Predictor) (session : Session) (turns : List PredictorTurn) :
    p.Holds (p.exchanges (.unloaded session) turns)
      (p.after (.unloaded session : PredictorState α) turns).model := by
  induction turns using List.reverseRecOn with
  | nil => exact rfl
  | append_singleton turns t ih =>
    rw [exchanges_append, after_append]
    exact ih.turn t

/-! ## Answers -/

/-- With a held model all calls but a reload answer the same whatever the files are, and keep it. -/
theorem exists_turn_of_held (hmodel : s.model = some m) (hvalid : m.Valid) {call : PredictorCall}
    (hcall : call.isReload = false) :
    ∃ reply, ∀ storage, p.turn s ⟨storage, call⟩ = (.ok reply, s.finding storage) := by
  cases call with
  | reload => cases hcall
  | state => exact ⟨.state s.isLoaded, fun _ => rfl⟩
  | load =>
    refine ⟨.model m, fun storage => ?_⟩
    simp only [turn_load, available_of_held hmodel, PredictorState.holding_self hmodel]
  | predict c =>
    obtain ⟨label, path, hpredict, hpath⟩ := hvalid.exists_path c
    refine ⟨.path path, fun storage => ?_⟩
    have hload := load_eq (p := p) (s.finding storage)
    simp only [available_of_held hmodel, PredictorState.holding_self hmodel] at hload
    simp only [turn, run, bind, EStateM.bind, predict_eq_ok hload hpredict hpath, pure,
      EStateM.pure]

/-- A predictor that holds a model holds one after every turn. -/
theorem isLoaded_turn (hheld : ∀ m, s.model = some m → m.Valid) (hloaded : s.isLoaded = true)
    (t : PredictorTurn) : (p.turn s t).2.isLoaded = true := by
  obtain ⟨e, hturn⟩ | ⟨reply, hturn, -⟩ | ⟨reply, m, hturn, -⟩ := turn_cases (p := p) hheld t
  · rw [hturn]
    exact hloaded
  · rw [hturn]
    exact hloaded
  · rw [hturn]
    rfl

/-- A predictor that holds a model holds one forever. -/
theorem isLoaded_after {session : Session} {past : List PredictorTurn}
    (hloaded : (p.after (.unloaded session : PredictorState α) past).isLoaded = true)
    (future : List PredictorTurn) :
    (p.after (p.after (.unloaded session : PredictorState α) past) future).isLoaded = true := by
  induction future using List.reverseRecOn with
  | nil => exact hloaded
  | append_singleton future t ih =>
    rw [← after_append] at ih
    rw [← after_append, ← List.append_assoc, after_append]
    exact isLoaded_turn (holds_after p session (past ++ future)).valid ih t

/-- A failing turn leaves the held model. -/
theorem model_of_turn_eq_error (hheld : ∀ m, s.model = some m → m.Valid) {e : SelectionError}
    (h : (p.turn s t).1 = .error e) : (p.turn s t).2.model = s.model := by
  obtain ⟨e, hturn⟩ | ⟨reply, hturn, -⟩ | ⟨reply, m, hturn, -⟩ := turn_cases (p := p) hheld t
  · rw [hturn]
    rfl
  · rw [hturn] at h
    cases h
  · rw [hturn] at h
    cases h

/-- A prediction answers with the path of the label that the model held afterwards has for the
features of the circuit. -/
theorem exists_path_of_predict (hheld : ∀ m, s.model = some m → m.Valid) {c : Circuit}
    {reply : PredictorReply α} (h : (p.turn s ⟨storage, .predict c⟩).1 = .ok reply) :
    ∃ m label path, (p.turn s ⟨storage, .predict c⟩).2.model = some m ∧
      m.predict (.ofCircuit c) = .ok label ∧ CompilationPath.catalog[label]? = some path ∧
      reply = .path path := by
  obtain ⟨e, -, hturn⟩ | ⟨m, label, path, -, hlabel, hpath, hturn⟩ :=
    turn_predict (p := p) s storage c fun _ => valid_of_available hheld
  · rw [hturn] at h
    cases h
  · rw [hturn] at h ⊢
    exact ⟨m, label, path, rfl, hlabel, hpath, (Except.ok.inj h).symm⟩

/-- A reload succeeds exactly if the stored model can be loaded. -/
theorem exists_reply_reload_iff :
    (∃ reply, (p.turn s ⟨storage, .reload⟩).1 = .ok reply) ↔
      ∃ m : Model α, Model.load storage p.directory = .ok m := by
  rw [turn_reload]
  cases Model.load (α := α) storage p.directory <;> simp

/-- There is a model to work with if one is held or stored. -/
theorem exists_available_iff :
    (∃ m, p.available (s.finding storage) = .ok m) ↔
      s.isLoaded = true ∨ ∃ m : Model α, Model.load storage p.directory = .ok m := by
  cases hmodel : s.model with
  | some m =>
    exact iff_of_true ⟨m, available_of_held hmodel storage⟩
      (.inl (by simp [PredictorState.isLoaded, hmodel]))
  | none =>
    rw [available_of_unloaded hmodel]
    simp [PredictorState.isLoaded, hmodel]

/-- A load or a prediction succeeds exactly if a model is held or can be read. -/
theorem exists_reply_iff (hheld : ∀ m, s.model = some m → m.Valid) {call : PredictorCall}
    (hcall : call.usesModel = true) :
    (∃ reply, (p.turn s ⟨storage, call⟩).1 = .ok reply) ↔
      s.isLoaded = true ∨ ∃ m : Model α, Model.load storage p.directory = .ok m := by
  rw [← exists_available_iff]
  obtain ⟨e, he, hturn⟩ | ⟨m, reply, hm, hturn⟩ :=
    turn_of_usesModel (p := p) hheld storage hcall
  · simp [hturn, he]
  · simp [hturn, hm]

/--
A predictor that was called in any way, with any changes of the files between the calls, and
one more call.  A predictor that holds a model holds one forever.  A call that fails leaves
the held model as it was.  While a model is held, only a reload reads the files.  A prediction
answers with the path of the label that a model has for the features of the circuit; this
is the model of the last successful reload, or else of the first successful load or
prediction, this one included.  What may fail fails only where there is no model to read.
-/
theorem held_after (p : Predictor) (session : Session) (past : List PredictorTurn)
    (t : PredictorTurn) :
    let s : PredictorState α := p.after (.unloaded session) past
    let answer := (p.turn s t).1
    let next := (p.turn s t).2
    (s.isLoaded = true → ∀ future, (p.after s future).isLoaded = true) ∧
    (∀ e, answer = .error e → next.model = s.model) ∧
    (s.isLoaded = true → t.call.isReload = false → ∀ storage,
      (p.turn s ⟨storage, t.call⟩).1 = answer ∧
        (p.turn s ⟨storage, t.call⟩).2.model = s.model) ∧
    (∀ c reply, t.call = .predict c → answer = .ok reply →
      ∃ (storage : Storage) (m : Model α) (label : Nat) (path : CompilationPath),
      PredictorExchange.source? (p.exchanges (.unloaded session : PredictorState α)
        (past ++ [t])) = some storage ∧ Model.load storage p.directory = .ok m ∧
      m.predict (.ofCircuit c) = .ok label ∧ CompilationPath.catalog[label]? = some path ∧
      reply = .path path) ∧
    (t.call = .state → answer = .ok (.state s.isLoaded)) ∧
    (t.call = .reload → ((∃ reply, answer = .ok reply) ↔
      ∃ m : Model α, Model.load t.storage p.directory = .ok m)) ∧
    (t.call.usesModel = true → ((∃ reply, answer = .ok reply) ↔
      s.isLoaded = true ∨ ∃ m : Model α, Model.load t.storage p.directory = .ok m)) := by
  intro s answer next
  have hholds : p.Holds (p.exchanges (.unloaded session) past) s.model :=
    holds_after p session past
  obtain ⟨storage, call⟩ := t
  refine ⟨isLoaded_after, fun e => model_of_turn_eq_error hholds.valid, ?_, ?_, ?_, ?_,
    exists_reply_iff hholds.valid⟩
  · intro hloaded hcall other
    obtain ⟨m, hmodel⟩ := Option.isSome_iff_exists.1 hloaded
    obtain ⟨reply, hreply⟩ := exists_turn_of_held (p := p) hmodel (hholds.valid m hmodel) hcall
    exact ⟨by rw [hreply, show answer = .ok reply from congrArg Prod.fst (hreply storage)],
      by rw [hreply]; rfl⟩
  · rintro c reply rfl hanswer
    obtain ⟨m, label, path, hmodel, hlabel, hpath, hreply⟩ :=
      exists_path_of_predict hholds.valid hanswer
    have hnext := hholds.turn ⟨storage, .predict c⟩
    rw [hmodel] at hnext
    obtain ⟨source, hsource, hload⟩ := hnext
    exact ⟨source, m, label, path, by rw [exchanges_append]; exact hsource, hload, hlabel, hpath,
      hreply⟩
  · rintro rfl
    rfl
  · rintro rfl
    exact exists_reply_reload_iff

end Predictor

end PathSelection
