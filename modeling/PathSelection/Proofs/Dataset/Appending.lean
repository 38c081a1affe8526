import PathSelection.Proofs.Dataset.Lines
import PathSelection.Proofs.Json.Trailing
import PathSelection.Proofs.Storage.Parents

/-!
# Appending to a dataset

An appended example is put behind all characters of the file.  If only spaces stand behind
the last line feed, it is a line of its own and is read behind all examples that were there.
Otherwise it is read together with what stands there: two documents on one line are none,
so nothing can be read of the dataset any more.

Main results:

- Theorem `TrainingExample.decoder_toJson`: an example with finite numbers is read back.
- Theorem `Dataset.exists_filledLines`: the lines of a text with one more behind it.
- Theorem `Dataset.append_iff_endsLine`: what is read of a dataset after an example was appended.
- Theorem `Dataset.append_glued`: a dataset whose last line is not ended is lost.
-/

namespace PathSelection

/-! ## Examples that are read back -/

namespace TrainingExample

/-- An example that a document can hold: its numbers are finite and its label is a word. -/
structure Writable (e : TrainingExample Float) : Prop where
  features : ∀ x ∈ e.features.values, Float.finite x = true
  bestPath : e.bestPath < wordValues 64
  scores : ∀ x ∈ e.scores.scores, Float.finite x = true

/-- Finite doubles are read back. -/
theorem listOf_number_of_finite {xs : List Float} (h : ∀ x ∈ xs, Float.finite x = true) :
    Json.Decoder.listOf Json.Decoder.number (.list .scalar xs) = .ok xs := by
  rw [Json.Decoder.listOf_list_eq_ok_iff, List.forall₂_same]
  exact fun x hx => Json.Decoder.number_scalar_eq_ok_iff.2 ⟨h x hx, rfl⟩

/-- A strategy is read back, and so is that there is none. -/
theorem elim_strategy (strategy : Option ScoringStrategy) :
    (strategy.map (·.toJson)).elim (some none = some strategy)
      (Json.Decoder.nullable ScoringStrategy.decoder · = .ok strategy) := by
  cases strategy with
  | none => rfl
  | some s => cases s <;> rfl

/-- An example is read back. -/
theorem decoder_toJson {e : TrainingExample Float} (h : e.Writable) : decoder e.toJson = .ok e := by
  obtain ⟨fields, hfields, hnodup, hid, hfeatures, hbest, hscores, hstrategy⟩ := e.exists_record
  rw [hfields]
  refine Json.recordOf_record_eq_ok_iff.2 (Json.Fields.read_seq₅_eq_ok_iff.2
    ⟨e.circuitId, e.features, e.bestPath, e.scores, e.strategy, ?_, ?_, ?_, ?_, ?_, rfl⟩)
  · exact (Json.Fields.read_field_written_eq_ok_iff hnodup hid).2 (Json.Decoder.text_text _)
  · refine (Json.Fields.read_field_written_eq_ok_iff hnodup hfeatures).2 ?_
    rw [FeatureVector.decoder, FeatureVector.toJson, listOf_number_of_finite h.features]
    rfl
  · exact (Json.Fields.read_field_written_eq_ok_iff hnodup hbest).2
      (Json.Decoder.usize_nat h.bestPath)
  · refine (Json.Fields.read_field_written_eq_ok_iff hnodup hscores).2 ?_
    rw [ScoreVector.decoder, ScoreVector.toJson, listOf_number_of_finite h.scores]
    rfl
  · refine (Json.Fields.read_field_record_eq_ok_iff hnodup).2 ?_
    rw [hstrategy]
    exact elim_strategy e.strategy

end TrainingExample

namespace Dataset

/-! ## The last line -/

/-- What stands behind the last line feed of a text. -/
def lastLine (cs : List Char) : List Char := (cs.reverse.takeWhile (· != '\n')).reverse

/-- What is put behind a text without a line feed goes to its last line. -/
theorem exists_pieces (cs : List Char) :
    ∃ ended, ∀ l, '\n' ∉ l → splitOnChar '\n' (cs ++ l) = ended ++ [lastLine cs ++ l] := by
  have hplain : '\n' ∉ lastLine cs := by
    intro hmem
    simpa using List.mem_takeWhile_imp (List.mem_reverse.1 hmem)
  have hcs : cs = (cs.reverse.dropWhile (· != '\n')).reverse ++ lastLine cs := by
    rw [lastLine, ← List.reverse_append, List.takeWhile_append_dropWhile, List.reverse_reverse]
  have hlonger {l : List Char} (hl : '\n' ∉ l) :
      splitOnChar '\n' (lastLine cs ++ l) = [lastLine cs ++ l] :=
    PathName.splitOnChar_of_not_mem (by simp [hplain, hl])
  cases hfront : cs.reverse.dropWhile (· != '\n') with
  | nil =>
    rw [hfront, List.reverse_nil, List.nil_append] at hcs
    refine ⟨[], fun l hl => ?_⟩
    rw [List.nil_append, ← hlonger hl, ← hcs]
  | cons c front =>
    have hfeed : c = '\n' := by
      have hhead := List.head?_dropWhile_not (· != '\n') cs.reverse
      rw [hfront] at hhead
      simpa using hhead
    rw [hfront, hfeed, List.reverse_cons, List.append_assoc, List.singleton_append] at hcs
    refine ⟨splitOnChar '\n' front.reverse, fun l hl => ?_⟩
    have hchars : cs ++ l = front.reverse ++ '\n' :: (lastLine cs ++ l) := by
      conv_lhs => rw [hcs]
      simp
    rw [hchars, PathName.splitOnChar_append_cons, hlonger hl]

/-- A line that is put behind a text is read together with its last line. -/
theorem exists_linesOf (cs : List Char) :
    ∃ ended, linesOf cs = ended ++ (if (lastLine cs).isEmpty then [] else [lastLine cs]) ∧
      ∀ l, Json.OnLine l → l ≠ [] →
        linesOf (cs ++ (l ++ ['\n'])) = ended ++ [lastLine cs ++ l] := by
  obtain ⟨ended, hpieces⟩ := exists_pieces cs
  refine ⟨ended.map dropCarriageReturn, ?_, fun l hl hne => ?_⟩
  · have hall := hpieces [] (by simp)
    rw [List.append_nil, List.append_nil] at hall
    exact linesOf_eq hall
  · have hplain : '\n' ∉ l := fun hmem => (hl _ hmem).1 rfl
    have hall : splitOnChar '\n' (cs ++ (l ++ ['\n'])) = ended ++ [lastLine cs ++ l] ++ [[]] := by
      rw [← List.append_assoc, PathName.splitOnChar_append_cons, hpieces l hplain]
      rfl
    have hreturn : dropCarriageReturn (lastLine cs ++ l) = lastLine cs ++ l := by
      refine if_neg fun hlast => ?_
      rw [List.getLast?_append_of_ne_nil _ hne] at hlast
      exact (hl _ (List.mem_of_getLast? hlast)).2 rfl
    simp only [linesOf, hall]
    simp [hreturn]

private theorem lastLine_of_onLine {cs : List Char} (h : Json.OnLine cs) : lastLine cs = cs := by
  have hplain : ∀ c ∈ cs.reverse, (c != '\n') = true := fun c hc =>
    bne_iff_ne.2 (h c (List.mem_reverse.1 hc)).1
  rw [lastLine, List.takeWhile_eq_self_iff.2 hplain, List.reverse_reverse]

/-- A text whose last line is ended, but for spaces behind its last line feed. -/
def EndsLine (text : String) : Prop := ∀ c ∈ lastLine text.toList, Json.Lexer.isSpace c = true

variable {text : String} {es : List (TrainingExample Float)} {e : TrainingExample Float}

private theorem isBlank_of_isSpace {c : Char} (h : Json.Lexer.isSpace c = true) :
    isBlank c = true := by
  simp only [Json.Lexer.isSpace, Bool.or_eq_true, decide_eq_true_eq] at h
  rcases h with ((rfl | rfl) | rfl) | rfl <;> decide

private theorem exists_compact (e : TrainingExample Float) :
    ∃ cs, e.toJson.compact = '\x7b' :: cs :=
  ⟨_, rfl⟩

/-- A line that ends in the document of an example is not blank. -/
theorem isEmpty_trimChars_append_compact (cs : List Char) (e : TrainingExample Float) :
    (trimChars (cs ++ e.toJson.compact)).isEmpty = false := by
  obtain ⟨more, hmore⟩ := exists_compact e
  rw [List.isEmpty_eq_false_iff, ne_eq, trimChars_eq_nil_iff]
  exact fun hblank => absurd (hblank '\x7b' (by simp [hmore])) (by decide)

/-- The lines of a text with the line of an example behind it. -/
theorem exists_filledLines (text : String) (e : TrainingExample Float) :
    ∃ ended, filledLines text = ended ++ (if (trimChars (lastLine text.toList)).isEmpty then []
        else [String.ofList (lastLine text.toList)]) ∧
      filledLines (text ++ line e) =
        ended ++ [String.ofList (lastLine text.toList ++ e.toJson.compact)] := by
  obtain ⟨ended, hlines, hmore⟩ := exists_linesOf text.toList
  obtain ⟨cs, hcs⟩ := exists_compact e
  have hline : (text ++ line e).toList = text.toList ++ (e.toJson.compact ++ ['\n']) := by
    simp [line, Json.compactText]
  have hfilled := isEmpty_trimChars_append_compact (lastLine text.toList) e
  refine ⟨(ended.filter fun l => !(trimChars l).isEmpty).map String.ofList, ?_, ?_⟩
  · rw [filledLines, hlines, List.filter_append, List.map_append]
    refine congrArg (_ ++ ·) ?_
    cases hlast : lastLine text.toList with
    | nil => simp [trimChars]
    | cons c last =>
      cases hblank : (trimChars (c :: last)).isEmpty <;> simp [hblank]
  · rw [filledLines, hline, hmore _ (Json.onLine_compact _) (by simp [hcs]), List.filter_append,
      List.map_append]
    simp [hfilled]

/-- Behind an ended line an example is read behind all others. -/
theorem ofText_append_of_endsLine (h : EndsLine text) (hold : ofText text = .ok es)
    (he : e.Writable) : ofText (text ++ line e) = .ok (es ++ [e]) := by
  obtain ⟨ended, hlines, hmore⟩ := exists_filledLines text e
  have hblank : (trimChars (lastLine text.toList)).isEmpty = true := by
    rw [List.isEmpty_iff, trimChars_eq_nil_iff]
    exact fun c hc => isBlank_of_isSpace (h c hc)
  rw [hblank, if_pos rfl, List.append_nil] at hlines
  rw [ofText, hlines] at hold
  have hlast : Json.parse TrainingExample.decoder
      (String.ofList (lastLine text.toList ++ e.toJson.compact)) = .ok e := by
    have hread : Json.read (String.ofList (lastLine text.toList ++ e.toJson.compact)) =
        .ok e.toJson :=
      (Json.read_append_of_spaces h).trans (Json.read_compactText e.toJson)
    exact Json.parse_eq_ok_iff.2 ⟨_, hread, TrainingExample.decoder_toJson he⟩
  rw [ofText, hmore]
  exact mapM_concat_eq_ok_iff.2 ⟨es, e, hold, mapError_eq_ok_iff.2 hlast, rfl⟩

/-- The line of an example is read back. -/
theorem ofText_line (he : e.Writable) : ofText (line e) = .ok [e] := by
  have hempty : EndsLine "" := by simp [EndsLine, lastLine]
  have hnew := ofText_append_of_endsLine hempty rfl he
  simpa using hnew

/-- The document of an example is read back although the line is not ended. -/
theorem ofText_compactText (he : e.Writable) : ofText e.toJson.compactText = .ok [e] := by
  obtain ⟨cs, hcs⟩ := exists_compact e
  have hline : splitOnChar '\n' e.toJson.compact = [e.toJson.compact] :=
    PathName.splitOnChar_of_not_mem fun hmem => (Json.onLine_compact _ _ hmem).1 rfl
  have hfilled := isEmpty_trimChars_append_compact [] e
  have hlines : filledLines e.toJson.compactText = [e.toJson.compactText] := by
    have hne : e.toJson.compact.isEmpty = false := by
      rw [hcs]
      rfl
    rw [List.nil_append] at hfilled
    simp [filledLines, linesOf, Json.compactText, hline, hne, hfilled]
  have hread : Json.parse TrainingExample.decoder e.toJson.compactText = .ok e :=
    Json.parse_eq_ok_iff.2 ⟨_, Json.read_compactText e.toJson, TrainingExample.decoder_toJson he⟩
  rw [ofText, hlines]
  exact mapM_eq_ok_iff.2 (.cons (mapError_eq_ok_iff.2 hread) .nil)

/-- The document of an example does not end its line. -/
theorem not_endsLine_compactText (e : TrainingExample Float) : ¬EndsLine e.toJson.compactText := by
  obtain ⟨cs, hcs⟩ := exists_compact e
  intro hends
  rw [EndsLine, Json.compactText, String.toList_ofList,
    lastLine_of_onLine (Json.onLine_compact _)] at hends
  exact absurd (hends '\x7b' (by simp [hcs])) (by decide)

/-- Behind a line that is not ended an example cannot be read, nor can the line. -/
theorem ofText_append_ne_ok (h : ¬EndsLine text) (hold : ofText text = .ok es)
    (es' : List (TrainingExample Float)) : ofText (text ++ line e) ≠ .ok es' := by
  obtain ⟨ended, hlines, hmore⟩ := exists_filledLines text e
  intro hread
  rw [ofText, hmore] at hread
  obtain ⟨_, _, _, hglued, -⟩ := mapM_concat_eq_ok_iff.1 hread
  obtain ⟨v, hv, -⟩ := Json.parse_eq_ok_iff.1 (mapError_eq_ok_iff.1 hglued)
  cases hblank : (trimChars (lastLine text.toList)).isEmpty with
  | true =>
    rw [List.isEmpty_iff, trimChars_eq_nil_iff] at hblank
    exact Json.read_append_of_blank hblank h v hv
  | false =>
    -- The last line holds an example itself, and no other document may come behind it.
    rw [hblank, if_neg (by simp)] at hlines
    rw [ofText, hlines] at hold
    obtain ⟨_, _, _, hlast, -⟩ := mapM_concat_eq_ok_iff.1 hold
    obtain ⟨w, hw, -⟩ := Json.parse_eq_ok_iff.1 (mapError_eq_ok_iff.1 hlast)
    exact Json.read_append_openObject hw v hv

/-! ## Datasets in storage -/

variable {s t : Storage} {path : String}

private theorem load_eq_ok_iff :
    load s path = .ok es ↔ ∃ text, s.read path = .ok text ∧ ofText text = .ok es := by
  unfold load
  cases s.read path <;> simp [Except.mapError, bind, Except.bind]

/-- Behind an ended line an example is loaded behind all others. -/
theorem load_append_of_endsLine (hread : s.read path = .ok text) (hold : ofText text = .ok es)
    (he : e.Writable) (hends : EndsLine text) (happend : append s path e = .ok t) :
    load t path = .ok (es ++ [e]) :=
  load_eq_ok_iff.2 ⟨_, read_of_append hread happend, ofText_append_of_endsLine hends hold he⟩

/-- Behind a line that is not ended an example spoils the dataset. -/
theorem load_append_ne_ok (hread : s.read path = .ok text) (hold : ofText text = .ok es)
    (hopen : ¬EndsLine text) (happend : append s path e = .ok t)
    (es' : List (TrainingExample Float)) : load t path ≠ .ok es' := by
  intro hall
  obtain ⟨_, hsame, hnew⟩ := load_eq_ok_iff.1 hall
  obtain rfl := Except.ok.inj ((read_of_append hread happend).symm.trans hsame)
  exact ofText_append_ne_ok hopen hold es' hnew

/-- What is read of a dataset that is there are the ids of what is loaded. -/
theorem labelledIds_of_read (hread : s.read path = .ok text) :
    labelledIds s path = (load s path : Except _ (List (TrainingExample Float))).map
      (·.map (·.circuitId)) := by
  obtain ⟨l, hlocate, hentry, hnames⟩ := Storage.read_eq_ok_iff.1 hread
  have hexists : s.exists? path = .ok true := by
    simp [Storage.exists?, hlocate, hentry, hnames]
  simp only [labelledIds, hexists, Except.mapError, bind, Except.bind, if_true]
  cases (load s path : Except _ (List (TrainingExample Float))) <;> rfl

/-- Where a file may stand, an example can be appended. -/
theorem exists_append {l : Location} (hlocate : s.locate path = .ok l)
    (hentry : s.entryAt? l ≠ some .directory) (hnames : PathName.namesDirectory path = false)
    (e : TrainingExample Float) : ∃ t, append s path e = .ok t := by
  obtain ⟨-, hparent⟩ := Storage.open_of_locate hlocate hentry hnames
  obtain ⟨t, happend⟩ := Storage.exists_append hlocate hentry hnames (line e)
  refine ⟨t, ?_⟩
  unfold append
  cases hdirectory : PathName.parent? path with
  | none => simp [happend, Except.mapError, bind, Except.bind]
  | some directory =>
    simp [hparent directory hdirectory, happend, Except.mapError, bind, Except.bind]

/-- What is read of a dataset after an example with finite numbers was appended.  If a dataset can
be loaded, the example is appended to it, and it is loaded behind the others exactly if the last
line was ended; otherwise nothing can be read of the dataset any more.  Where there was no dataset,
the example is the only one; it can be appended there if the way to the place is open. -/
theorem append_iff_endsLine (s : Storage) (path : String) (he : e.Writable) :
    (∀ text es, s.read path = .ok text → load s path = .ok es →
      ∃ t, append s path e = .ok t ∧
        ((load t path = .ok (es ++ [e]) ∧
            labelledIds t path = .ok (es.map (·.circuitId) ++ [e.circuitId])) ↔ EndsLine text) ∧
        (¬EndsLine text →
          (∃ cause, (load t path : Except _ (List (TrainingExample Float))) = .error cause) ∧
            ∃ cause, labelledIds t path = .error cause)) ∧
    (s.Lacks path →
      (∀ t, append s path e = .ok t →
        load t path = .ok [e] ∧ labelledIds t path = .ok [e.circuitId]) ∧
      ∀ l, s.locate path = .ok l → s.entryAt? l ≠ some .directory →
        PathName.namesDirectory path = false → ∃ t, append s path e = .ok t) := by
  refine ⟨fun text es hread hload => ?_, fun hlacks => ⟨fun t happend => ?_, ?_⟩⟩
  · obtain ⟨l, hlocate, hentry, hnames⟩ := Storage.read_eq_ok_iff.1 hread
    obtain ⟨t, happend⟩ := exists_append hlocate (by simp [hentry]) hnames e
    have hafter := read_of_append hread happend
    have hold : ofText text = .ok es := by
      obtain ⟨_, hsame, hold⟩ := load_eq_ok_iff.1 hload
      obtain rfl := Except.ok.inj (hread.symm.trans hsame)
      exact hold
    refine ⟨t, happend, ⟨fun hboth => ?_, fun hends => ?_⟩, fun hopen => ?_⟩
    · by_contra hopen
      exact load_append_ne_ok hread hold hopen happend _ hboth.1
    · have hall := load_append_of_endsLine hread hold he hends happend
      refine ⟨hall, ?_⟩
      rw [labelledIds_of_read hafter, hall]
      simp [Except.map]
    · have hlost := load_append_ne_ok hread hold hopen happend
      rw [labelledIds_of_read hafter]
      cases hall : (load t path : Except _ (List (TrainingExample Float))) with
      | error cause => exact ⟨⟨cause, rfl⟩, cause, rfl⟩
      | ok es' => exact absurd hall (hlost es')
  · have hafter := read_of_append_of_lacks hlacks happend
    have hall : load t path = .ok [e] := load_eq_ok_iff.2 ⟨_, hafter, ofText_line he⟩
    refine ⟨hall, ?_⟩
    rw [labelledIds_of_read hafter, hall]
    rfl
  · exact fun l hlocate hentry hnames => exists_append hlocate hentry hnames e

/-- An example of a circuit without features or scores. -/
def bareExample (circuitId : String) : TrainingExample Float := ⟨circuitId, ⟨[]⟩, 0, ⟨[]⟩, none⟩

private theorem writable_bareExample (circuitId : String) : (bareExample circuitId).Writable :=
  ⟨by simp [bareExample], Nat.two_pow_pos 64, by simp [bareExample]⟩

/-- A storage with one file. -/
def storageOf (text : String) : Storage := ⟨"/", [(["data.jsonl"], .file text)]⟩

private theorem locate_storageOf (text : String) :
    (storageOf text).locate "data.jsonl" = .ok ["data.jsonl"] := by
  have hbelow : (Storage.empty "/").below? "data.jsonl" = some ["data.jsonl"] := by
    decide +kernel
  have hbelow' : (storageOf text).below? "data.jsonl" = some ["data.jsonl"] := hbelow
  have hshort : ¬Storage.nameLimit < "data.jsonl".utf8ByteSize := by decide
  simp only [Storage.locate, hbelow', Storage.follow, Storage.entryAt?, if_true, if_neg hshort]
  rfl

private theorem read_storageOf (text : String) : (storageOf text).read "data.jsonl" = .ok text :=
  Storage.read_eq_ok_iff.2
    ⟨_, locate_storageOf text, by simp [storageOf, Storage.entryAt?], by decide⟩

/-- Behind the line of one example another one is read. -/
theorem append_bareExample :
    ∃ t, append (storageOf (line (bareExample "a"))) "data.jsonl" (bareExample "b") = .ok t ∧
      load t "data.jsonl" = .ok [bareExample "a", bareExample "b"] ∧
      labelledIds t "data.jsonl" = .ok ["a", "b"] := by
  have hread := read_storageOf (line (bareExample "a"))
  have hload := load_eq_ok_iff.2 ⟨_, hread, ofText_line (writable_bareExample "a")⟩
  have hends : EndsLine (line (bareExample "a")) := by
    simp [EndsLine, lastLine, line]
  obtain ⟨t, happend, hiff, -⟩ := (append_iff_endsLine (storageOf (line (bareExample "a")))
    "data.jsonl" (writable_bareExample "b")).1 _ _ hread hload
  exact ⟨t, happend, hiff.2 hends⟩

/-- A file with one example can be loaded although its line is not ended.  An example that is
appended to it shares that line, and nothing can be loaded any more. -/
theorem append_glued :
    load (storageOf (bareExample "a").toJson.compactText) "data.jsonl" = .ok [bareExample "a"] ∧
      (bareExample "b").Writable ∧
      ∃ t, append (storageOf (bareExample "a").toJson.compactText) "data.jsonl" (bareExample "b") =
          .ok t ∧
        (∀ es : List (TrainingExample Float), load t "data.jsonl" ≠ .ok es) ∧
        ∀ ids, labelledIds t "data.jsonl" ≠ .ok ids := by
  have hread := read_storageOf (bareExample "a").toJson.compactText
  have hold := ofText_compactText (writable_bareExample "a")
  obtain ⟨t, happend⟩ := exists_append (locate_storageOf (bareExample "a").toJson.compactText)
    (by simp [storageOf, Storage.entryAt?]) (by decide) (bareExample "b")
  have hlost := load_append_ne_ok hread hold (not_endsLine_compactText _) happend
  refine ⟨load_eq_ok_iff.2 ⟨_, hread, hold⟩, writable_bareExample "b", t, happend, hlost,
    fun ids hids => ?_⟩
  rw [labelledIds_of_read (read_of_append hread happend)] at hids
  cases hall : (load t "data.jsonl" : Except _ (List (TrainingExample Float))) with
  | error cause =>
    rw [hall] at hids
    cases hids
  | ok es => exact hlost es hall

end Dataset

end PathSelection
