import Mathlib.Tactic.SplitIfs
import PathSelection.Dataset.File
import PathSelection.Proofs.Json.Records
import PathSelection.Proofs.Storage.Edits
import PathSelection.Proofs.Text.Pieces

/-!
# Lines of a dataset

A compact document stays on one line, so the lines of a dataset are the
examples that were appended to it, and each of them gives back the id of its
circuit.  A dataset is described by the examples that it holds, whether or not
their scores can be read again.

Main results:

- Theorem `Json.onLine_compact`: a compact document has no line breaks.
- Theorem `Dataset.filledLines_textOf`: the lines of a dataset are its examples.
- Theorem `Dataset.labelledIds_of_holds`: what is read of a dataset are the ids
  of its examples.
- Theorem `Dataset.holds_of_append`: an appended example is the last one.
-/

namespace PathSelection

/-! ## Documents on one line -/

namespace Json

/-- Characters without line breaks. -/
def OnLine (cs : List Char) : Prop := ∀ c ∈ cs, c ≠ '\n' ∧ c ≠ '\r'

@[simp]
theorem onLine_nil : OnLine [] := by simp [OnLine]

@[simp]
theorem onLine_cons {c : Char} {cs : List Char} :
    OnLine (c :: cs) ↔ (c ≠ '\n' ∧ c ≠ '\r') ∧ OnLine cs := List.forall_mem_cons

@[simp]
theorem onLine_append {cs ds : List Char} : OnLine (cs ++ ds) ↔ OnLine cs ∧ OnLine ds :=
  List.forall_mem_append

private theorem onLine_digits (ds : List Digit) : OnLine (ds.map Digit.toChar) := by
  have hdigit : ∀ d : Digit, d.toChar ≠ '\n' ∧ d.toChar ≠ '\r' := by decide
  intro c hc
  obtain ⟨d, -, rfl⟩ := List.mem_map.1 hc
  exact hdigit d

private theorem onLine_numeral (n : Numeral) : OnLine n.text.toList := by
  have hwhole : OnLine (natText n.whole).toList := by
    simpa [natText, digitText] using onLine_digits (digits n.whole)
  have hfraction : OnLine (fractionChars n.fraction) := by
    unfold fractionChars
    split_ifs
    · exact onLine_nil
    · simp [onLine_digits]
  have hexponent : OnLine (exponentChars n.exponent) := by
    cases n.exponent with
    | none => exact onLine_nil
    | some e => by_cases he : e < 0 <;> simp [exponentChars, he, onLine_digits]
  rw [toList_text]
  cases n.negative <;> simp [hwhole, hfraction, hexponent]

private theorem onLine_escapeChar (c : Char) : OnLine (escapeChar c) := by
  have hhex : ∀ k : Fin 16, hexDigit k ≠ '\n' ∧ hexDigit k ≠ '\r' := by decide
  unfold escapeChar
  split_ifs with hquote hbackslash hbackspace hfeed hline hreturn htab hcontrol
  · simp
  · simp
  · simp
  · simp
  · simp
  · simp
  · simp
  · have hhigh := hhex ⟨c.toNat / 16, by omega⟩
    have hlow := hhex ⟨c.toNat % 16, by omega⟩
    simpa using ⟨hhigh, hlow⟩
  · simp [hline, hreturn]

private theorem onLine_writeText (s : Option String) : OnLine (writeText s) := by
  cases s with
  | none => simp [writeText]
  | some s =>
    have hescaped : OnLine (s.toList.flatMap escapeChar) := by
      intro c hc
      obtain ⟨d, -, hd⟩ := List.mem_flatMap.1 hc
      exact onLine_escapeChar d c hd
    simp [writeText, hescaped]

mutual

/-- A compact document has no line breaks. -/
theorem onLine_compact (v : Json) : OnLine (compact v) := by
  match v with
  | .null => simp [compact, writeNull]
  | .bool b => cases b <;> simp [compact, writeBool]
  | .number n => exact onLine_numeral n
  | .string s => exact onLine_writeText s
  | .array items => simp [compact, onLine_compactItems items]
  | .object fields => simp [compact, onLine_compactFields fields]

private theorem onLine_compactItems (vs : List Json) : OnLine (compactItems vs) := by
  match vs with
  | [] => exact onLine_nil
  | v :: vs =>
    have hvalue := onLine_compact v
    have hmore := onLine_compactItems vs
    cases vs <;> simp_all [compactItems]

private theorem onLine_compactFields (fields : List (Key × Json)) :
    OnLine (compactFields fields) := by
  match fields with
  | [] => exact onLine_nil
  | (key, v) :: fields =>
    have hkey := onLine_writeText key
    have hvalue := onLine_compact v
    have hmore := onLine_compactFields fields
    cases fields <;> simp_all [compactFields]

end

end Json

/-! ## Lines of a text -/

/-- Lines that are ended one by one are the lines of the text. -/
theorem linesOf_flatMap {ls : List (List Char)} (h : ∀ l ∈ ls, Json.OnLine l) :
    linesOf (ls.flatMap fun l => l ++ ['\n']) = ls := by
  have hpieces : splitOnChar '\n' (ls.flatMap fun l => l ++ ['\n']) = ls ++ [[]] := by
    induction ls with
    | nil => rfl
    | cons l ls ih =>
      obtain ⟨hl, hls⟩ := List.forall_mem_cons.1 h
      have hline : splitOnChar '\n' l = [l] :=
        PathName.splitOnChar_of_not_mem fun hmem => (hl _ hmem).1 rfl
      rw [List.flatMap_cons, List.append_assoc, List.singleton_append,
        PathName.splitOnChar_append_cons, hline, ih hls]
      rfl
  have hreturn : ls.map dropCarriageReturn = ls := by
    refine (List.map_congr_left fun l hl => ?_).trans (List.map_id ls)
    have hlast : l.getLast? ≠ some '\r' := fun hlast => (h l hl _ (List.mem_of_getLast? hlast)).2 rfl
    simp [dropCarriageReturn, hlast]
  simp [linesOf, hpieces, hreturn]

/-! ## Examples that are read back -/

namespace TrainingExample

variable {α β : Type} [Scalar α] [Scalar β]

/-- The document of an example has a field for each of its parts, but none for an
absent strategy. -/
theorem exists_record (e : TrainingExample α) :
    ∃ fields, e.toJson = .record fields ∧ (fields.map (·.1)).Nodup ∧
      fields.lookup "circuit_id" = some (.text e.circuitId) ∧
      fields.lookup "features" = some e.features.toJson ∧
      fields.lookup "best_path" = some (.nat e.bestPath) ∧
      fields.lookup "scores" = some e.scores.toJson ∧
      fields.lookup "strategy" = e.strategy.map (·.toJson) := by
  unfold toJson
  cases e.strategy with
  | none => exact ⟨_, rfl, by simp, rfl, rfl, rfl, rfl, rfl⟩
  | some strategy => exact ⟨_, rfl, by simp, rfl, rfl, rfl, rfl, rfl⟩

/-- The id of an example is read back, whatever becomes of its numbers. -/
theorem circuitId_of_decoder {e : TrainingExample α} {e' : TrainingExample β}
    (h : decoder e.toJson = .ok e') : e'.circuitId = e.circuitId := by
  obtain ⟨fields, hfields, hnodup, hid, -⟩ := e.exists_record
  rw [hfields] at h
  obtain ⟨id, features, bestPath, scores, strategy, hread, -, -, -, -, rfl⟩ :=
    Json.Fields.read_seq₅_eq_ok_iff.1 (Json.recordOf_record_eq_ok_iff.1 h)
  have htext := (Json.Fields.read_field_written_eq_ok_iff hnodup hid).1 hread
  rw [Json.Decoder.text_text] at htext
  exact (Except.ok.inj htext).symm

end TrainingExample

namespace Dataset

variable {α : Type} [Scalar α] {es : List (TrainingExample α)} {e : TrainingExample α}
  {s t : Storage} {path : String}

/-- The text of a dataset with these examples. -/
def textOf (es : List (TrainingExample α)) : String := String.join (es.map line)

private theorem textOf_concat (es : List (TrainingExample α)) (e : TrainingExample α) :
    textOf (es ++ [e]) = textOf es ++ line e := by
  simp [textOf, String.join_append]

/-- The lines of a dataset are its examples, one after the other. -/
theorem filledLines_textOf (es : List (TrainingExample α)) :
    filledLines (textOf es) = es.map fun e => e.toJson.compactText := by
  have hchars : (textOf es).toList =
      (es.map fun e => e.toJson.compact).flatMap fun l => l ++ ['\n'] := by
    simp [textOf, line, Json.compactText, String.toList_join, List.flatMap_map]
  have hlines : linesOf (textOf es).toList = es.map fun e => e.toJson.compact := by
    rw [hchars]
    refine linesOf_flatMap fun l hl => ?_
    obtain ⟨e, -, rfl⟩ := List.mem_map.1 hl
    exact Json.onLine_compact _
  have hfilled : ∀ l ∈ es.map fun e => e.toJson.compact, (!(trimChars l).isEmpty) = true := by
    intro l hl
    obtain ⟨e, -, rfl⟩ := List.mem_map.1 hl
    obtain ⟨cs, hcs⟩ : ∃ cs, e.toJson.compact = '\x7b' :: cs := ⟨_, rfl⟩
    have hne : trimChars ('\x7b' :: cs) ≠ [] := fun hblank =>
      absurd (trimChars_eq_nil_iff.1 hblank '\x7b' List.mem_cons_self) (by decide)
    simpa [hcs] using hne
  rw [filledLines, hlines, List.filter_eq_self.2 hfilled, List.map_map]
  rfl

/-- The examples that are read of a dataset have the ids of its examples. -/
theorem map_circuitId_of_ofText {β : Type} [Scalar β] {read : List (TrainingExample β)}
    (h : ofText (textOf es) = .ok read) : read.map (·.circuitId) = es.map (·.circuitId) := by
  rw [ofText, filledLines_textOf, mapM_eq_ok_iff, List.forall₂_map_left_iff] at h
  induction h with
  | nil => rfl
  | @cons e e' _ _ hhead _ ih =>
    rw [Json.parse_compactText] at hhead
    have hdecoded := mapError_eq_ok_iff.1 hhead
    rw [List.map_cons, List.map_cons, ih, TrainingExample.circuitId_of_decoder hdecoded]

/-! ## Datasets in storage -/

/-- A path name leads to a dataset with these examples; one without any need not be there. -/
def Holds (s : Storage) (path : String) (es : List (TrainingExample α)) : Prop :=
  (es = [] ∧ s.Lacks path) ∨ s.read path = .ok (textOf es)

/-- A file that is kept holds the same examples. -/
theorem Holds.of_keeps (h : Holds s path es) (hkeeps : Storage.Keeps path s t) :
    Holds t path es := by
  rcases h with ⟨hes, hlacks⟩ | hread
  · exact .inl ⟨hes, hkeeps.lacks hlacks⟩
  · exact .inr (hkeeps.read _ hread)

/-- Where there is no file nothing is read. -/
theorem read_ne_ok_of_lacks {text : String} (h : s.Lacks path) : s.read path ≠ .ok text := by
  intro hread
  obtain ⟨l, hlocate, hentry, -⟩ := Storage.read_eq_ok_iff.1 hread
  exact h l text (Storage.place?_of_locate hlocate) hentry

/-- What is read of a dataset are the ids of its examples. -/
theorem labelledIds_of_holds {ids : List String} (h : Holds s path es)
    (hids : labelledIds s path = .ok ids) : ids = es.map (·.circuitId) := by
  unfold labelledIds at hids
  rcases h with ⟨rfl, hlacks⟩ | hread
  · cases hexists : s.exists? path with
    | error fault => simp [hexists, Except.mapError, bind, Except.bind] at hids
    | ok there =>
      cases there with
      | false => simpa [hexists, Except.mapError, bind, Except.bind, pure, Except.pure] using hids.symm
      | true =>
        cases hread : s.read path with
        | error fault =>
          simp [hexists, hread, load, Except.mapError, bind, Except.bind] at hids
        | ok text => exact absurd hread (read_ne_ok_of_lacks hlacks)
  · have hexists : s.exists? path = .ok true := by
      obtain ⟨l, hlocate, hentry, hnames⟩ := Storage.read_eq_ok_iff.1 hread
      simp [Storage.exists?, hlocate, hentry, hnames]
    cases hexamples : (ofText (textOf es) : Except _ (List (TrainingExample Float))) with
    | error cause =>
      simp [hexists, load, hread, hexamples, Except.mapError, bind, Except.bind] at hids
    | ok examples =>
      have hmap : examples.map (·.circuitId) = ids := by
        simpa [hexists, load, hread, hexamples, Except.mapError, bind, Except.bind, pure,
          Except.pure] using hids
      rw [← hmap, map_circuitId_of_ofText hexamples]

/-- Appending makes directories and then writes one line. -/
theorem exists_of_append (h : append s path e = .ok t) :
    ∃ made, Storage.Edits (fun _ => False) s made ∧ made.append path (line e) = .ok t := by
  unfold append at h
  cases hparent : PathName.parent? path with
  | none =>
    simp only [hparent, bind, Except.bind] at h
    exact ⟨s, .refl s, mapError_eq_ok_iff.1 h⟩
  | some directory =>
    cases hmade : s.createDirectories directory with
    | error fault => simp [hparent, hmade, Except.mapError, bind, Except.bind] at h
    | ok made =>
      simp only [hparent, hmade, Except.mapError, bind, Except.bind] at h
      exact ⟨made, Storage.edits_of_createDirectories hmade, mapError_eq_ok_iff.1 h⟩

/-- Appending touches nothing but the dataset. -/
theorem edits_of_append (h : append s path e = .ok t) :
    Storage.Edits (s.place? path = some ·) s t := by
  obtain ⟨made, hmade, happend⟩ := exists_of_append h
  have hwritten := Storage.edits_of_append happend
  rw [Storage.place?_congr hmade.home] at hwritten
  exact (hmade.mono fun _ => False.elim).trans hwritten

/-- Appending puts a line behind what was read of a dataset. -/
theorem read_of_append {text : String} (hread : s.read path = .ok text)
    (happend : append s path e = .ok t) : t.read path = .ok (text ++ line e) := by
  obtain ⟨made, hmade, happend⟩ := exists_of_append happend
  have hbefore := (hmade.keeps fun _ _ => id).read text hread
  rcases Storage.read_of_append happend with ⟨hlacks, -⟩ | ⟨old, hold, hafter⟩
  · exact absurd hbefore (read_ne_ok_of_lacks hlacks)
  · obtain rfl : text = old := Except.ok.inj (hbefore.symm.trans hold)
    exact hafter

/-- Where there was no dataset, there is one line after appending. -/
theorem read_of_append_of_lacks (hlacks : s.Lacks path) (happend : append s path e = .ok t) :
    t.read path = .ok (line e) := by
  obtain ⟨made, hmade, happend⟩ := exists_of_append happend
  have hkeeps : Storage.Keeps path s made := hmade.keeps fun _ _ => id
  have hbefore := hkeeps.lacks hlacks
  rcases Storage.read_of_append happend with ⟨-, hafter⟩ | ⟨old, hold, -⟩
  · exact hafter
  · exact absurd hold (read_ne_ok_of_lacks hbefore)

/-- An appended example is the last one of the dataset. -/
theorem holds_of_append (h : Holds s path es) (happend : append s path e = .ok t) :
    Holds t path (es ++ [e]) := by
  rcases h with ⟨rfl, hlacks⟩ | hread
  · have hline := read_of_append_of_lacks hlacks happend
    exact .inr (by simpa [textOf, String.join] using hline)
  · have hline := read_of_append hread happend
    exact .inr (by rw [textOf_concat, hline])

end Dataset

end PathSelection
