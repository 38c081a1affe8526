import PathSelection.Proofs.Calibration.Content
import PathSelection.Proofs.Number.Literal
import PathSelection.Proofs.Text.Pieces

/-!
# Exports that are written and read

An export is written row by row: each row states an index, at most one number in each of three
columns and the errors of any number of pairs, among columns of any text.  A field may stand
between quotes, and must where it has a comma or a quote in it.  Lines end in a line feed, with a
carriage return before it or not, and lines may be blank.

Main results:

- Theorem `IbmRow.ofText_eq`: what is read of an export are the rows of its lines after the first.
- Theorem `ExportRow.ofFields_fields`: what is read of the fields of a row is what it states.
- Theorem `IbmExport.ofText_text`: what is read of a written export is what its rows state.
- Theorem `IbmExport.exists_ofText_text`: the table holds the last values stated, and no others.
-/

namespace PathSelection

variable {α : Type} [Scalar α]

/-! ## Lines of a table of error rates -/

/-- A carriage return behind a row is put behind its last field. -/
theorem Csv.exists_readRow_concat (line : List Char) :
    ∃ front last, readRow line = front ++ [last] ∧
      readRow (line ++ ['\r']) = front ++ [last ++ ['\r']] := by
  cases hdraft : line.foldl Draft.push ⟨[], [], false, false⟩ with
  | mk done current quoted pending =>
    refine ⟨done.reverse, current.reverse, ?_, ?_⟩
    · simp [readRow, hdraft, Draft.finish]
    · rw [readRow, List.foldl_append, hdraft]
      cases pending <;> simp [Draft.push, Draft.pushPlain, Draft.finish]

/-- What is written of a field are its characters and quotes. -/
theorem Csv.mem_of_mem_writeField {wanted : Bool} {field : List Char} {c : Char}
    (h : c ∈ writeField wanted field) : c = '"' ∨ c ∈ field := by
  unfold writeField at h
  split at h
  · simp only [quoteField, List.cons_append, List.mem_cons, List.mem_append, List.mem_flatMap,
      List.not_mem_nil, or_false] at h
    rcases h with hquote | ⟨d, hd, hc⟩ | hquote
    · exact .inl hquote
    · split at hc
      · exact .inl (by simpa using hc)
      · obtain rfl : c = d := by simpa using hc
        exact .inr hd
    · exact .inl hquote
  · exact .inr h

/-- What is written of a row are the characters of its fields, quotes and commas. -/
theorem Csv.mem_of_mem_writeRow {row : List (Bool × List Char)} {c : Char}
    (h : c ∈ writeRow row) : c = ',' ∨ c = '"' ∨ ∃ field ∈ row, c ∈ field.2 := by
  induction row with
  | nil => cases h
  | cons field row ih =>
    have hhead (hc : c ∈ writeField field.1 field.2) :
        c = ',' ∨ c = '"' ∨ ∃ field' ∈ field :: row, c ∈ field'.2 :=
      .inr ((mem_of_mem_writeField hc).imp_right fun hc => ⟨field, List.mem_cons_self, hc⟩)
    cases row with
    | nil => exact hhead h
    | cons next row =>
      rw [writeRow, List.mem_append, List.mem_cons] at h
      · rcases h with hc | hcomma | hmore
        · exact hhead hc
        · exact .inl hcomma
        · exact (ih hmore).imp_right
            (Or.imp_right (Exists.imp fun _ => And.imp_left (List.mem_cons_of_mem _)))
      · simp

/-- A row of two fields or more has a comma in it. -/
theorem Csv.comma_mem_writeRow {row : List (Bool × List Char)} (h : 2 ≤ row.length) :
    ',' ∈ writeRow row := by
  match row with
  | [] => simp at h
  | [_] => simp at h
  | _ :: _ :: _ => simp [writeRow]

namespace IbmTable

private theorem qubitOf?_eq (row : List (List Char)) :
    qubitOf? row = (row.map trimChars).head?.bind fun name =>
      unsignedOfChars? (wordValues 32) (dropRepeated ['Q'] name.length name) := by
  cases row <;> rfl

private theorem numberIn_eq (row : List (List Char)) (column : Nat) :
    numberIn (α := α) row column =
      match (row.map trimChars)[column]? with
      | none => .ok none
      | some text =>
        if text.isEmpty then .ok none
        else match scalarOfChars? text with
          | some x => .ok (some x)
          | none => .error s!"column {column}: not a number: '{String.ofList text}'" := by
  rw [List.getElem?_map, numberIn]
  cases row[column]? <;> rfl

end IbmTable

private theorem trimChars_concat_return (cs : List Char) :
    trimChars (cs ++ ['\r']) = trimChars cs :=
  trimChars_append_right (by simp [isBlank])

namespace IbmTable

/-- Nothing is dropped of a text that does not begin with what is dropped. -/
theorem dropRepeated_of_head? {c : Char} {front cs : List Char} (h : cs.head? ≠ some c)
    (steps : Nat) : dropRepeated (c :: front) steps cs = cs := by
  have hprefix : (c :: front).isPrefixOf cs = false := by
    cases cs with
    | nil => rfl
    | cons d cs =>
      have hne : c ≠ d := fun heq => h (congrArg some heq.symm)
      simp [List.isPrefixOf, hne]
  cases steps with
  | zero => rfl
  | succ steps => simp [dropRepeated, hprefix]

private theorem splitAtFirst_append {sep : Char} {before : List Char} (h : sep ∉ before)
    (after : List Char) : splitAtFirst sep (before ++ sep :: after) = some (before, after) := by
  have hbefore : ∀ c ∈ before, (c != sep) = true := fun c hc =>
    bne_iff_ne.2 fun heq => h (heq ▸ hc)
  simp [splitAtFirst, List.span_eq_takeWhile_dropWhile, List.takeWhile_append_of_pos hbefore,
    List.dropWhile_append_of_pos hbefore]

end IbmTable

namespace IbmRow

/-- A row is read from its trimmed fields and from the trimmed pieces of one of them. -/
theorem ofFields_congr {row row' : List (List Char)}
    (hfields : row.map trimChars = row'.map trimChars)
    (hpieces : (splitOnChar ';' (row[IbmTable.cxColumn]?.getD [])).map trimChars =
      (splitOnChar ';' (row'[IbmTable.cxColumn]?.getD [])).map trimChars) :
    ofFields (α := α) row = ofFields row' := by
  simp only [ofFields, IbmTable.qubitOf?_eq, IbmTable.numberIn_eq, IbmTable.cxEntries, hfields,
    hpieces]

/-- A carriage return behind a field is trimmed, also where the field is cut into pieces. -/
theorem trim_pieces_concat (field : List Char) :
    (splitOnChar ';' (field ++ ['\r'])).map trimChars = (splitOnChar ';' field).map trimChars := by
  obtain ⟨front, last, hpieces⟩ := exists_splitOnChar_append ';' field
  have hfield := hpieces [] (by decide)
  rw [List.append_nil, List.append_nil] at hfield
  rw [hfield, hpieces ['\r'] (by decide), List.map_append, List.map_append, List.map_singleton,
    List.map_singleton, trimChars_concat_return]

/-- A carriage return behind a line means nothing. -/
theorem ofLine_concat_return (line : List Char) (i : Nat) :
    ofLine (α := α) (line ++ ['\r'], i) = ofLine (line, i) := by
  obtain ⟨front, last, hline, hreturn⟩ := Csv.exists_readRow_concat line
  have hfields : ofFields (α := α) (Csv.readRow (line ++ ['\r'])) =
      ofFields (Csv.readRow line) := by
    rw [hline, hreturn]
    refine ofFields_congr ?_ ?_
    · rw [List.map_append, List.map_append, List.map_singleton, List.map_singleton,
        trimChars_concat_return]
    · rcases lt_trichotomy IbmTable.cxColumn front.length with hlt | heq | hgt
      · rw [List.getElem?_append_left hlt, List.getElem?_append_left hlt]
      · simp [heq, trim_pieces_concat]
      · rw [List.getElem?_eq_none (by simpa using hgt), List.getElem?_eq_none (by simpa using hgt)]
  simp only [ofLine, trimChars_concat_return, hfields]

private theorem ofLine_dropCarriageReturn (line : List Char) (i : Nat) :
    ofLine (α := α) (dropCarriageReturn line, i) = ofLine (line, i) := by
  unfold dropCarriageReturn
  split
  · rename_i hlast
    obtain ⟨front, rfl⟩ := List.getLast?_eq_some_iff.1 hlast
    rw [List.dropLast_concat, ofLine_concat_return]
  · rfl

private theorem mapM_ofLine_dropCarriageReturn (lines : List (List Char)) (i : Nat) :
    ((lines.map dropCarriageReturn).zipIdx i).mapM (ofLine (α := α)) =
      (lines.zipIdx i).mapM ofLine := by
  induction lines generalizing i with
  | nil => rfl
  | cons line lines ih =>
    simp only [List.map_cons, List.zipIdx_cons, List.mapM_cons, ofLine_dropCarriageReturn, ih]

/-- What is read of an export are the rows between its line feeds, behind the first of them. -/
theorem ofText_eq (text : String) :
    ofText (α := α) text =
      (((splitOnChar '\n' text.toList).zipIdx.drop 1).mapM ofLine).map List.reduceOption := by
  obtain ⟨ended, last, hall⟩ := exists_splitOnChar_append '\n' text.toList
  have hpieces := hall [] (by simp)
  rw [List.append_nil, List.append_nil] at hpieces
  rw [ofText, linesOf_eq hpieces, hpieces]
  cases ended with
  | nil => cases last <;> rfl
  | cons header lines =>
    simp only [List.map_cons, List.cons_append, List.zipIdx_cons, List.drop_succ_cons,
      List.drop_zero, List.zipIdx_append, List.mapM_append, mapM_ofLine_dropCarriageReturn,
      List.length_map]
    cases (lines.zipIdx (0 + 1)).mapM (ofLine (α := α)) with
    | error fault => rfl
    | ok rows =>
      cases last with
      | nil =>
        change Except.ok (rows ++ []).reduceOption = .ok (rows ++ [none]).reduceOption
        rw [List.append_nil, List.reduceOption_append]
        exact congrArg Except.ok (List.append_nil _).symm
      | cons c last => rfl

end IbmRow

/-! ## Written rows -/

/-- A text that is read as an unsigned integer of 32 bits. -/
structure IndexText where
  chars : List Char
  index : Nat
  accepted : unsignedOfChars? (wordValues 32) chars = some index

/-- A text on one line that is read as a number, with blanks around it or not. -/
structure NumberText (α : Type) [Scalar α] where
  chars : List Char
  value : α
  accepted : scalarOfChars? (trimChars chars) = some value
  onLine : '\n' ∉ chars

/-- The error of a pair of qubits, such as `3_5:0.0123`. -/
structure PairText (α : Type) [Scalar α] where
  first : IndexText
  second : IndexText
  error : NumberText α

/-- A row of an export, with the texts of all columns that are not read and the wish for quotes
around a column. -/
structure ExportRow (α : Type) [Scalar α] where
  /-- with a letter in front of the index -/
  lettered : Bool
  qubit : IndexText
  readout : Option (NumberText α)
  sx : Option (NumberText α)
  x : Option (NumberText α)
  cx : List (PairText α)
  other : Nat → List Char
  onLine : ∀ column, '\n' ∉ other column
  width : Nat
  width_ge : 13 ≤ width
  quoted : Nat → Bool

namespace IndexText

variable (t : IndexText) {c : Char}

private theorem isNumeric : IsNumeric t.chars := isNumeric_of_unsignedOfChars? t.accepted

private theorem not_mem (hdigit : c.isDigit = false) (hplus : c ≠ '+') : c ∉ t.chars := by
  intro hmem
  rcases (isDigit_or_eq_plus_of_unsignedOfChars? t.accepted).2 c hmem with h | h
  · rw [h] at hdigit
    cases hdigit
  · exact hplus h

private theorem not_isBlank : ∀ c ∈ t.chars, isBlank c = false := fun c hc =>
  not_isBlank_of_isNumberChar (t.isNumeric c hc)

private theorem exists_cons : ∃ c cs, t.chars = c :: cs ∧ (c.isDigit = true ∨ c = '+') := by
  obtain ⟨hne, hchars⟩ := isDigit_or_eq_plus_of_unsignedOfChars? t.accepted
  cases ht : t.chars with
  | nil => exact absurd ht hne
  | cons c cs => exact ⟨c, cs, rfl, hchars c (ht ▸ List.mem_cons_self)⟩

end IndexText

namespace NumberText

variable (t : NumberText α) {c : Char}

/-- What is neither blank nor part of a number is not in the text of one. -/
theorem not_mem (hblank : isBlank c = false) (hnumber : isNumberChar c = false) :
    c ∉ t.chars := by
  intro hmem
  rcases mem_trimChars_or_isBlank hmem with h | h
  · exact (isNumeric_of_scalarOfChars? t.accepted).not_mem hnumber h
  · rw [h] at hblank
    cases hblank

private theorem trimChars_ne_nil : trimChars t.chars ≠ [] := by
  intro hempty
  have haccepted : scalarOfChars? [] = some t.value := hempty ▸ t.accepted
  cases haccepted

end NumberText

namespace PairText

/-- The text of a pair and its error. -/
def chars (t : PairText α) : List Char :=
  t.first.chars ++ '_' :: (t.second.chars ++ ':' :: t.error.chars)

/-- The pair and its error. -/
def entry (t : PairText α) : (Nat × Nat) × α := ((t.first.index, t.second.index), t.error.value)

variable (t : PairText α)

/-- Only blanks behind the error are trimmed. -/
theorem exists_trimChars :
    ∃ error, trimChars t.chars = t.first.chars ++ '_' :: (t.second.chars ++ ':' :: error) ∧
      trimChars error = trimChars t.error.chars := by
  obtain ⟨before, behind, -, hbehind, herror⟩ := exists_eq_append_trimChars t.error.chars
  obtain ⟨c, cs, hfirst, -⟩ := t.first.exists_cons
  refine ⟨before ++ trimChars t.error.chars, ?_, ?_⟩
  · have hchars : t.chars = t.first.chars ++ '_' :: (t.second.chars ++ ':' ::
        (before ++ trimChars t.error.chars)) ++ behind := by
      conv_lhs => rw [chars, herror]
      simp
    rw [hchars, trimChars_append_right hbehind]
    apply trimChars_eq_self
    · intro d hd
      have hmem : d ∈ t.first.chars := by
        rw [hfirst] at hd ⊢
        exact List.mem_of_head? hd
      exact t.first.not_isBlank d hmem
    · intro d hd
      have hassoc : t.first.chars ++ '_' :: (t.second.chars ++ ':' ::
          (before ++ trimChars t.error.chars)) =
          t.first.chars ++ '_' :: (t.second.chars ++ ':' :: before) ++ trimChars t.error.chars := by
        simp
      rw [hassoc, List.getLast?_append_of_ne_nil _ t.error.trimChars_ne_nil] at hd
      exact isBlank_of_mem_getLast?_trimChars hd
  · rw [← trimChars_append_right hbehind, ← herror]

private theorem cxErrorOf?_trimChars : IbmTable.cxErrorOf? (trimChars t.chars) = some t.entry := by
  obtain ⟨error, hchars, herror⟩ := t.exists_trimChars
  obtain ⟨c, cs, hfirst, hc⟩ := t.first.exists_cons
  have hcolon : ':' ∉ t.first.chars ++ '_' :: t.second.chars := by
    have hindex (index : IndexText) : ':' ∉ index.chars := index.not_mem (by decide) (by decide)
    simp [hindex]
  have hpair : trimChars (t.first.chars ++ '_' :: t.second.chars) =
      t.first.chars ++ '_' :: t.second.chars := by
    refine trimChars_of_forall fun c hc => ?_
    rcases List.mem_append.1 hc with hc | hc
    · exact t.first.not_isBlank c hc
    · rcases List.mem_cons.1 hc with rfl | hc
      · decide
      · exact t.second.not_isBlank c hc
  have hhead : (t.first.chars ++ '_' :: t.second.chars).head? ≠ some 'c' := by
    rw [hfirst]
    rintro ⟨⟩
    exact absurd hc (by decide)
  have hsplit : IbmTable.splitAtFirst ':' (trimChars t.chars) =
      some (t.first.chars ++ '_' :: t.second.chars, error) := by
    rw [hchars, ← IbmTable.splitAtFirst_append hcolon]
    simp
  simp only [IbmTable.cxErrorOf?, hsplit, hpair, IbmTable.dropRepeated_of_head? hhead, herror,
    IbmTable.splitAtFirst_append (t.first.not_mem (c := '_') (by decide) (by decide)),
    t.first.accepted, t.second.accepted, t.error.accepted, Option.bind_eq_bind, Option.bind_some]
  rfl

/-- The text of a pair is cut at no semicolon and ends no line. -/
theorem not_mem {c : Char} (h : c = ';' ∨ c = '\n') : c ∉ t.chars := by
  have hindex (index : IndexText) : c ∉ index.chars := by
    rcases h with rfl | rfl <;> exact index.not_mem (by decide) (by decide)
  have herror : c ∉ t.error.chars := by
    rcases h with rfl | rfl
    · exact t.error.not_mem (by decide) (by decide)
    · exact t.error.onLine
  have hseparator : c ≠ '_' ∧ c ≠ ':' := by
    rcases h with rfl | rfl <;> decide
  simp [chars, hindex, herror, hseparator]

end PairText

namespace ExportRow

/-- The text of a number, if there is one. -/
def numberChars (number : Option (NumberText α)) : List Char := (number.map (·.chars)).getD []

/-- The text of a column, counted from zero. -/
def column (row : ExportRow α) : Nat → List Char
  | 0 => if row.lettered then 'Q' :: row.qubit.chars else row.qubit.chars
  | 5 => numberChars row.readout
  | 10 => numberChars row.sx
  | 11 => numberChars row.x
  | 12 => joinWith ';' (row.cx.map (·.chars))
  | n => row.other n

/-- The texts of the columns. -/
def fields (row : ExportRow α) : List (List Char) := (List.range row.width).map row.column

/-- The text of the row. -/
def chars (row : ExportRow α) : List Char :=
  Csv.writeRow ((List.range row.width).map fun n => (row.quoted n, row.column n))

/-- What the row states. -/
def stated (row : ExportRow α) : IbmRow α where
  qubit := row.qubit.index
  readout := row.readout.map (·.value)
  sx := row.sx.map (·.value)
  x := row.x.map (·.value)
  cx := row.cx.map (·.entry)

variable (row : ExportRow α)

/-- Written fields are read back. -/
theorem readRow_chars : Csv.readRow row.chars = row.fields := by
  have hwidth := row.width_ge
  rw [chars, Csv.readRow_writeRow _ (by simp; omega), List.map_map]
  rfl

private theorem getElem?_fields {n : Nat} (h : n < 13) : row.fields[n]? = some (row.column n) := by
  have hwidth := row.width_ge
  simp [fields, List.getElem?_range (show n < row.width by omega)]

private theorem qubitOf?_fields : IbmTable.qubitOf? row.fields = some row.qubit.index := by
  obtain ⟨c, cs, hchars, hc⟩ := row.qubit.exists_cons
  have hhead : row.qubit.chars.head? ≠ some 'Q' := by
    rw [hchars]
    rintro ⟨⟩
    exact absurd hc (by decide)
  have htrimmed : trimChars (row.column 0) = row.column 0 := by
    refine trimChars_of_forall fun d hd => ?_
    cases hlettered : row.lettered with
    | false => exact row.qubit.not_isBlank d (by simpa [column, hlettered] using hd)
    | true =>
      have hmem : d = 'Q' ∨ d ∈ row.qubit.chars := by simpa [column, hlettered] using hd
      rcases hmem with rfl | hd
      · decide
      · exact row.qubit.not_isBlank d hd
  have hdropped : IbmTable.dropRepeated ['Q'] (row.column 0).length (row.column 0) =
      row.qubit.chars := by
    cases hlettered : row.lettered with
    | false =>
      rw [column, hlettered, if_neg Bool.false_ne_true, IbmTable.dropRepeated_of_head? hhead]
    | true =>
      rw [column, hlettered, if_pos rfl, List.length_cons]
      exact IbmTable.dropRepeated_of_head? hhead _
  have hfirst : (row.fields.map trimChars).head? = some (row.column 0) := by
    rw [List.head?_map, List.head?_eq_getElem?, row.getElem?_fields (by decide), Option.map_some,
      htrimmed]
  rw [IbmTable.qubitOf?_eq, hfirst, Option.bind_some, hdropped, row.qubit.accepted]

private theorem numberIn_fields {n : Nat} (h : n < 13) {number : Option (NumberText α)}
    (hcolumn : row.column n = numberChars number) :
    IbmTable.numberIn row.fields n = .ok (number.map (·.value)) := by
  rw [IbmTable.numberIn, row.getElem?_fields h, hcolumn]
  cases number with
  | none => rfl
  | some number =>
    have hne : (trimChars number.chars).isEmpty = false :=
      List.isEmpty_eq_false_iff.2 number.trimChars_ne_nil
    simp [numberChars, hne, number.accepted]

/-- The pieces of the column of pairs that are not blank are its pairs. -/
theorem filter_pieces (pairs : List (PairText α)) :
    ((splitOnChar ';' (joinWith ';' (pairs.map (·.chars)))).map trimChars).filter (!·.isEmpty) =
      pairs.map fun pair => trimChars pair.chars := by
  by_cases hnil : pairs = []
  · subst hnil
    rfl
  · have hpieces : splitOnChar ';' (joinWith ';' (pairs.map (·.chars))) = pairs.map (·.chars) :=
      splitOnChar_joinWith (by simpa using hnil)
        (List.forall_mem_map.2 fun pair _ => pair.not_mem (.inl rfl))
    have hfilled : ∀ text ∈ pairs.map fun pair => trimChars pair.chars,
        (!text.isEmpty) = true := by
      refine List.forall_mem_map.2 fun pair _ => ?_
      obtain ⟨error, htrimmed, -⟩ := pair.exists_trimChars
      simp [htrimmed]
    rw [hpieces, List.map_map]
    exact List.filter_eq_self.2 hfilled

private theorem cxEntries_fields : IbmTable.cxEntries row.fields = .ok (row.cx.map (·.entry)) := by
  rw [IbmTable.cxEntries, row.getElem?_fields (show IbmTable.cxColumn < 13 by decide)]
  change List.mapM _ (((splitOnChar ';' (joinWith ';' (row.cx.map (·.chars)))).map
    trimChars).filter (!·.isEmpty)) = _
  rw [filter_pieces, mapM_eq_ok_iff, List.forall₂_map_left_iff, List.forall₂_map_right_iff,
    List.forall₂_same]
  intro pair _
  rw [pair.cxErrorOf?_trimChars]

/-- What is read of the fields of a row is what it states. -/
theorem ofFields_fields : IbmRow.ofFields row.fields = .ok row.stated := by
  rw [IbmRow.ofFields, row.qubitOf?_fields,
    row.numberIn_fields (n := IbmTable.readoutColumn) (by decide) rfl,
    row.numberIn_fields (n := IbmTable.sxColumn) (by decide) rfl,
    row.numberIn_fields (n := IbmTable.xColumn) (by decide) rfl, row.cxEntries_fields]
  rfl

/-- A column ends no line. -/
theorem onLine_column (n : Nat) : '\n' ∉ row.column n := by
  have hindex : '\n' ∉ row.qubit.chars := row.qubit.not_mem (by decide) (by decide)
  have hnumber (number : Option (NumberText α)) : '\n' ∉ numberChars number := by
    cases number with
    | none => simp [numberChars]
    | some number => exact number.onLine
  unfold column
  split
  · split
    · simp [hindex]
    · exact hindex
  · exact hnumber _
  · exact hnumber _
  · exact hnumber _
  · intro hmem
    rcases mem_joinWith hmem with hsep | ⟨text, htext, hc⟩
    · cases hsep
    · obtain ⟨pair, -, rfl⟩ := List.mem_map.1 htext
      exact pair.not_mem (.inr rfl) hc
  · exact row.onLine _

private theorem onLine_chars : '\n' ∉ row.chars := by
  intro hmem
  rcases Csv.mem_of_mem_writeRow hmem with hcomma | hquote | ⟨field, hfield, hc⟩
  · cases hcomma
  · cases hquote
  · obtain ⟨n, -, rfl⟩ := List.mem_map.1 hfield
    exact row.onLine_column n hc

/-- What is read of the line of a row is what it states. -/
theorem ofLine_chars (i : Nat) : IbmRow.ofLine (row.chars, i) = .ok (some row.stated) := by
  have hwidth := row.width_ge
  have hfilled : (trimChars row.chars).isEmpty = false := by
    rw [List.isEmpty_eq_false_iff, ne_eq, trimChars_eq_nil_iff]
    intro hblank
    have hcomma := hblank ',' (Csv.comma_mem_writeRow (by simp; omega))
    simp [isBlank] at hcomma
  simp [IbmRow.ofLine, hfilled, row.readRow_chars, row.ofFields_fields]

end ExportRow

/-! ## Written exports -/

/-- A line of an export after the first one. -/
inductive ExportLine (α : Type) [Scalar α] where
  | blank (chars : List Char) (isBlank : ∀ c ∈ chars, isBlank c = true) (onLine : '\n' ∉ chars)
  | filled (row : ExportRow α)

namespace ExportLine

/-- The text of the line. -/
def chars : ExportLine α → List Char
  | blank chars _ _ => chars
  | filled row => row.chars

/-- The row of the line, if it is not blank. -/
def row? : ExportLine α → Option (ExportRow α)
  | blank _ _ _ => none
  | filled row => some row

private theorem onLine_chars (line : ExportLine α) : '\n' ∉ line.chars := by
  cases line with
  | blank chars _ honLine => exact honLine
  | filled row => exact row.onLine_chars

/-- What is read of a line is what its row states. -/
theorem ofLine_chars (line : ExportLine α) (i : Nat) :
    IbmRow.ofLine (line.chars, i) = .ok (line.row?.map (·.stated)) := by
  cases line with
  | blank blanks hblank _ =>
    have hempty : trimChars blanks = [] := trimChars_eq_nil_iff.2 hblank
    simp [chars, row?, IbmRow.ofLine, hempty]
  | filled row => exact row.ofLine_chars i

end ExportLine

/-- An export: a line of any text, and lines each of which has a carriage return behind it or
not. -/
structure IbmExport (α : Type) [Scalar α] where
  header : List Char
  onLine : '\n' ∉ header
  lines : List (ExportLine α × Bool)

namespace IbmExport

/-- The text of a line with what ends it in front of the line feed. -/
def lineChars (line : ExportLine α × Bool) : List Char :=
  line.1.chars ++ if line.2 then ['\r'] else []

/-- The text of the export. -/
def text (e : IbmExport α) : String :=
  String.ofList (joinWith '\n' (e.header :: e.lines.map lineChars))

/-- The rows in order. -/
def rows (e : IbmExport α) : List (ExportRow α) := e.lines.filterMap (·.1.row?)

private theorem mapM_ofLine (lines : List (ExportLine α × Bool)) (i : Nat) :
    ((lines.map lineChars).zipIdx i).mapM IbmRow.ofLine =
      .ok (lines.map fun line => line.1.row?.map (·.stated)) := by
  induction lines generalizing i with
  | nil => rfl
  | cons line lines ih =>
    have hline : IbmRow.ofLine (lineChars line, i) = .ok (line.1.row?.map (·.stated)) := by
      rcases line with ⟨line, _ | _⟩
      · rw [lineChars, if_neg Bool.false_ne_true, List.append_nil, line.ofLine_chars]
      · rw [lineChars, if_pos rfl, IbmRow.ofLine_concat_return, line.ofLine_chars]
    rw [List.map_cons, List.zipIdx_cons, List.mapM_cons, hline, ih]
    rfl

variable (e : IbmExport α)

/-- What is read of a written export is what its rows state. -/
theorem ofText_text : IbmRow.ofText e.text = .ok (e.rows.map (·.stated)) := by
  have hlines : ∀ line ∈ e.header :: e.lines.map lineChars, '\n' ∉ line := by
    refine List.forall_mem_cons.2 ⟨e.onLine, List.forall_mem_map.2 fun line _ => ?_⟩
    cases hreturn : line.2 <;> simp [lineChars, hreturn, line.1.onLine_chars]
  have hrows : (e.lines.map fun line => line.1.row?.map (·.stated)).reduceOption =
      e.rows.map (·.stated) := by
    simp [List.reduceOption, rows, List.filterMap_map, List.map_filterMap]
  rw [IbmRow.ofText_eq, text, String.toList_ofList, splitOnChar_joinWith (by simp) hlines,
    List.zipIdx_cons, List.drop_succ_cons, List.drop_zero, mapM_ofLine, ← hrows]
  rfl

/-- The numbers that rows state in a column, with the qubits of the rows. -/
def numbers (column : ExportRow α → Option (NumberText α)) : List (Nat × α) :=
  e.rows.filterMap fun row => (column row).map fun number => (row.qubit.index, number.value)

/-- The pairs of all rows and their errors. -/
def pairs : List ((Nat × Nat) × α) := e.rows.flatMap fun row => row.cx.map (·.entry)

private theorem holdsLast_numbers {column : ExportRow α → Option (NumberText α)}
    {value : IbmRow α → Option α}
    (h : ∀ row, value row.stated = (column row).map (·.value)) :
    (Dict.ofEntries ((e.rows.map (·.stated)).filterMap (·.stated? value))).HoldsLast
      (e.numbers column) := by
  have hnumbers : (e.rows.map (·.stated)).filterMap (·.stated? value) = e.numbers column := by
    rw [List.filterMap_map, numbers]
    refine List.filterMap_congr fun row _ => ?_
    simp only [Function.comp_apply, IbmRow.stated?, h, Option.map_map]
    rfl
  rw [hnumbers]
  exact Dict.holdsLast_ofEntries _

/-- A written export is read, and its table holds for each qubit the last number of each column
and for each pair of qubits its last error, and nothing else. -/
theorem exists_ofText_text :
    ∃ t, IbmTable.ofText e.text = .ok t ∧
      t.readout.HoldsLast (e.numbers (·.readout)) ∧ t.sx.HoldsLast (e.numbers (·.sx)) ∧
      t.x.HoldsLast (e.numbers (·.x)) ∧ t.cx.HoldsLast e.pairs := by
  refine ⟨IbmTable.ofRows (e.rows.map (·.stated)), ?_, ?_, ?_, ?_, ?_⟩
  · rw [IbmTable.ofText_eq, e.ofText_text]
    rfl
  · exact e.holdsLast_numbers fun _ => rfl
  · exact e.holdsLast_numbers fun _ => rfl
  · exact e.holdsLast_numbers fun _ => rfl
  · have hpairs : (e.rows.map (·.stated)).flatMap (·.cx) = e.pairs := by
      rw [List.flatMap_map]
      rfl
    exact hpairs ▸ Dict.holdsLast_ofEntries e.pairs

/-- A row with a text that must stand between quotes and one that does so by choice. -/
def pairRow (readout : Option (NumberText Rat)) : ExportRow Rat where
  lettered := true
  qubit := ⟨['3'], 3, rfl⟩
  readout := readout
  sx := none
  x := none
  cx := [⟨⟨['3'], 3, rfl⟩, ⟨['5'], 5, rfl⟩, ⟨['0', '.', '5'], 1 / 2, by cbv, by decide⟩⟩]
  other := fun column => if column = 1 then ['a', ',', '"'] else []
  onLine := by intro column; split <;> decide
  width := 13
  width_ge := le_rfl
  quoted := fun column => column = 2

/-- Two rows of one qubit around a blank line.  The second states no error of its readout, so that
of the first is the last one. -/
def twoRows : IbmExport Rat where
  header := ['Q']
  onLine := by decide
  lines := [(.filled (pairRow (some ⟨['.', '2', '5'], 1 / 4, by cbv, by decide⟩)), false),
    (.blank [' '] (List.forall_mem_singleton.2 rfl) (by decide), true),
    (.filled (pairRow none), false)]

example : twoRows.text =
      "Q\nQ3,\"a,\"\"\",\"\",,,.25,,,,,,,3_5:0.5\n \r\nQ3,\"a,\"\"\",\"\",,,,,,,,,,3_5:0.5" ∧
    twoRows.numbers (·.readout) = [(3, 1 / 4)] ∧
    twoRows.pairs = [((3, 5), 1 / 2), ((3, 5), 1 / 2)] :=
  ⟨by cbv, rfl, rfl⟩

end IbmExport

end PathSelection
