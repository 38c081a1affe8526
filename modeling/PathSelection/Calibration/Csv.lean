/-!
# Comma-separated rows

A row is cut at commas outside of quotes; inside of quotes a quote is written
twice.

Main result:

- Theorem `readRow_writeRow`: a written row is read back.
-/

namespace PathSelection.Csv

/-- A row that is being read; everything is in reverse. -/
structure Draft where
  done : List (List Char)
  current : List Char
  /-- inside of quotes -/
  quoted : Bool
  /-- the last character was a quote inside of quotes, and its meaning is open -/
  pending : Bool

namespace Draft

/-- A character that is no part of an open quote. -/
def pushPlain (d : Draft) (c : Char) : Draft :=
  if c = '"' then
    if d.quoted then { d with pending := true } else { d with quoted := true }
  else if c = ',' ∧ !d.quoted then { d with done := d.current.reverse :: d.done, current := [] }
  else { d with current := c :: d.current }

/-- One more character: a quote that follows a quote inside of quotes stands for a quote. -/
def push (d : Draft) (c : Char) : Draft :=
  if d.pending then
    if c = '"' then { d with current := '"' :: d.current, pending := false }
    else { d with quoted := false, pending := false }.pushPlain c
  else d.pushPlain c

/-- The fields when no more characters come. -/
def finish (d : Draft) : List (List Char) := (d.current.reverse :: d.done).reverse

end Draft

/-- The fields of a row. -/
def readRow (cs : List Char) : List (List Char) :=
  (cs.foldl Draft.push ⟨[], [], false, false⟩).finish

/-- A field between quotes. -/
def quoteField (field : List Char) : List Char :=
  '"' :: field.flatMap (fun c => if c = '"' then ['"', '"'] else [c]) ++ ['"']

/-- Must a field stand between quotes? -/
def needsQuotes (field : List Char) : Bool := field.contains ',' || field.contains '"'

/-- A field, between quotes if it must or is wanted to be. -/
def writeField (wanted : Bool) (field : List Char) : List Char :=
  if wanted || needsQuotes field then quoteField field else field

/-- A row of fields, each with the wish to stand between quotes. -/
def writeRow : List (Bool × List Char) → List Char
  | [] => []
  | [(wanted, field)] => writeField wanted field
  | (wanted, field) :: rest => writeField wanted field ++ ',' :: writeRow rest

/-! ## Reading what was written -/

private theorem foldl_push_plain (field : List Char) (hcomma : ',' ∉ field) (hquote : '"' ∉ field)
    (done : List (List Char)) (current : List Char) :
    field.foldl Draft.push ⟨done, current, false, false⟩
      = ⟨done, field.reverse ++ current, false, false⟩ := by
  induction field generalizing current with
  | nil => rfl
  | cons c cs ih =>
    have hc : c ≠ ',' := fun e => hcomma (by simp [e])
    have hq : c ≠ '"' := fun e => hquote (by simp [e])
    rw [List.foldl_cons]
    have hstep : Draft.push ⟨done, current, false, false⟩ c =
        ⟨done, c :: current, false, false⟩ := by
      simp [Draft.push, Draft.pushPlain, hc, hq]
    rw [hstep, ih (fun m => hcomma (List.mem_cons_of_mem _ m))
      (fun m => hquote (List.mem_cons_of_mem _ m))]
    simp

private theorem foldl_push_quoted (field : List Char) (done : List (List Char))
    (current : List Char) :
    (field.flatMap (fun c => if c = '"' then ['"', '"'] else [c])).foldl Draft.push
        ⟨done, current, true, false⟩
      = ⟨done, field.reverse ++ current, true, false⟩ := by
  induction field generalizing current with
  | nil => rfl
  | cons c cs ih =>
    rw [List.flatMap_cons, List.foldl_append]
    have hstep : (if c = '"' then ['"', '"'] else [c]).foldl Draft.push ⟨done, current, true, false⟩
        = ⟨done, c :: current, true, false⟩ := by
      by_cases h : c = '"' <;> simp [Draft.push, Draft.pushPlain, h]
    rw [hstep, ih]
    simp

/-- After a written field, whatever was open before it, only the field has been added. -/
theorem finish_writeField (wanted : Bool) (field : List Char) (done : List (List Char)) :
    ∃ quoted pending,
      (writeField wanted field).foldl Draft.push ⟨done, [], false, false⟩
          = ⟨done, field.reverse, quoted, pending⟩
        ∧ ((quoted = false ∧ pending = false) ∨ (quoted = true ∧ pending = true)) := by
  unfold writeField
  split
  · refine ⟨true, true, ?_, Or.inr ⟨rfl, rfl⟩⟩
    have hopen : Draft.push ⟨done, [], false, false⟩ '"' = ⟨done, [], true, false⟩ := by
      simp [Draft.push, Draft.pushPlain]
    rw [quoteField, List.cons_append, List.foldl_cons, hopen, List.foldl_append, foldl_push_quoted]
    simp [Draft.push, Draft.pushPlain]
  · rename_i h
    simp only [Bool.or_eq_true, needsQuotes, List.contains_iff_mem, not_or] at h
    exact ⟨false, false, by simpa using foldl_push_plain field h.2.1 h.2.2 done [],
      Or.inl ⟨rfl, rfl⟩⟩

private theorem finish_writeRow (row : List (Bool × List Char)) (h : row ≠ [])
    (done : List (List Char)) :
    ((writeRow row).foldl Draft.push ⟨done, [], false, false⟩).finish
      = done.reverse ++ row.map (·.2) := by
  induction row generalizing done with
  | nil => exact absurd rfl h
  | cons p rest ih =>
    obtain ⟨wanted, field⟩ := p
    obtain ⟨quoted, pending, hfield, hstate⟩ := finish_writeField wanted field done
    cases rest with
    | nil => simp [writeRow, hfield, Draft.finish]
    | cons q rest =>
      rw [writeRow, List.foldl_append, hfield, List.foldl_cons]
      · have hcomma : Draft.push ⟨done, field.reverse, quoted, pending⟩ ','
            = ⟨field :: done, [], false, false⟩ := by
          rcases hstate with ⟨rfl, rfl⟩ | ⟨rfl, rfl⟩ <;> simp [Draft.push, Draft.pushPlain]
        rw [hcomma, ih (by simp)]
        simp
      · simp

/-- A written row is read back. -/
theorem readRow_writeRow (row : List (Bool × List Char)) (h : row ≠ []) :
    readRow (writeRow row) = row.map (·.2) := by
  rw [readRow, finish_writeRow row h []]
  rfl

end PathSelection.Csv
