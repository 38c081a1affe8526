import Mathlib.Data.List.TakeWhile
import PathSelection.Storage.Path
import PathSelection.Text.Blank

/-!
# Pieces and trimmed texts

Pieces without separators, once joined, are cut apart again where they were joined.  Blanks at
the ends of a text are no part of its trimmed text, and a text that neither begins nor ends with
one stays as it is.

Main results:

- Theorem `splitOnChar_joinWith`: joined pieces are the pieces.
- Theorem `exists_splitOnChar_append`: what is put behind a text is put behind its last piece.
- Theorem `exists_eq_append_trimChars`: a text is its trimmed text between blanks.
-/

namespace PathSelection

variable {sep : Char} {cs : List Char}

/-! ## Pieces -/

private theorem joinWith_cons {piece : List Char} {pieces : List (List Char)} (h : pieces ≠ []) :
    joinWith sep (piece :: pieces) = piece ++ sep :: joinWith sep pieces := by
  cases pieces with
  | nil => exact absurd rfl h
  | cons _ _ => rfl

/-- Joined pieces are cut apart again. -/
theorem splitOnChar_joinWith {pieces : List (List Char)} (hne : pieces ≠ [])
    (h : ∀ piece ∈ pieces, sep ∉ piece) : splitOnChar sep (joinWith sep pieces) = pieces := by
  induction pieces with
  | nil => exact absurd rfl hne
  | cons piece pieces ih =>
    obtain ⟨hpiece, hpieces⟩ := List.forall_mem_cons.1 h
    by_cases hlast : pieces = []
    · subst hlast
      exact PathName.splitOnChar_of_not_mem hpiece
    · rw [joinWith_cons hlast, PathName.splitOnChar_append_cons,
        PathName.splitOnChar_of_not_mem hpiece, ih hlast hpieces]
      rfl

/-- What is joined has the characters of the pieces and separators. -/
theorem mem_joinWith {pieces : List (List Char)} {c : Char} (h : c ∈ joinWith sep pieces) :
    c = sep ∨ ∃ piece ∈ pieces, c ∈ piece := by
  induction pieces with
  | nil => cases h
  | cons piece pieces ih =>
    by_cases hlast : pieces = []
    · subst hlast
      exact .inr ⟨piece, List.mem_cons_self, h⟩
    · rw [joinWith_cons hlast, List.mem_append, List.mem_cons] at h
      rcases h with hpiece | hsep | hmore
      · exact .inr ⟨piece, List.mem_cons_self, hpiece⟩
      · exact .inl hsep
      · rcases ih hmore with hsep | ⟨piece', hmem, hc⟩
        · exact .inl hsep
        · exact .inr ⟨piece', List.mem_cons_of_mem _ hmem, hc⟩

/-- What is put behind a text is put behind its last piece. -/
theorem exists_splitOnChar_append (sep : Char) (cs : List Char) :
    ∃ front last, ∀ ds, sep ∉ ds → splitOnChar sep (cs ++ ds) = front ++ [last ++ ds] := by
  induction cs with
  | nil => exact ⟨[], [], fun ds hds => PathName.splitOnChar_of_not_mem hds⟩
  | cons c cs ih =>
    obtain ⟨front, last, hpieces⟩ := ih
    have hcons (ds : List Char) :
        splitOnChar sep (c :: cs ++ ds) = consPiece sep c (splitOnChar sep (cs ++ ds)) := rfl
    by_cases hsep : c = sep
    · refine ⟨[] :: front, last, fun ds hds => ?_⟩
      rw [hcons, hpieces ds hds]
      simp [consPiece, hsep]
    · cases front with
      | nil =>
        refine ⟨[], c :: last, fun ds hds => ?_⟩
        rw [hcons, hpieces ds hds]
        simp [consPiece, hsep]
      | cons piece front =>
        refine ⟨(c :: piece) :: front, last, fun ds hds => ?_⟩
        rw [hcons, hpieces ds hds]
        simp [consPiece, hsep]

/-- The lines of a text, from its pieces between line feeds. -/
theorem linesOf_eq {ended : List (List Char)} {last : List Char}
    (h : splitOnChar '\n' cs = ended ++ [last]) :
    linesOf cs = ended.map dropCarriageReturn ++ if last.isEmpty then [] else [last] := by
  simp only [linesOf, h, List.reverse_append, List.reverse_singleton, List.singleton_append,
    List.reverse_reverse]

/-! ## Trimmed texts -/

/-- Nothing is left of a text exactly if all of it is blank. -/
theorem trimChars_eq_nil_iff {cs : List Char} :
    trimChars cs = [] ↔ ∀ c ∈ cs, isBlank c = true := by
  rw [trimChars, List.reverse_eq_nil_iff, List.dropWhile_eq_nil_iff]
  simp only [List.mem_reverse]
  constructor
  · intro hrest
    rw [← List.dropWhile_eq_nil_iff]
    by_contra hne
    have hhead := List.head_dropWhile_not (p := isBlank) hne
    rw [hrest _ (List.head_mem hne)] at hhead
    cases hhead
  · intro hall c hc
    exact hall c ((List.dropWhile_suffix isBlank).subset hc)

/-- Blanks behind a text are trimmed. -/
theorem trimChars_append_right {blanks : List Char} (h : ∀ c ∈ blanks, isBlank c = true) :
    trimChars (cs ++ blanks) = trimChars cs := by
  by_cases hcs : ∀ c ∈ cs, isBlank c = true
  · rw [trimChars_eq_nil_iff.2 hcs, trimChars_eq_nil_iff]
    exact List.forall_mem_append.2 ⟨hcs, h⟩
  · have hne : (cs.dropWhile isBlank).isEmpty = false := by
      rwa [List.isEmpty_eq_false_iff, ne_eq, List.dropWhile_eq_nil_iff]
    have hreverse : ∀ c ∈ blanks.reverse, isBlank c = true := fun c hc =>
      h c (List.mem_reverse.1 hc)
    rw [trimChars, trimChars, List.dropWhile_append, hne, if_neg Bool.false_ne_true,
      List.reverse_append, List.dropWhile_append_of_pos hreverse]

/-- A text that neither begins nor ends with a blank is trimmed. -/
theorem trimChars_eq_self (hfirst : ∀ c ∈ cs.head?, isBlank c = false)
    (hlast : ∀ c ∈ cs.getLast?, isBlank c = false) : trimChars cs = cs := by
  have hends {ds : List Char} (h : ∀ c ∈ ds.head?, isBlank c = false) :
      ds.dropWhile isBlank = ds := by
    cases ds with
    | nil => rfl
    | cons c ds => rw [List.dropWhile_cons_of_neg (by simp [h c rfl])]
  rw [trimChars, hends hfirst, hends (by rwa [List.head?_reverse]), List.reverse_reverse]

/-- A text without blanks is trimmed. -/
theorem trimChars_of_forall (h : ∀ c ∈ cs, isBlank c = false) : trimChars cs = cs :=
  trimChars_eq_self (fun c hc => h c (List.mem_of_head? hc))
    fun c hc => h c (List.mem_of_getLast? hc)

/-- A text is its trimmed text between blanks, and that text neither begins nor ends with one. -/
theorem exists_eq_append_trimChars (cs : List Char) :
    ∃ before behind, (∀ c ∈ before, isBlank c = true) ∧ (∀ c ∈ behind, isBlank c = true) ∧
      cs = before ++ trimChars cs ++ behind := by
  have hspan (ds : List Char) : ∃ blanks, (∀ c ∈ blanks, isBlank c = true) ∧
      ds = blanks ++ ds.dropWhile isBlank :=
    ⟨ds.takeWhile isBlank, fun _ => List.mem_takeWhile_imp,
      List.takeWhile_append_dropWhile.symm⟩
  obtain ⟨before, hbefore, hcs⟩ := hspan cs
  obtain ⟨behind, hbehind, hrest⟩ := hspan (cs.dropWhile isBlank).reverse
  refine ⟨before, behind.reverse, hbefore, fun c hc => hbehind c (List.mem_reverse.1 hc), ?_⟩
  rw [List.append_assoc, trimChars, ← List.reverse_append, ← hrest, List.reverse_reverse, ← hcs]

/-- A trimmed text does not end in a blank. -/
theorem isBlank_of_mem_getLast?_trimChars {c : Char} (h : c ∈ (trimChars cs).getLast?) :
    isBlank c = false := by
  rw [trimChars, List.getLast?_reverse] at h
  have hhead := List.head?_dropWhile_not isBlank (cs.dropWhile isBlank).reverse
  rw [Option.mem_def.1 h] at hhead
  simpa using hhead

/-- What is not blank is left when a text is trimmed. -/
theorem mem_trimChars_or_isBlank {c : Char} (h : c ∈ cs) :
    c ∈ trimChars cs ∨ isBlank c = true := by
  obtain ⟨before, behind, hbefore, hbehind, hcs⟩ := exists_eq_append_trimChars cs
  rw [hcs, List.mem_append, List.mem_append] at h
  rcases h with (h | h) | h
  · exact .inr (hbefore c h)
  · exact .inl h
  · exact .inr (hbehind c h)

end PathSelection
