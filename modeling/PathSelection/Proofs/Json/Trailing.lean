import PathSelection.Proofs.Json.ReadBack
import PathSelection.Text.Blank

/-!
# Documents in front of another one

Spaces in front of a document mean nothing.  After a complete document nothing but spaces
may come, so two documents one behind the other are none; and a blank that is no space of
the format spoils the document behind it.

The tokens that were cut off stay cut off, so the tokens of a longer text begin with those
of its front, unless the front ends inside a token.  What is broken in the front stays
broken, and the front is complete only if nothing in it is.

Main results:

- Theorem `read_append_of_spaces`: spaces in front of a document mean nothing.
- Theorem `read_append_openObject`: no object may come behind a complete document.
- Theorem `read_append_of_blank`: other blanks in front of a document spoil it.
-/

namespace PathSelection.Json

/-! ## Tokens that are cut off -/

namespace Lexer

variable {s t : Lexer} {tokens : List Token} {c : Char} {cs : List Char}

/-- A broken document says so in its tokens. -/
def Marked (s : Lexer) : Prop := s.lexeme = .broken → ∃ f, .broken f ∈ s.tokens

/-- What was cut off stays cut off, and what breaks later says so too. -/
structure Extends (s t : Lexer) : Prop where
  tokens : s.tokens <:+ t.tokens
  marked : s.Marked → t.Marked

namespace Extends

private theorem refl (s : Lexer) : Extends s s := ⟨List.suffix_rfl, id⟩

private theorem trans {u : Lexer} (h : Extends s t) (h' : Extends t u) : Extends s u :=
  ⟨h.tokens.trans h'.tokens, h'.marked ∘ h.marked⟩

private theorem of_ne {lexeme : Lexeme} (h : s.tokens <:+ tokens) (hne : lexeme ≠ .broken) :
    Extends s ⟨tokens, lexeme⟩ :=
  ⟨h, fun _ hbroken => absurd hbroken hne⟩

private theorem emit (h : s.tokens <:+ tokens) (t : Token) : Extends s (Lexer.emit tokens t) :=
  .of_ne (h.trans (List.suffix_cons t tokens)) (by simp)

private theorem fail (h : s.tokens <:+ tokens) (f : Fault) : Extends s (Lexer.fail tokens f) :=
  ⟨h.trans (List.suffix_cons _ tokens), fun _ _ => ⟨f, List.mem_cons_self⟩⟩

private theorem begin (h : s.tokens <:+ tokens) (c : Char) : Extends s (Lexer.begin tokens c) := by
  unfold Lexer.begin
  split
  · exact .of_ne h (by simp)
  · split
    case h_12 =>
      split
      · exact .of_ne h (by simp)
      · exact .fail h _
    all_goals first | exact .emit h _ | exact .of_ne h (by simp)

end Extends

/-- One more character leaves what was cut off before it. -/
theorem extends_step (s : Lexer) (c : Char) : Extends s (s.step c) := by
  obtain ⟨tokens, lexeme⟩ := s
  have hsame : tokens <:+ tokens := List.suffix_rfl
  cases lexeme with
  | between => exact .begin hsame c
  | word rest t =>
    cases rest with
    | nil => exact .begin (List.suffix_cons t tokens) c
    | cons expected rest =>
      simp only [step]
      split
      · exact .fail hsame _
      · cases rest with
        | nil => exact .emit hsame t
        | cons => exact .of_ne hsame (by simp)
  | number d =>
    simp only [step]
    split
    · exact .of_ne hsame (by simp)
    · exact .fail hsame _
    · exact .begin (List.suffix_cons _ tokens) c
  | text d =>
    simp only [step, stepText]
    split_ifs
    · exact .emit hsame _
    · exact .of_ne hsame (by simp)
    · exact .fail hsame _
    · exact .of_ne hsame (by simp)
  | escape d =>
    simp only [step]
    split_ifs
    · exact .of_ne hsame (by simp)
    · split
      · exact .of_ne hsame (by simp)
      · exact .fail hsame _
  | code d value missing =>
    simp only [step]
    split
    · split_ifs <;> exact .of_ne hsame (by simp)
    · exact .fail hsame _
  | broken => exact .refl _

private theorem extends_foldl (s : Lexer) (cs : List Char) : Extends s (cs.foldl step s) := by
  induction cs generalizing s with
  | nil => exact .refl s
  | cons c cs ih => exact (extends_step s c).trans (ih _)

/-- The tokens of a text begin with those that were cut off somewhere on the way. -/
theorem prefix_finish (s : Lexer) (cs : List Char) :
    s.tokens.reverse <+: (cs.foldl step s).finish := by
  have htokens : ∀ t : Lexer, t.tokens.reverse <+: t.finish := by
    intro t
    rw [finish, List.reverse_prefix]
    cases t.lexeme with
    | between | broken => exact List.suffix_rfl
    | _ => exact List.suffix_cons _ _
  exact (List.reverse_prefix.2 (extends_foldl s cs).tokens).trans (htokens _)

/-- A text that ended between two tokens and was not broken is cut there by an object behind it. -/
theorem tokens_step_openObject (hmarked : s.Marked) (hwhole : ∀ f, .broken f ∉ s.finish) :
    (s.step '\x7b').tokens.reverse = s.finish ++ [.openObject] := by
  obtain ⟨tokens, lexeme⟩ := s
  cases lexeme with
  | between => simp [step, begin, isSpace, emit, finish]
  | number d =>
    have hcomplete : d.isComplete = true := by
      by_contra hnot
      exact hwhole .endInValue (by simp [finish, hnot])
    have hpush : d.push '\x7b' = none := by
      obtain ⟨stage, negative, whole, fraction, exponentNegative, exponent⟩ := d
      cases stage <;> first | rfl | cases hcomplete
    simp [step, hpush, begin, isSpace, emit, finish, hcomplete]
  | broken =>
    obtain ⟨f, hf⟩ := hmarked rfl
    exact absurd (by simpa [finish] using hf) (hwhole f)
  | word rest t => exact absurd (by simp [finish]) (hwhole .endInValue)
  | text | escape | code => exact absurd (by simp [finish]) (hwhole .endInText)

end Lexer

/-! ## Tokens that are none -/

namespace Parser

variable {p q : Parser} {ts us : List Token}

private theorem run_append : run p (ts ++ us) = (do run (← run p ts) us) := List.foldlM_append

/-- Nothing goes on behind what is broken. -/
theorem step_broken (p : Parser) (f : Fault) : ∃ e, p.step (.broken f) = .error e := by
  cases p <;> exact ⟨_, rfl⟩

private theorem run_ne_ok_of_broken {f : Fault} (h : .broken f ∈ ts) : run p ts ≠ .ok q := by
  obtain ⟨before, behind, rfl⟩ := List.append_of_mem h
  rw [run_append]
  cases run p before with
  | error e => simp [bind, Except.bind]
  | ok p' =>
    obtain ⟨e, he⟩ := step_broken p' f
    simp [bind, Except.bind, run, he]

/-- Nothing goes on behind a complete document. -/
theorem run_finished_ne_ok (v : Json) (t : Token) : run (.finished v) (t :: ts) ≠ .ok q := by
  simp [run, step, bind, Except.bind]

private theorem finish_eq_ok_iff {v : Json} : p.finish = .ok v ↔ p = .finished v := by
  cases p with
  | key afterComma done stack => cases afterComma <;> simp [finish]
  | _ => simp [finish]

end Parser

/-- A text is a document if its tokens are. -/
theorem read_eq_ok_iff {s : String} {v : Json} :
    read s = .ok v ↔ Parser.run Parser.start (tokensOf s.toList) = .ok (.finished v) := by
  change (Parser.run Parser.start (tokensOf s.toList) >>= Parser.finish) = .ok v ↔ _
  cases Parser.run Parser.start (tokensOf s.toList) with
  | error e => simp [bind, Except.bind]
  | ok p => simp [bind, Except.bind, Parser.finish_eq_ok_iff]

/-! ## Documents behind something -/

section Behind

variable {v : Json} {cs rest : List Char} {c : Char}

private theorem lex_space {done : List Token} (h : Lexer.isSpace c = true) :
    lex done (c :: rest) = lex done rest := by
  simp [lex, Lexer.step, Lexer.begin, h]

/-- Spaces in front of a document mean nothing. -/
theorem read_append_of_spaces (h : ∀ c ∈ cs, Lexer.isSpace c = true) :
    read (String.ofList (cs ++ rest)) = read (String.ofList rest) := by
  have htokens : lex [] (cs ++ rest) = lex [] rest := by
    induction cs with
    | nil => rfl
    | cons c cs ih =>
      obtain ⟨hc, hcs⟩ := List.forall_mem_cons.1 h
      rw [List.cons_append, lex_space hc, ih hcs]
  change (Parser.run Parser.start (tokensOf _) >>= Parser.finish) =
    Parser.run Parser.start (tokensOf _) >>= Parser.finish
  rw [String.toList_ofList, String.toList_ofList]
  exact congrArg (fun ts => Parser.run Parser.start ts >>= Parser.finish) htokens

/-- No object may come behind a complete document. -/
theorem read_append_openObject (h : read (String.ofList cs) = .ok v) (w : Json) :
    read (String.ofList (cs ++ '\x7b' :: rest)) ≠ .ok w := by
  rw [read_eq_ok_iff, String.toList_ofList, tokensOf] at h
  rw [ne_eq, read_eq_ok_iff, String.toList_ofList, tokensOf, List.foldl_append, List.foldl_cons]
  have hmarked : (cs.foldl Lexer.step Lexer.start).Marked :=
    (Lexer.extends_foldl Lexer.start cs).marked (by simp [Lexer.Marked, Lexer.start])
  have hwhole : ∀ f, .broken f ∉ (cs.foldl Lexer.step Lexer.start).finish := fun f hf =>
    Parser.run_ne_ok_of_broken hf h
  -- The object is cut off as a token behind all tokens of the document.
  obtain ⟨more, hmore⟩ := Lexer.prefix_finish
    ((cs.foldl Lexer.step Lexer.start).step '\x7b') rest
  rw [Lexer.tokens_step_openObject hmarked hwhole, List.append_assoc,
    List.singleton_append] at hmore
  rw [← hmore, Parser.run_append, h]
  change Parser.run (.finished v) (.openObject :: more) ≠ _
  exact Parser.run_finished_ne_ok v .openObject

/-- Blanks that are no spaces of the format break a document. -/
theorem begin_of_isBlank {tokens : List Token} (hblank : isBlank c = true)
    (hspace : Lexer.isSpace c = false) :
    Lexer.begin tokens c = Lexer.fail tokens .expectedValue := by
  have hdigit : Digit.ofChar? c = none := by
    unfold Digit.ofChar?
    split_ifs with hrange
    · simp [isBlank] at hblank
      omega
    · rfl
  unfold Lexer.begin
  rw [if_neg (by simp [hspace])]
  split
  case h_12 => rw [hdigit]
  all_goals exact absurd hblank (by decide)

/-- Text that starts with blanks that JSON does not know is not read. -/
theorem read_append_of_blank (hblank : ∀ c ∈ cs, isBlank c = true)
    (hspace : ¬∀ c ∈ cs, Lexer.isSpace c = true) (w : Json) :
    read (String.ofList (cs ++ rest)) ≠ .ok w := by
  rw [ne_eq, read_eq_ok_iff, String.toList_ofList]
  induction cs with
  | nil => simp at hspace
  | cons c cs ih =>
    obtain ⟨hc, hcs⟩ := List.forall_mem_cons.1 hblank
    cases hfirst : Lexer.isSpace c with
    | true =>
      have hlater : ¬∀ c ∈ cs, Lexer.isSpace c = true := fun hall =>
        hspace (List.forall_mem_cons.2 ⟨hfirst, hall⟩)
      have htokens : tokensOf (c :: cs ++ rest) = tokensOf (cs ++ rest) := lex_space hfirst
      rw [htokens]
      exact ih hcs hlater
    | false =>
      have hbroken : Lexer.start.step c = Lexer.fail [] .expectedValue :=
        begin_of_isBlank hc hfirst
      have hmem : .broken .expectedValue ∈ tokensOf (c :: cs ++ rest) := by
        rw [tokensOf, List.cons_append, List.foldl_cons, hbroken]
        exact (Lexer.prefix_finish _ _).subset (by simp [Lexer.fail])
      exact Parser.run_ne_ok_of_broken hmem

end Behind

end PathSelection.Json
