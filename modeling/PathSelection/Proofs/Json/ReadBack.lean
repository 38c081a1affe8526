import Mathlib.Data.Fintype.Basic
import Mathlib.Tactic.FinCases
import PathSelection.Json.Reader
import PathSelection.Json.Writer
import PathSelection.Proofs.Number.Digits

/-!
# Documents that are read back

What is written, compact or indented, is read as the same document: the
characters of a document are cut into its tokens, and the tokens are put
together to the document.

Main results:

- Theorems `lex_compact` and `lex_indented`: the tokens of a written document.
- Theorem `parse_tokens`: the document that its tokens spell.
- Theorems `read_compactText` and `read_indentedText`: a document is read back.
-/

namespace PathSelection.Json

/-- The tokens of characters that come after these tokens. -/
def lex (done : List Token) (cs : List Char) : List Token :=
  (cs.foldl Lexer.step ⟨done, .between⟩).finish

/-- Nothing, or characters that end the number before them. -/
def Ends (cs : List Char) : Prop := ∀ c ∈ cs.head?, c ∈ [',', ']', '\x7d', '\n']

variable {done : List Token} {rest : List Char}

@[simp]
theorem ends_nil : Ends [] := by simp [Ends]

@[simp]
theorem ends_cons {c : Char} : Ends (c :: rest) ↔ c ∈ [',', ']', '\x7d', '\n'] := by simp [Ends]

/-! ## Numbers -/

namespace NumberDraft

variable {d : NumberDraft} {ds : List Digit} {cs : List Char}

/-- A character that ends numbers ends a complete one. -/
theorem push_of_ends {c : Char} (hc : c ∈ [',', ']', '\x7d', '\n']) (h : d.isComplete = true) :
    d.push c = none := by
  obtain ⟨stage, negative, whole, fraction, exponentNegative, exponent⟩ := d
  simp only [List.mem_cons, List.not_mem_nil, or_false] at hc
  rcases hc with rfl | rfl | rfl | rfl <;> cases stage <;> first | rfl | cases h

private theorem push_digit (d : NumberDraft) (digit : Digit) :
    d.push digit.toChar = match d.pushDigit digit with
      | some d => some (.ok d)
      | none => some (.error .invalidNumber) := by
  cases hpush : d.pushDigit digit <;> simp only [push, Digit.ofChar?_toChar, hpush]

/-- What ends a number leaves it as it was read. -/
theorem lex_of_isComplete (h : d.isComplete = true) (hrest : Ends rest) :
    (rest.foldl Lexer.step ⟨done, .number d⟩).finish = lex (.number d.numeral :: done) rest := by
  cases rest with
  | nil => simp [Lexer.finish, lex, h]
  | cons c rest =>
    have hpush := push_of_ends (ends_cons.1 hrest) h
    simp only [lex, List.foldl_cons]
    congr 2
    simp only [Lexer.step, hpush]

private theorem foldl_whole (h : d.stage = .whole) :
    (ds.map Digit.toChar ++ cs).foldl Lexer.step ⟨done, .number d⟩ =
      cs.foldl Lexer.step ⟨done, .number { d with whole := ofDigitsFrom d.whole ds }⟩ := by
  induction ds generalizing d with
  | nil => rfl
  | cons digit ds ih =>
    have hstep : Lexer.step ⟨done, .number d⟩ digit.toChar =
        ⟨done, .number { d with whole := 10 * d.whole + digit.val }⟩ := by
      simp only [Lexer.step, push_digit, pushDigit, h]
    simp only [List.map_cons, List.cons_append, List.foldl_cons, hstep, ofDigitsFrom_cons]
    exact ih h

private theorem foldl_fraction (h : d.stage = .point ∨ d.stage = .fraction) (hne : ds ≠ []) :
    (ds.map Digit.toChar ++ cs).foldl Lexer.step ⟨done, .number d⟩ =
      cs.foldl Lexer.step
        ⟨done, .number { d with stage := .fraction, fraction := ds.reverse ++ d.fraction }⟩ := by
  induction ds generalizing d with
  | nil => exact absurd rfl hne
  | cons digit ds ih =>
    have hstep : Lexer.step ⟨done, .number d⟩ digit.toChar =
        ⟨done, .number { d with stage := .fraction, fraction := digit :: d.fraction }⟩ := by
      rcases h with h | h <;> simp only [Lexer.step, push_digit, pushDigit, h]
    simp only [List.map_cons, List.cons_append, List.foldl_cons, hstep]
    rcases eq_or_ne ds [] with rfl | hds
    · rfl
    · rw [ih (.inr rfl) hds]
      simp

private theorem foldl_exponent (h : d.stage = .markSign ∨ d.stage = .exponent) (hne : ds ≠ []) :
    (ds.map Digit.toChar ++ cs).foldl Lexer.step ⟨done, .number d⟩ =
      cs.foldl Lexer.step
        ⟨done, .number { d with stage := .exponent, exponent := ofDigitsFrom d.exponent ds }⟩ := by
  induction ds generalizing d with
  | nil => exact absurd rfl hne
  | cons digit ds ih =>
    have hstep : Lexer.step ⟨done, .number d⟩ digit.toChar =
        ⟨done, .number { d with stage := .exponent, exponent := 10 * d.exponent + digit.val }⟩ := by
      rcases h with h | h <;> simp only [Lexer.step, push_digit, pushDigit, h]
    simp only [List.map_cons, List.cons_append, List.foldl_cons, hstep]
    rcases eq_or_ne ds [] with rfl | hds
    · rfl
    · rw [ih (.inr rfl) hds]
      simp

end NumberDraft

/-- The first digit of a number decides whether more digits of its whole part may come. -/
theorem foldl_firstDigit (negative : Bool) (first : Digit) :
    ((if negative then ['-'] else []) ++ [first.toChar]).foldl Lexer.step ⟨done, .between⟩ =
      ⟨done, .number
        ⟨if first.val = 0 then .zero else .whole, negative, first.val, [], false, 0⟩⟩ := by
  cases negative <;> fin_cases first <;> rfl

/-- The whole part of a number, with its sign in front. -/
theorem foldl_natText (done : List Token) (n : Nat) (negative : Bool) (cs : List Char) :
    ∃ stage, (stage = .zero ∨ stage = .whole) ∧
      ((if negative then ['-'] else []) ++ (natText n).toList ++ cs).foldl Lexer.step
          ⟨done, .between⟩ =
        cs.foldl Lexer.step ⟨done, .number ⟨stage, negative, n, [], false, 0⟩⟩ := by
  obtain ⟨first, more, hdigits⟩ := List.exists_cons_of_ne_nil (digits_ne_nil n)
  have hchars : (if negative then ['-'] else []) ++ (natText n).toList ++ cs =
      ((if negative then ['-'] else []) ++ [first.toChar]) ++ (more.map Digit.toChar ++ cs) := by
    simp [natText, digitText, hdigits]
  have hvalue : ofDigitsFrom first.val more = n := by
    have hspelled := ofDigits_digits n
    rwa [hdigits, ofDigits, ofDigitsFrom_cons, Nat.mul_zero, Nat.zero_add] at hspelled
  rw [hchars, List.foldl_append, foldl_firstDigit]
  by_cases hzero : first.val = 0
  · -- Only the number zero begins with the digit zero, and no digit follows it.
    have hn : n = 0 := by
      by_contra hne
      exact head?_digits_ne_zero (Nat.pos_of_ne_zero hne) first (by simp [hdigits]) hzero
    have hmore : more = [] := by
      subst hn
      simpa [digits_of_lt] using (congrArg List.tail hdigits).symm
    refine ⟨.zero, .inl rfl, ?_⟩
    simp [hzero, hmore, hn]
  · refine ⟨.whole, .inr rfl, ?_⟩
    rw [if_neg hzero, NumberDraft.foldl_whole rfl, hvalue]

/-- The characters of the fraction of a numeral. -/
def fractionChars (fraction : List Digit) : List Char :=
  if fraction.isEmpty then [] else '.' :: fraction.map Digit.toChar

/-- The characters of the exponent of a numeral. -/
def exponentChars : Option Int → List Char
  | none => []
  | some e => 'e' :: (if e < 0 then '-' else '+') :: (digits e.natAbs).map Digit.toChar

/-- The characters of a number: sign, whole part, fraction and exponent. -/
theorem toList_text (n : Numeral) :
    n.text.toList = (if n.negative then ['-'] else []) ++ (natText n.whole).toList ++
      fractionChars n.fraction ++ exponentChars n.exponent := by
  obtain ⟨negative, whole, fraction, _ | e⟩ := n
  · cases negative <;> cases fraction <;>
      simp [Numeral.text, fractionChars, exponentChars, digitText]
  · by_cases h : e < 0 <;> cases negative <;> cases fraction <;>
      simp [Numeral.text, fractionChars, exponentChars, digitText, natText, h]

private theorem foldl_fractionChars (done : List Token) {d : NumberDraft}
    (h : d.stage = .zero ∨ d.stage = .whole)
    (hfraction : d.fraction = []) (fraction : List Digit) (cs : List Char) :
    ∃ stage, (stage = .zero ∨ stage = .whole ∨ stage = .fraction) ∧
      (fractionChars fraction ++ cs).foldl Lexer.step ⟨done, .number d⟩ =
        cs.foldl Lexer.step
          ⟨done, .number { d with stage := stage, fraction := fraction.reverse }⟩ := by
  rcases fraction with _ | ⟨digit, more⟩
  · refine ⟨d.stage, by tauto, ?_⟩
    obtain ⟨stage, negative, whole, fraction, exponentNegative, exponent⟩ := d
    obtain rfl : fraction = [] := hfraction
    rfl
  · have hpoint : Lexer.step ⟨done, .number d⟩ '.' =
        ⟨done, .number { d with stage := .point }⟩ := by
      rcases h with h | h <;> simp [Lexer.step, NumberDraft.push, Digit.ofChar?, h]
    have hchars : fractionChars (digit :: more) = '.' :: (digit :: more).map Digit.toChar := rfl
    refine ⟨.fraction, by tauto, ?_⟩
    rw [hchars, List.cons_append, List.foldl_cons, hpoint,
      NumberDraft.foldl_fraction (.inl rfl) (List.cons_ne_nil _ _)]
    simp only [hfraction, List.append_nil]

private theorem foldl_exponentChars (done : List Token) {d : NumberDraft}
    (h : d.stage = .zero ∨ d.stage = .whole ∨ d.stage = .fraction)
    (hexponent : d.exponent = 0 ∧ d.exponentNegative = false) (exponent : Option Int)
    (cs : List Char) :
    ∃ d' : NumberDraft, d'.isComplete = true ∧
      d'.numeral = ⟨d.negative, d.whole, d.fraction.reverse, exponent⟩ ∧
      (exponentChars exponent ++ cs).foldl Lexer.step ⟨done, .number d⟩ =
        cs.foldl Lexer.step ⟨done, .number d'⟩ := by
  cases exponent with
  | none =>
    refine ⟨d, ?_, ?_, rfl⟩ <;> rcases h with h | h | h <;>
      simp [NumberDraft.isComplete, NumberDraft.numeral, h]
  | some e =>
    have hmark : Lexer.step ⟨done, .number d⟩ 'e' = ⟨done, .number { d with stage := .mark }⟩ := by
      rcases h with h | h | h <;> simp [Lexer.step, NumberDraft.push, Digit.ofChar?, h]
    have hsign : Lexer.step ⟨done, .number { d with stage := .mark }⟩ (if e < 0 then '-' else '+') =
        ⟨done, .number { d with stage := .markSign, exponentNegative := decide (e < 0) }⟩ := by
      by_cases he : e < 0 <;>
        simp [Lexer.step, NumberDraft.push, Digit.ofChar?, he, hexponent.2]
    have hvalue : ofDigitsFrom 0 (digits e.natAbs) = e.natAbs := ofDigits_digits _
    refine ⟨{ d with stage := .exponent, exponentNegative := decide (e < 0), exponent := e.natAbs },
      rfl, ?_, ?_⟩
    · have hcast : (if e < 0 then -(e.natAbs : Int) else e.natAbs) = e := by omega
      simp only [NumberDraft.numeral, decide_eq_true_eq, hcast]
    · simp only [exponentChars, List.cons_append, List.foldl_cons, hmark, hsign]
      rw [NumberDraft.foldl_exponent (.inl rfl) (digits_ne_nil _)]
      simp only [hexponent.1, hvalue]

private theorem lex_number (n : Numeral) (hrest : Ends rest) :
    lex done (n.text.toList ++ rest) = lex (.number n :: done) rest := by
  obtain ⟨stage, hstage, hwhole⟩ := foldl_natText done n.whole n.negative
    (fractionChars n.fraction ++ (exponentChars n.exponent ++ rest))
  obtain ⟨stage', hstage', hfraction⟩ := foldl_fractionChars done
    (d := ⟨stage, n.negative, n.whole, [], false, 0⟩) hstage rfl n.fraction
    (exponentChars n.exponent ++ rest)
  obtain ⟨d, hcomplete, hnumeral, hexponent⟩ := foldl_exponentChars done
    (d := ⟨stage', n.negative, n.whole, n.fraction.reverse, false, 0⟩) hstage' ⟨rfl, rfl⟩
    n.exponent rest
  have hread : d.numeral = n := by simp [hnumeral]
  rw [lex, toList_text, List.append_assoc, List.append_assoc, hwhole, hfraction, hexponent,
    NumberDraft.lex_of_isComplete hcomplete hrest, hread]

/-! ## Texts -/

namespace TextDraft

/-- A text without escapes so far, its characters in reverse. -/
def plain (chars : List Char) : TextDraft := ⟨chars, none, true⟩

private theorem pushChar_plain (chars : List Char) (c : Char) :
    (plain chars).pushChar c = plain (c :: chars) := rfl

private theorem content_plain (chars : List Char) :
    (plain chars).content = some (String.ofList chars.reverse) := rfl

end TextDraft

private theorem hexValue?_hexDigit (n : Fin 16) : hexValue? (hexDigit n) = some n.val := by
  revert n
  decide

private theorem step_code {d : TextDraft} {value missing h : Nat} {c : Char}
    (hc : hexValue? c = some h) :
    Lexer.step ⟨done, .code d value missing⟩ c =
      if missing ≤ 1 then ⟨done, .text (d.pushCode (16 * value + h))⟩
      else ⟨done, .code d (16 * value + h) (missing - 1)⟩ := by
  simp only [Lexer.step, hc]

/-- An escaped character is read back. -/
theorem foldl_escapeChar (chars : List Char) (c : Char) :
    (escapeChar c).foldl Lexer.step ⟨done, .text (.plain chars)⟩ =
      ⟨done, .text (.plain (c :: chars))⟩ := by
  unfold escapeChar
  split_ifs with hquote hbackslash hbackspace hfeed hline hreturn htab hcontrol
  · subst hquote; rfl
  · subst hbackslash; rfl
  · subst hbackspace; rfl
  · subst hfeed; rfl
  · subst hline; rfl
  · subst hreturn; rfl
  · subst htab; rfl
  · have hhigh := hexValue?_hexDigit ⟨c.toNat / 16, by omega⟩
    have hlow := hexValue?_hexDigit ⟨c.toNat % 16, by omega⟩
    simp only at hhigh hlow
    have hvalue : 16 * (16 * 0 + c.toNat / 16) + c.toNat % 16 = c.toNat := by omega
    have hbegun : ['\\', 'u', '0', '0'].foldl Lexer.step ⟨done, .text (.plain chars)⟩ =
        ⟨done, .code (.plain chars) 0 2⟩ := rfl
    have hcode : (TextDraft.plain chars).pushCode c.toNat = .plain (c :: chars) := by
      rw [TextDraft.pushCode, if_neg (by omega), if_neg (by omega), Char.ofNat_toNat]
      rfl
    change [hexDigit (c.toNat / 16), hexDigit (c.toNat % 16)].foldl Lexer.step
      (['\\', 'u', '0', '0'].foldl Lexer.step ⟨done, .text (.plain chars)⟩) = _
    rw [hbegun, List.foldl_cons, step_code hhigh, if_neg (by decide), List.foldl_cons,
      step_code hlow, if_pos (by decide), hvalue, hcode, List.foldl_nil]
  · simp [Lexer.step, Lexer.stepText, hquote, hbackslash, hcontrol, TextDraft.pushChar_plain]

private theorem foldl_escapeChars (chars cs : List Char) :
    (cs.flatMap escapeChar).foldl Lexer.step ⟨done, .text (.plain chars)⟩ =
      ⟨done, .text (.plain (cs.reverse ++ chars))⟩ := by
  induction cs generalizing chars with
  | nil => rfl
  | cons c cs ih =>
    rw [List.flatMap_cons, List.foldl_append, foldl_escapeChar, ih]
    simp

private theorem lex_text (s : Option String) :
    lex done (writeText s ++ rest) = lex (.text s :: done) rest := by
  cases s with
  | none => rfl
  | some s =>
    have hclosed : Lexer.step ⟨done, .text (.plain s.toList.reverse)⟩ '"' =
        ⟨.text (some s) :: done, .between⟩ := by
      simp [Lexer.step, Lexer.stepText, Lexer.emit, TextDraft.content_plain]
    have hopened : Lexer.step ⟨done, .between⟩ '"' = ⟨done, .text (.plain [])⟩ := rfl
    rw [lex, lex, writeText, List.cons_append, List.cons_append, List.append_assoc, List.foldl_cons,
      hopened, List.foldl_append, foldl_escapeChars, List.append_nil, List.singleton_append,
      List.foldl_cons, hclosed]

/-! ## Words and blanks -/

private theorem lex_null : lex done (writeNull ++ rest) = lex (.null :: done) rest := rfl

private theorem lex_bool (b : Bool) :
    lex done (writeBool b ++ rest) = lex (.bool b :: done) rest := by
  cases b <;> rfl

private theorem lex_newLine (level : Nat) : lex done (newLine level ++ rest) = lex done rest := by
  have hblanks : ∀ k, lex done (List.replicate k ' ' ++ rest) = lex done rest := by
    intro k
    induction k with
    | zero => rfl
    | succ k ih => exact ih
  exact hblanks (2 * level)

/-! ## Documents -/

mutual

/-- The tokens of a document. -/
def tokens : Json → List Token
  | .null => [.null]
  | .bool b => [.bool b]
  | .number n => [.number n]
  | .string s => [.text s]
  | .array items => .openList :: itemTokens items ++ [.closeList]
  | .object fields => .openObject :: fieldTokens fields ++ [.closeObject]
termination_by structural v => v

/-- The tokens of items with commas between them. -/
def itemTokens : List Json → List Token
  | [] => []
  | v :: vs => tokens v ++ (if vs.isEmpty then [] else .comma :: itemTokens vs)
termination_by structural vs => vs

/-- The tokens of fields with commas between them. -/
def fieldTokens : List (Key × Json) → List Token
  | [] => []
  | (key, v) :: fields =>
    .text key :: .colon :: tokens v
      ++ (if fields.isEmpty then [] else .comma :: fieldTokens fields)
termination_by structural fields => fields

end

private theorem lex_openList : lex done ('[' :: rest) = lex (.openList :: done) rest := rfl

private theorem lex_closeList : lex done (']' :: rest) = lex (.closeList :: done) rest := rfl

private theorem lex_openObject : lex done ('\x7b' :: rest) = lex (.openObject :: done) rest := rfl

private theorem lex_closeObject : lex done ('\x7d' :: rest) = lex (.closeObject :: done) rest := rfl

private theorem lex_comma : lex done (',' :: rest) = lex (.comma :: done) rest := rfl

private theorem lex_colon : lex done (':' :: rest) = lex (.colon :: done) rest := rfl

private theorem lex_blank : lex done (' ' :: rest) = lex done rest := rfl

mutual

/-- A compact document is cut into its tokens. -/
theorem lex_compact (v : Json) (done : List Token) (rest : List Char) (hrest : Ends rest) :
    lex done (compact v ++ rest) = lex ((tokens v).reverse ++ done) rest := by
  match v with
  | .null => exact lex_null
  | .bool b => exact lex_bool b
  | .number n => exact lex_number n hrest
  | .string s => exact lex_text s
  | .array items =>
    have hitems := lex_compactItems items (.openList :: done) (']' :: rest) (by simp)
    simp only [compact, List.cons_append, List.append_assoc, List.nil_append, lex_openList, hitems,
      lex_closeList]
    simp [tokens]
  | .object fields =>
    have hfields := lex_compactFields fields (.openObject :: done) ('\x7d' :: rest) (by simp)
    simp only [compact, List.cons_append, List.append_assoc, List.nil_append, lex_openObject,
      hfields, lex_closeObject]
    simp [tokens]

private theorem lex_compactItems (vs : List Json) (done : List Token) (rest : List Char)
    (hrest : Ends rest) :
    lex done (compactItems vs ++ rest) = lex ((itemTokens vs).reverse ++ done) rest := by
  match vs with
  | [] => rfl
  | [v] => simpa [compactItems, itemTokens] using lex_compact v done rest hrest
  | v :: w :: vs =>
    have hvalue := lex_compact v done (',' :: (compactItems (w :: vs) ++ rest)) (by simp)
    have hmore := lex_compactItems (w :: vs) (.comma :: ((tokens v).reverse ++ done)) rest hrest
    rw [compactItems, itemTokens]
    simp only [List.isEmpty_cons, Bool.false_eq_true, if_false, List.append_assoc, List.cons_append,
      hvalue, lex_comma, hmore]
    simp

private theorem lex_compactFields (fields : List (Key × Json)) (done : List Token)
    (rest : List Char)
    (hrest : Ends rest) :
    lex done (compactFields fields ++ rest) = lex ((fieldTokens fields).reverse ++ done) rest := by
  match fields with
  | [] => rfl
  | [(key, v)] =>
    have hvalue := lex_compact v (.colon :: .text key :: done) rest hrest
    simp only [compactFields, fieldTokens, List.isEmpty_nil, if_true, List.append_nil,
      List.append_assoc, List.cons_append, lex_text, lex_colon, hvalue]
    simp
  | (key, v) :: field :: fields =>
    have hvalue := lex_compact v (.colon :: .text key :: done)
      (',' :: (compactFields (field :: fields) ++ rest)) (by simp)
    have hmore := lex_compactFields (field :: fields)
      (.comma :: ((tokens v).reverse ++ .colon :: .text key :: done)) rest hrest
    rw [compactFields, fieldTokens]
    simp only [List.isEmpty_cons, Bool.false_eq_true, if_false, List.append_assoc, List.cons_append,
      lex_text, lex_colon, hvalue, lex_comma, hmore]
    simp

end

private theorem ends_newLine (level : Nat) : Ends (newLine level ++ rest) := by
  simp [newLine]

mutual

/-- An indented document is cut into the same tokens. -/
theorem lex_indented (v : Json) (level : Nat) (done : List Token) (rest : List Char)
    (hrest : Ends rest) :
    lex done (indented level v ++ rest) = lex ((tokens v).reverse ++ done) rest := by
  match v with
  | .null => exact lex_null
  | .bool b => exact lex_bool b
  | .number n => exact lex_number n hrest
  | .string s => exact lex_text s
  | .array [] => rfl
  | .array (v :: vs) =>
    have hitems := lex_indentedItems (v :: vs) (level + 1) (.openList :: done)
      (newLine level ++ ']' :: rest) (ends_newLine level)
    simp only [indented, List.isEmpty_cons, Bool.false_eq_true, if_false, List.cons_append,
      List.append_assoc, List.nil_append, lex_openList, hitems, lex_newLine, lex_closeList]
    simp [tokens]
  | .object [] => rfl
  | .object (field :: fields) =>
    have hfields := lex_indentedFields (field :: fields) (level + 1) (.openObject :: done)
      (newLine level ++ '\x7d' :: rest) (ends_newLine level)
    simp only [indented, List.isEmpty_cons, Bool.false_eq_true, if_false, List.cons_append,
      List.append_assoc, List.nil_append, lex_openObject, hfields, lex_newLine, lex_closeObject]
    simp [tokens]

private theorem lex_indentedItems (vs : List Json) (level : Nat) (done : List Token)
    (rest : List Char)
    (hrest : Ends rest) :
    lex done (indentedItems level vs ++ rest) = lex ((itemTokens vs).reverse ++ done) rest := by
  match vs with
  | [] => rfl
  | [v] =>
    simpa [indentedItems, itemTokens, lex_newLine] using lex_indented v level done rest hrest
  | v :: w :: vs =>
    have hvalue := lex_indented v level done (',' :: (indentedItems level (w :: vs) ++ rest))
      (by simp)
    have hmore := lex_indentedItems (w :: vs) level (.comma :: ((tokens v).reverse ++ done)) rest
      hrest
    rw [indentedItems, itemTokens]
    simp only [List.isEmpty_cons, Bool.false_eq_true, if_false, List.append_assoc, List.cons_append,
      lex_newLine, hvalue, lex_comma, hmore]
    simp

private theorem lex_indentedFields (fields : List (Key × Json)) (level : Nat) (done : List Token)
    (rest : List Char) (hrest : Ends rest) :
    lex done (indentedFields level fields ++ rest) =
      lex ((fieldTokens fields).reverse ++ done) rest := by
  match fields with
  | [] => rfl
  | [(key, v)] =>
    have hvalue := lex_indented v level (.colon :: .text key :: done) rest hrest
    simp only [indentedFields, fieldTokens, List.isEmpty_nil, if_true, List.append_nil,
      List.append_assoc, List.cons_append, List.nil_append, lex_newLine, lex_text, lex_colon,
      lex_blank, hvalue]
    simp
  | (key, v) :: field :: fields =>
    have hvalue := lex_indented v level (.colon :: .text key :: done)
      (',' :: (indentedFields level (field :: fields) ++ rest)) (by simp)
    have hmore := lex_indentedFields (field :: fields) level
      (.comma :: ((tokens v).reverse ++ .colon :: .text key :: done)) rest hrest
    rw [indentedFields, fieldTokens]
    simp only [List.isEmpty_cons, Bool.false_eq_true, if_false, List.append_assoc, List.cons_append,
      List.nil_append, lex_newLine, lex_text, lex_colon, lex_blank, hvalue, lex_comma, hmore]
    simp

end

/-! ## The grammar -/

namespace Parser

/-- The grammar after some tokens. -/
def run (p : Parser) (ts : List Token) : Except Fault Parser := ts.foldlM step p

private theorem run_cons {p q : Parser} {t : Token} (h : step p t = .ok q) (ts : List Token) :
    run p (t :: ts) = run q ts := by
  rw [run, List.foldlM_cons, h]
  rfl

/-- The first item of a list stands where any value may stand, as none begins like a list's end. -/
theorem run_firstItem (v : Json) (stack : List Context) (ts : List Token) :
    run (.firstItem stack) (tokens v ++ ts) =
      run (.value false (.inList [] :: stack)) (tokens v ++ ts) := by
  cases v <;> rfl

end Parser

open Json.Parser (run run_cons run_firstItem give)

mutual

/-- The tokens of a document spell it. -/
theorem parse_tokens (v : Json) (afterComma : Bool) (stack : List Context) (ts : List Token) :
    run (.value afterComma stack) (tokens v ++ ts) = run (give v stack) ts := by
  match v with
  | .null => rfl
  | .bool b => rfl
  | .number n => rfl
  | .string s => rfl
  | .array [] => rfl
  | .array (v :: vs) =>
    have hitems := parse_itemTokens (v :: vs) false [] stack ts (List.cons_ne_nil _ _)
    rw [tokens, List.cons_append, List.cons_append, List.append_assoc, run_cons rfl]
    rw [itemTokens, List.append_assoc] at hitems ⊢
    rwa [run_firstItem]
  | .object [] => rfl
  | .object (field :: fields) =>
    have hfields := parse_fieldTokens (field :: fields) false [] stack ts (List.cons_ne_nil _ _)
    rw [tokens, List.cons_append, List.cons_append, List.append_assoc, run_cons rfl]
    exact hfields

private theorem parse_itemTokens (vs : List Json) (afterComma : Bool) (done : List Json)
    (stack : List Context) (ts : List Token) (hne : vs ≠ []) :
    run (.value afterComma (.inList done :: stack)) (itemTokens vs ++ .closeList :: ts) =
      run (give (.array (done.reverse ++ vs)) stack) ts := by
  match vs with
  | [] => exact absurd rfl hne
  | [v] =>
    rw [itemTokens, List.append_assoc, parse_tokens v, List.isEmpty_nil, if_pos rfl,
      List.nil_append, run_cons rfl, List.reverse_cons]
  | v :: w :: vs =>
    have hmore := parse_itemTokens (w :: vs) true (v :: done) stack ts (List.cons_ne_nil _ _)
    rw [itemTokens, List.append_assoc, parse_tokens v, List.isEmpty_cons, if_neg (by decide),
      List.cons_append, run_cons rfl, hmore, List.reverse_cons, List.append_assoc]
    rfl

private theorem parse_fieldTokens (fields : List (Key × Json)) (afterComma : Bool)
    (done : List (Key × Json)) (stack : List Context) (ts : List Token) (hne : fields ≠ []) :
    run (.key afterComma done stack) (fieldTokens fields ++ .closeObject :: ts) =
      run (give (.object (done.reverse ++ fields)) stack) ts := by
  match fields with
  | [] => exact absurd rfl hne
  | [(key, v)] =>
    rw [fieldTokens, List.append_assoc, List.cons_append, run_cons rfl, List.cons_append,
      run_cons rfl, parse_tokens v, List.isEmpty_nil, if_pos rfl, List.nil_append, run_cons rfl,
      List.reverse_cons]
  | (key, v) :: field :: fields =>
    have hmore := parse_fieldTokens (field :: fields) true ((key, v) :: done) stack ts
      (List.cons_ne_nil _ _)
    rw [fieldTokens, List.append_assoc, List.cons_append, run_cons rfl, List.cons_append,
      run_cons rfl, parse_tokens v, List.isEmpty_cons, if_neg (by decide), List.cons_append,
      run_cons rfl, hmore, List.reverse_cons, List.append_assoc]
    rfl

end

/-- A document is read from any text with its tokens. -/
theorem read_of_tokensOf {s : String} {v : Json} (h : tokensOf s.toList = tokens v) :
    read s = .ok v := by
  have hparse := parse_tokens v false [] []
  rw [List.append_nil] at hparse
  change (run Parser.start (tokensOf s.toList) >>= Parser.finish) = _
  rw [h, Parser.start, hparse]
  rfl

/-- A compact document is read back. -/
theorem read_compactText (v : Json) : read v.compactText = .ok v := by
  have hlex := lex_compact v [] [] ends_nil
  apply read_of_tokensOf
  rw [compactText, String.toList_ofList]
  rw [List.append_nil, List.append_nil] at hlex
  exact hlex.trans (List.reverse_reverse _)

/-- An indented document is read back. -/
theorem read_indentedText (v : Json) : read v.indentedText = .ok v := by
  have hlex := lex_indented v 0 [] [] ends_nil
  apply read_of_tokensOf
  rw [indentedText, String.toList_ofList]
  rw [List.append_nil, List.append_nil] at hlex
  exact hlex.trans (List.reverse_reverse _)

end PathSelection.Json
