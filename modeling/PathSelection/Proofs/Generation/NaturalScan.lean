import PathSelection.Proofs.Generation.NaturalOrder
import PathSelection.Proofs.Number.Digits

/-!
# Names read from left to right

Names can be compared without cutting them into pieces first.  If both names go on with a
digit, one round compares two whole runs of digits, which may be longer than any machine
word, by their characters alone; else it compares one character of each name.  A round that
does not decide leaves the rests of both names to the next one.

Main results:

- Instance `Std.LawfulEqCmp naturalOrder`: names are equal in natural order only if they are
  the same.
- Theorem `NaturalScan.ends_iff`: the rounds come to an end, and to that of the natural order.
- Theorem `naturalOrder_of_natOfChars?`: names that differ by a number are ordered by it.
-/

namespace PathSelection

/-! ## Pieces of names -/

namespace NameToken

/-- The characters of a piece. -/
def chars : NameToken → List Char
  | number run => run.map Digit.toChar
  | letter c => [c]

private theorem flatMap_chars_cons (c : Char) (rest : List NameToken) :
    (cons c rest).flatMap chars = c :: rest.flatMap chars := by
  cases hc : Digit.ofChar? c with
  | none => simp [cons, hc, chars]
  | some d =>
    obtain rfl := Digit.toChar_of_ofChar? hc
    rcases rest with _ | ⟨_ | _, rest⟩ <;> simp [cons, chars]

private theorem flatMap_chars_ofChars (cs : List Char) : (ofChars cs).flatMap chars = cs := by
  induction cs with
  | nil => rfl
  | cons c cs ih => rw [ofChars, flatMap_chars_cons, ih]

/-- A name can be put together from its pieces again. -/
theorem ofChars_injective : Function.Injective ofChars :=
  Function.LeftInverse.injective flatMap_chars_ofChars

private theorem ofChars_cons_ne_nil (c : Char) (cs : List Char) : ofChars (c :: cs) ≠ [] :=
  fun hnil => by
  have hchars := flatMap_chars_ofChars (c :: cs)
  rw [hnil] at hchars
  cases hchars

private theorem ofChars_cons_of_not_isDigit {c : Char} (h : c.isDigit = false) (cs : List Char) :
    ofChars (c :: cs) = letter c :: ofChars cs := by
  simp only [ofChars, cons, Digit.ofChar?_eq_none_iff.2 h]

/-- A run of digits is one piece if no other digit follows. -/
theorem ofChars_run_append {run : List Digit} (hrun : run ≠ []) {rest : List Char}
    (hrest : ∀ c ∈ rest.head?, c.isDigit = false) :
    ofChars (run.map Digit.toChar ++ rest) = number run :: ofChars rest := by
  induction run with
  | nil => exact absurd rfl hrun
  | cons d run ih =>
    simp only [List.map_cons, List.cons_append, ofChars, cons, Digit.ofChar?_toChar]
    by_cases hlast : run = []
    · subst hlast
      cases rest with
      | nil => rfl
      | cons c cs =>
        rw [List.map_nil, List.nil_append, ofChars_cons_of_not_isDigit (hrest c rfl)]
    · rw [ih hlast]

/-- The pieces of a name that goes on with a digit. -/
theorem exists_ofChars_of_isDigit {c : Char} (h : c.isDigit = true) (cs : List Char) :
    ∃ run, (c :: cs).takeWhile Char.isDigit = run.map Digit.toChar ∧
      ofChars (c :: cs) = number run :: ofChars ((c :: cs).dropWhile Char.isDigit) := by
  obtain ⟨run, hrun⟩ := Digit.exists_takeWhile_isDigit (c :: cs)
  refine ⟨run, hrun, ?_⟩
  have hne : run ≠ [] := by
    rintro rfl
    simp [List.takeWhile_cons_of_pos h] at hrun
  have hrest : ∀ d ∈ ((c :: cs).dropWhile Char.isDigit).head?, d.isDigit = false := by
    have hhead := List.head?_dropWhile_not Char.isDigit (c :: cs)
    intro d hd
    rwa [hd] at hhead
  have hpieces := ofChars_run_append hne hrest
  rwa [← hrun, List.takeWhile_append_dropWhile] at hpieces

private theorem cons_append {pieces : List NameToken} (h : pieces ≠ []) (c : Char)
    (rest : List NameToken) : cons c (pieces ++ rest) = cons c pieces ++ rest := by
  obtain ⟨piece, pieces, rfl⟩ := List.exists_cons_of_ne_nil h
  cases piece <;> cases hc : Digit.ofChar? c <;> simp [cons, hc]

/-- A name can be cut behind a character that is not a digit. -/
theorem ofChars_append {front : List Char} (h : ∀ c ∈ front.getLast?, c.isDigit = false)
    (rest : List Char) : ofChars (front ++ rest) = ofChars front ++ ofChars rest := by
  induction front with
  | nil => rfl
  | cons c front ih =>
    cases front with
    | nil =>
      have hc : c.isDigit = false := h c rfl
      rw [List.singleton_append, ofChars_cons_of_not_isDigit hc, ofChars_cons_of_not_isDigit hc]
      rfl
    | cons d front =>
      have hfront := ih (by rwa [List.getLast?_cons_cons] at h)
      rw [List.cons_append, ofChars, hfront, cons_append (ofChars_cons_ne_nil d front), ← ofChars]

/-! ## Equal names -/

private theorem compareRuns_eq_eq {r s : List Digit} : compareRuns r s = .eq ↔ r = s := by
  rw [compareRuns, Ordering.then_eq_eq, Nat.compare_eq_eq, Nat.compare_eq_eq]
  exact ⟨fun h => ofDigits_inj h.2 h.1, by rintro rfl; exact ⟨rfl, rfl⟩⟩

instance : Std.LawfulEqCmp order where
  compare_self := Std.ReflCmp.compare_self
  eq_of_compare := fun {a b} h => by
    cases a with
    | number r =>
      cases b with
      | number s => rw [compareRuns_eq_eq.1 h]
      | letter d => simp [order] at h
    | letter c =>
      cases b with
      | number s => simp [order] at h
      | letter d => rw [Std.LawfulEqOrd.eq_of_compare (h : compare c d = .eq)]

end NameToken

instance : Std.LawfulEqCmp naturalOrder where
  compare_self := Std.ReflCmp.compare_self
  eq_of_compare := fun h =>
    String.toList_injective (NameToken.ofChars_injective
      (@Std.LawfulEqCmp.eq_of_compare _ (List.compareLex NameToken.order) _ _ _ h))

/-! ## Rounds -/

namespace NaturalScan

/-- Runs of digits by their characters: first by how many there are without zeros in front, then by
the first one that differs, and for the same number by how many there are with the zeros. -/
def orderRuns (r s : List Char) : Ordering :=
  let r' := r.dropWhile (· == '0')
  let s' := s.dropWhile (· == '0')
  ((compare r'.length s'.length).then (compare r' s')).then (compare r.length s.length)

/-- One round of a comparison: the order it decides on, or what it leaves of both names. -/
def round : List Char → List Char → Ordering ⊕ (List Char × List Char)
  | [], [] => .inl .eq
  | [], _ :: _ => .inl .lt
  | _ :: _, [] => .inl .gt
  | c :: cs, d :: ds =>
    if c.isDigit && d.isDigit then
      match orderRuns ((c :: cs).takeWhile Char.isDigit) ((d :: ds).takeWhile Char.isDigit) with
      | .eq => .inr ((c :: cs).dropWhile Char.isDigit, (d :: ds).dropWhile Char.isDigit)
      | o => .inl o
    else if c = d then .inr (cs, ds)
    else .inl (compare c d)

/-- Rounds that start with these names come to an end and decide on this order. -/
inductive Ends : List Char → List Char → Ordering → Prop where
  | decided {a b : List Char} {o : Ordering} (h : round a b = .inl o) : Ends a b o
  | goesOn {a b a' b' : List Char} {o : Ordering} (h : round a b = .inr (a', b'))
      (rest : Ends a' b' o) : Ends a b o

/-- The order of names by their pieces. -/
def pieceOrder (a b : List Char) : Ordering :=
  List.compareLex NameToken.order (NameToken.ofChars a) (NameToken.ofChars b)

/-- The order of two names is what a round decides on, or else the order of what it leaves. -/
def Upholds (a b : List Char) : Ordering ⊕ (List Char × List Char) → Prop
  | .inl o => pieceOrder a b = o
  | .inr (a', b') => pieceOrder a b = pieceOrder a' b' ∧ a'.length < a.length

variable {a b : List Char} {c d : Char} {o : Ordering}

private theorem compare_map_toChar (r s : List Digit) :
    compare (r.map Digit.toChar) (s.map Digit.toChar) = compare r s := by
  induction r generalizing s with
  | nil => cases s <;> rfl
  | cons d r ih =>
    cases s with
    | nil => rfl
    | cons e s =>
      rw [List.map_cons, List.map_cons, List.compare_cons_cons, List.compare_cons_cons,
        Digit.compare_toChar, ih]

private theorem dropWhile_map_toChar (r : List Digit) :
    (r.map Digit.toChar).dropWhile (· == '0') = (trimZeros r).map Digit.toChar := by
  have hzero : (fun d : Digit => d.toChar == '0') = (· == Digit.zero) := by
    funext d
    revert d
    decide
  rw [List.dropWhile_map, trimZeros, ← hzero]
  rfl

/-- Runs of digits need not be read as numbers to be compared as numbers. -/
theorem orderRuns_map_toChar (r s : List Digit) :
    orderRuns (r.map Digit.toChar) (s.map Digit.toChar) = NameToken.compareRuns r s := by
  simp only [orderRuns, dropWhile_map_toChar, compare_map_toChar, List.length_map,
    NameToken.compareRuns, compare_ofDigits]

private theorem upholds_of_digits (hc : c.isDigit = true) (hd : d.isDigit = true)
    (cs ds : List Char) :
    Upholds (c :: cs) (d :: ds) (round (c :: cs) (d :: ds)) := by
  obtain ⟨r, hr, hc'⟩ := NameToken.exists_ofChars_of_isDigit hc cs
  obtain ⟨s, hs, hd'⟩ := NameToken.exists_ofChars_of_isDigit hd ds
  have horder : pieceOrder (c :: cs) (d :: ds) = (NameToken.compareRuns r s).then
      (pieceOrder ((c :: cs).dropWhile Char.isDigit) ((d :: ds).dropWhile Char.isDigit)) := by
    rw [pieceOrder, hc', hd', List.compareLex_cons_cons]
    rfl
  have hshorter : ((c :: cs).dropWhile Char.isDigit).length < (c :: cs).length := by
    rw [List.dropWhile_cons_of_pos hc]
    exact Nat.lt_succ_of_le (List.dropWhile_sublist _).length_le
  rw [round, hc, hd, Bool.and_self, if_pos rfl, hr, hs, orderRuns_map_toChar]
  cases hruns : NameToken.compareRuns r s with
  | lt | gt =>
    rw [hruns] at horder
    exact horder
  | eq =>
    rw [hruns] at horder
    exact ⟨horder, hshorter⟩

private theorem pieceOrder_swap (a b : List Char) : pieceOrder b a = (pieceOrder a b).swap :=
  @Std.OrientedCmp.eq_swap _ (List.compareLex NameToken.order) _ _ _

private theorem pieceOrder_nil_cons (c : Char) (cs : List Char) :
    pieceOrder [] (c :: cs) = .lt := by
  obtain ⟨piece, pieces, hpieces⟩ :=
    List.exists_cons_of_ne_nil (NameToken.ofChars_cons_ne_nil c cs)
  rw [pieceOrder, hpieces]
  rfl

/-- A digit is compared with another character as a character. -/
theorem pieceOrder_digit_letter (hc : c.isDigit = true) (hd : d.isDigit = false)
    (cs ds : List Char) : pieceOrder (c :: cs) (d :: ds) = compare c d := by
  obtain ⟨r, -, hr⟩ := NameToken.exists_ofChars_of_isDigit hc cs
  -- The run may start with any digit, but it stands where zero does.
  rw [pieceOrder, hr, NameToken.ofChars_cons_of_not_isDigit hd, List.compareLex_cons_cons,
    NameToken.order, ← Digit.compare_of_isDigit hc hd]
  cases hcd : compare c d with
  | lt | gt => rfl
  | eq =>
    obtain rfl : c = d := Std.LawfulEqOrd.eq_of_compare hcd
    rw [hc] at hd
    cases hd

private theorem pieceOrder_letter_digit (hc : c.isDigit = false) (hd : d.isDigit = true)
    (cs ds : List Char) : pieceOrder (c :: cs) (d :: ds) = compare c d := by
  rw [pieceOrder_swap, pieceOrder_digit_letter hd hc]
  exact Std.OrientedCmp.eq_swap.symm

private theorem upholds_of_mixed (h : c.isDigit = !d.isDigit) (cs ds : List Char) :
    Upholds (c :: cs) (d :: ds) (round (c :: cs) (d :: ds)) := by
  have hboth : (c.isDigit && d.isDigit) = false := by rw [h, Bool.not_and_self]
  have hne : c ≠ d := by
    rintro rfl
    simp at h
  rw [round, hboth, if_neg Bool.false_ne_true, if_neg hne]
  cases hd : d.isDigit with
  | false => exact pieceOrder_digit_letter (by rw [h, hd, Bool.not_false]) hd cs ds
  | true => exact pieceOrder_letter_digit (by rw [h, hd, Bool.not_true]) hd cs ds

private theorem upholds_of_letters (hc : c.isDigit = false) (hd : d.isDigit = false)
    (cs ds : List Char) :
    Upholds (c :: cs) (d :: ds) (round (c :: cs) (d :: ds)) := by
  have horder : pieceOrder (c :: cs) (d :: ds) = (compare c d).then (pieceOrder cs ds) := by
    rw [pieceOrder, NameToken.ofChars_cons_of_not_isDigit hc,
      NameToken.ofChars_cons_of_not_isDigit hd, List.compareLex_cons_cons]
    rfl
  rw [round, hc, Bool.false_and, if_neg Bool.false_ne_true]
  by_cases heq : c = d
  · subst heq
    have hself : compare c c = .eq := Std.ReflCmp.compare_self
    rw [if_pos rfl]
    rw [hself] at horder
    exact ⟨horder, Nat.lt_succ_self _⟩
  · rw [if_neg heq]
    have hdecided : compare c d ≠ .eq := fun h => heq (Std.LawfulEqOrd.eq_of_compare h)
    change pieceOrder (c :: cs) (d :: ds) = compare c d
    rw [horder]
    cases hcd : compare c d with
    | lt | gt => rfl
    | eq => exact absurd hcd hdecided

/-- Each round upholds the order of the names, and the first name gets shorter. -/
theorem upholds_round (a b : List Char) : Upholds a b (round a b) := by
  cases a with
  | nil =>
    cases b with
    | nil => rfl
    | cons d ds => exact pieceOrder_nil_cons d ds
  | cons c cs =>
    cases b with
    | nil => exact (pieceOrder_swap [] (c :: cs)).trans (congrArg _ (pieceOrder_nil_cons c cs))
    | cons d ds =>
      cases hc : c.isDigit <;> cases hd : d.isDigit
      · exact upholds_of_letters hc hd cs ds
      · exact upholds_of_mixed (by simp [hc, hd]) cs ds
      · exact upholds_of_mixed (by simp [hc, hd]) cs ds
      · exact upholds_of_digits hc hd cs ds

/-- Rounds come to an end. -/
theorem ends_pieceOrder (a b : List Char) : Ends a b (pieceOrder a b) := by
  -- Each round takes something off the first name, whether it takes runs or characters.
  induction hlength : a.length using Nat.strongRecOn generalizing a b with
  | ind n ih =>
    have hupholds := upholds_round a b
    cases hround : round a b with
    | inl o =>
      rw [hround] at hupholds
      obtain rfl : pieceOrder a b = o := hupholds
      exact .decided hround
    | inr rests =>
      rw [hround] at hupholds
      obtain ⟨horder, hshorter⟩ := hupholds
      rw [horder]
      exact .goesOn hround (ih _ (hlength ▸ hshorter) _ _ rfl)

/-- Rounds come to no other end. -/
theorem Ends.eq_pieceOrder (h : Ends a b o) : pieceOrder a b = o := by
  induction h with
  | @decided a b o hround =>
    have hupholds := upholds_round a b
    rwa [hround] at hupholds
  | @goesOn a b a' b' o hround rest ih =>
    have hupholds := upholds_round a b
    rw [hround] at hupholds
    exact hupholds.1.trans ih

/-- Rounds come to an end, and to that of the natural order. -/
theorem ends_iff {a b : String} : Ends a.toList b.toList o ↔ naturalOrder a b = o :=
  ⟨Ends.eq_pieceOrder, by rintro rfl; exact ends_pieceOrder _ _⟩

end NaturalScan

/-! ## Names that differ by a number -/

private theorem compareLex_append_left {α : Type} {cmp : α → α → Ordering} [Std.ReflCmp cmp]
    (front xs ys : List α) :
    List.compareLex cmp (front ++ xs) (front ++ ys) = List.compareLex cmp xs ys := by
  induction front with
  | nil => rfl
  | cons a front ih =>
    have hself : cmp a a = .eq := Std.ReflCmp.compare_self
    rw [List.cons_append, List.cons_append, List.compareLex_cons_cons, hself, ih]
    rfl

/-- Names that differ by a number, and perhaps by what stands behind it, are ordered by it. -/
theorem naturalOrder_of_natOfChars? {front r s rest rest' : String} {m n : Nat}
    (hfront : ∀ c ∈ front.toList.getLast?, c.isDigit = false)
    (hrest : ∀ c ∈ rest.toList.head?, c.isDigit = false)
    (hrest' : ∀ c ∈ rest'.toList.head?, c.isDigit = false)
    (hr : natOfChars? r.toList = some m) (hs : natOfChars? s.toList = some n) (h : m ≠ n) :
    naturalOrder (front ++ r ++ rest) (front ++ s ++ rest') = compare m n := by
  obtain ⟨run, hrun, hrun', rfl⟩ := exists_digits_of_natOfChars? hr
  obtain ⟨sun, hsun, hsun', rfl⟩ := exists_digits_of_natOfChars? hs
  simp only [naturalOrder, String.toList_append, List.append_assoc, hrun', hsun',
    NameToken.ofChars_append hfront, NameToken.ofChars_run_append hrun hrest,
    NameToken.ofChars_run_append hsun hrest', compareLex_append_left, List.compareLex_cons_cons,
    NameToken.order, NameToken.compareRuns]
  cases hnumbers : compare (ofDigits run) (ofDigits sun) with
  | lt | gt => rfl
  | eq => exact absurd (Nat.compare_eq_eq.1 hnumbers) h

end PathSelection
