import PathSelection.Number.Digits

/-!
# Natural order

The order of names in which runs of digits count as numbers, so that `qft_9`
comes before `qft_10`.  Runs for the same number are ordered by their length.
-/

namespace PathSelection

/-- A piece of a name: a run of digits that is as long as possible, or another character. -/
inductive NameToken where
  | number (run : List Digit)
  | letter (c : Char)
  deriving DecidableEq, Repr

namespace NameToken

/-- The pieces of a name that a character and other pieces make. -/
def cons (c : Char) (rest : List NameToken) : List NameToken :=
  match Digit.ofChar? c, rest with
  | some d, number run :: rest => number (d :: run) :: rest
  | some d, rest => number [d] :: rest
  | none, rest => letter c :: rest

/-- The pieces of a name. -/
def ofChars : List Char → List NameToken
  | [] => []
  | c :: cs => cons c (ofChars cs)

/-- Runs of digits by their numbers, then by their lengths. -/
def compareRuns (r s : List Digit) : Ordering :=
  (compare (ofDigits r) (ofDigits s)).then (compare r.length s.length)

/-- Pieces of names; a run of digits stands where its digits do among the characters. -/
def order : NameToken → NameToken → Ordering
  | number r, number s => compareRuns r s
  | letter c, letter d => compare c d
  | number _, letter d => (compare '0' d).then .lt
  | letter c, number _ => (compare c '0').then .gt

end NameToken

/-- The natural order of names. -/
def naturalOrder (a b : String) : Ordering :=
  List.compareLex NameToken.order (NameToken.ofChars a.toList) (NameToken.ofChars b.toList)

/-- Names in natural order. -/
def naturalSort (names : List String) : List String :=
  names.mergeSort fun a b => naturalOrder a b != .gt

end PathSelection
