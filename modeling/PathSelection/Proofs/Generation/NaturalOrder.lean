import Mathlib.Data.List.Sort
import Mathlib.Order.Compare
import PathSelection.Generation.NaturalOrder

/-!
# Sorting in natural order

Main result:

- Theorem `pairwise_naturalSort`: names that are sorted come in natural order.
- Theorem `naturalSort_perm`: they are the same names.
-/

namespace PathSelection

namespace NameToken

/-- The character at which a piece stands: a run of digits stands where its digits do. -/
def place : NameToken → Char
  | number _ => '0'
  | letter c => c

/-- Runs of digits come before other characters. -/
def kind : NameToken → Nat
  | number _ => 0
  | letter _ => 1

/-- The digits of a piece. -/
def run : NameToken → List Digit
  | number run => run
  | letter _ => []

/-- Pieces are ordered by their place, their kind, the number and the length of their digits. -/
theorem order_eq : order = compareLex (compareOn place) (compareLex (compareOn kind)
    (compareLex (compareOn fun t => ofDigits t.run) (compareOn fun t => t.run.length))) := by
  have hdigits : compare 0 1 = .lt := rfl
  have hletter : compare 1 0 = .gt := rfl
  funext a b
  cases a with
  | number r =>
    cases b with
    | number q => simp [order, compareRuns, compareLex, compareOn, place, kind, run]
    | letter d => simp [order, compareLex, compareOn, place, kind, hdigits]
  | letter c =>
    cases b with
    | number q => simp [order, compareLex, compareOn, place, kind, hletter]
    | letter d => simp [order, compareLex, compareOn, place, kind, run]

instance : Std.TransCmp order := by
  rw [order_eq]
  infer_instance

end NameToken

instance : Std.TransCmp naturalOrder where
  eq_swap := fun {_ _} => @Std.OrientedCmp.eq_swap _ (List.compareLex NameToken.order) _ _ _
  isLE_trans := fun {_ _ _} =>
    @Std.TransCmp.isLE_trans _ (List.compareLex NameToken.order) _ _ _ _

/-- Names that are sorted come in natural order. -/
theorem pairwise_naturalSort (names : List String) :
    (naturalSort names).Pairwise fun a b => naturalOrder a b ≠ .gt := by
  have hle : ∀ o : Ordering, (o != .gt) = o.isLE := by decide
  have htrans : ∀ a b c, (naturalOrder a b != .gt) = true → (naturalOrder b c != .gt) = true →
      (naturalOrder a c != .gt) = true := by
    intro a b c hab hbc
    rw [hle] at hab hbc ⊢
    exact Std.TransCmp.isLE_trans hab hbc
  have htotal : ∀ a b, ((naturalOrder a b != .gt) || (naturalOrder b a != .gt)) = true := by
    intro a b
    have hswap : naturalOrder b a = (naturalOrder a b).swap := Std.OrientedCmp.eq_swap
    rw [hle, hle, hswap]
    cases naturalOrder a b <;> rfl
  have hsorted := List.pairwise_mergeSort htrans htotal names
  exact hsorted.imp fun hab => by simpa using hab

/-- Names that are sorted are the same names. -/
theorem naturalSort_perm (names : List String) : (naturalSort names).Perm names :=
  List.mergeSort_perm names _

end PathSelection
