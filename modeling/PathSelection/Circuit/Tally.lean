/-!
# Tallies

How often each name occurs, in the order of the names.
-/

namespace PathSelection

/-- Names with their counts, in ascending order of the names. -/
abbrev Tally := List (String × Nat)

namespace Tally

/-- The tally after one more occurrence of a name. -/
def add (name : String) : Tally → Tally
  | [] => [(name, 1)]
  | (other, n) :: rest =>
    if other = name then (other, n + 1) :: rest
    else if name < other then (name, 1) :: (other, n) :: rest
    else (other, n) :: add name rest

/-- The tally of a list of names. -/
def ofNames (names : List String) : Tally := names.foldl (fun t name => t.add name) []

/-- How often a name occurs. -/
def count (t : Tally) (name : String) : Nat := (t.lookup name).getD 0

/-- How many names were counted. -/
def total : Tally → Nat
  | [] => 0
  | (_, n) :: rest => n + total rest

/-- A tally of one more name. -/
theorem ofNames_concat (names : List String) (name : String) :
    ofNames (names ++ [name]) = (ofNames names).add name :=
  List.foldl_append

/-- The other names keep their counts. -/
theorem count_add_of_ne {t : Tally} {name other : String} (h : other ≠ name) :
    (t.add name).count other = t.count other := by
  induction t with
  | nil => simp [add, count, List.lookup_cons, beq_eq_false_iff_ne.mpr h]
  | cons p rest ih =>
    obtain ⟨key, n⟩ := p
    simp only [count, add] at ih ⊢
    split
    · rename_i hk
      subst hk
      simp [List.lookup_cons, beq_eq_false_iff_ne.mpr h]
    · split
      · simp [List.lookup_cons, beq_eq_false_iff_ne.mpr h]
      · by_cases hk : other = key
        · simp [hk]
        · simp only [List.lookup_cons, beq_eq_false_iff_ne.mpr hk]
          exact ih

/-- One more occurrence is one more of all names. -/
theorem total_add (t : Tally) (name : String) : (t.add name).total = t.total + 1 := by
  induction t with
  | nil => rfl
  | cons p rest ih =>
    obtain ⟨key, n⟩ := p
    unfold add
    split
    · simp only [total]
      omega
    · split
      · simp only [total]
        omega
      · simp only [total, ih]
        omega

end Tally

end PathSelection
