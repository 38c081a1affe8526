/-!
# Dictionaries

Values by key, in the order in which the keys first came.

Main results:

- Theorem `Dict.get?_put_self`: the value put last under a key is found there.
- Theorem `Dict.get?_put_of_ne`: all other keys keep their values.
-/

namespace PathSelection

/-- Values by key, at most one for each. -/
abbrev Dict (κ ν : Type) := List (κ × ν)

namespace Dict

variable {κ ν : Type} [BEq κ] [LawfulBEq κ]

/-- The value of a key. -/
def get? (d : Dict κ ν) (k : κ) : Option ν := d.lookup k

/-- The dictionary with another value of a key. -/
def put (k : κ) (v : ν) : Dict κ ν → Dict κ ν
  | [] => [(k, v)]
  | (j, w) :: rest => if j == k then (k, v) :: rest else (j, w) :: put k v rest

/-- The dictionary of a list of entries, of which later ones count. -/
def ofEntries (entries : List (κ × ν)) : Dict κ ν := entries.foldl (fun d (k, v) => d.put k v) []

/-- The values in order. -/
def values (d : Dict κ ν) : List ν := d.map (·.2)

/-- The entries in ascending order of their keys. -/
def sorted (le : κ → κ → Bool) (d : Dict κ ν) : Dict κ ν := d.mergeSort fun a b => le a.1 b.1

/-- The value put last under a key is found there. -/
@[simp]
theorem get?_put_self (d : Dict κ ν) (k : κ) (v : ν) : (d.put k v).get? k = some v := by
  induction d with
  | nil => simp [put, get?]
  | cons p rest ih =>
    obtain ⟨j, w⟩ := p
    simp only [get?, put] at ih ⊢
    by_cases h : j == k
    · simp [h]
    · have hne : (k == j) = false := by
        cases hkj : k == j with
        | false => rfl
        | true => exact absurd (by simp [eq_of_beq hkj]) h
      simp [h, List.lookup_cons, hne, ih]

/-- All other keys keep their values. -/
theorem get?_put_of_ne (d : Dict κ ν) {k i : κ} (h : (i == k) = false) (v : ν) :
    (d.put k v).get? i = d.get? i := by
  induction d with
  | nil => simp [put, get?, List.lookup_cons, h]
  | cons p rest ih =>
    obtain ⟨j, w⟩ := p
    simp only [get?, put] at ih ⊢
    by_cases hj : j == k
    · have : j = k := eq_of_beq hj
      subst this
      simp [List.lookup_cons, h]
    · by_cases hi : i == j
      · simp [hj, List.lookup_cons, hi]
      · simp [hj, List.lookup_cons, hi, ih]

end Dict

end PathSelection
