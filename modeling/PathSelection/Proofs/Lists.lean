import Mathlib.Data.Finset.Card

/-!
# Lists

Of equal items in a list the first one counts: an item that comes once more changes
nothing, and a new one comes behind all others.

Main results:

- Theorems `eraseDups_concat_of_mem` and `eraseDups_concat_of_not_mem`: one more item.
- Theorem `nodup_eraseDups`: first occurrences are all different.
- Theorem `lookup_eq_of_perm`: what stands under a key, in any order of the entries.
- Theorems `sublist_of_cons_sublist` and `sublist_of_concat_sublist`: what stands behind the first
  item of a sublist, and before the last one.
- Theorem `foldl_max_le_iff`: what is an upper bound of a list.
-/

namespace PathSelection

section

variable {β : Type} [BEq β] [LawfulBEq β] {xs : List β} {x : β}

/-- An item that comes once more is no first occurrence. -/
theorem eraseDups_concat_of_mem (h : x ∈ xs) : (xs ++ [x]).eraseDups = xs.eraseDups := by
  have hnone : [x].removeAll xs = [] := by simp [List.removeAll, h]
  rw [List.eraseDups_append, hnone, List.eraseDups_nil, List.append_nil]

/-- A new item comes behind the first occurrences of the others. -/
theorem eraseDups_concat_of_not_mem (h : x ∉ xs) :
    (xs ++ [x]).eraseDups = xs.eraseDups ++ [x] := by
  have hone : [x].removeAll xs = [x] := by simp [List.removeAll, h]
  rw [List.eraseDups_append, hone, List.eraseDups_cons, List.filter_nil, List.eraseDups_nil]

/-- First occurrences are all different. -/
theorem nodup_eraseDups (xs : List β) : xs.eraseDups.Nodup := by
  induction xs using List.reverseRecOn with
  | nil => simp
  | append_singleton xs x ih =>
    by_cases h : x ∈ xs
    · rwa [eraseDups_concat_of_mem h]
    · rw [eraseDups_concat_of_not_mem h, List.nodup_append]
      refine ⟨ih, List.nodup_singleton x, ?_⟩
      intro y hy z hz
      rw [List.mem_singleton.1 hz]
      rintro rfl
      exact h (List.mem_eraseDups.1 hy)

/-- There are as many first occurrences as different items. -/
theorem length_eraseDups [DecidableEq β] (xs : List β) :
    xs.eraseDups.length = xs.toFinset.card := by
  rw [← List.toFinset_card_of_nodup (nodup_eraseDups xs)]
  congr 1
  ext y
  simp

end

/-- What stands under a key does not depend on the order of the entries. -/
theorem lookup_eq_of_perm {κ ν : Type} [BEq κ] [LawfulBEq κ] {entries entries' : List (κ × ν)}
    (h : entries.Perm entries') (hkeys : (entries.map (·.1)).Nodup) (k : κ) :
    entries.lookup k = entries'.lookup k := by
  induction h with
  | nil => rfl
  | @cons entry rest rest' _ ih =>
    rw [List.lookup_cons, List.lookup_cons, ih (List.nodup_cons.1 hkeys).2]
  | swap first second rest =>
    obtain ⟨i, v⟩ := first
    obtain ⟨j, w⟩ := second
    have hne : i ≠ j := by
      rintro rfl
      exact (List.nodup_cons.1 hkeys).1 List.mem_cons_self
    simp only [List.lookup_cons]
    cases hi : k == i with
    | false => rfl
    | true =>
      obtain rfl := eq_of_beq hi
      rw [beq_false_of_ne hne]
  | trans hfirst _ ih ih' =>
    exact (ih hkeys).trans (ih' (((hfirst.map _).nodup_iff).1 hkeys))

/-- A list that starts with an item which another list has only there is what stands behind it in
both. -/
theorem sublist_of_cons_sublist {β : Type} {before rest behind : List β} {x : β}
    (h : (x :: rest).Sublist (before ++ x :: behind)) (hx : x ∉ before) : rest.Sublist behind := by
  induction before with
  | nil => exact List.cons_sublist_cons.1 h
  | cons y before ih =>
    rw [List.mem_cons, not_or] at hx
    exact ih (h.of_cons_of_ne hx.1) hx.2

/-- A list that ends in an item which another list has only there is what stands before it in
both. -/
theorem sublist_of_concat_sublist {β : Type} {front before behind : List β} {x : β}
    (h : (front ++ [x]).Sublist (before ++ x :: behind)) (hx : x ∉ behind) :
    front.Sublist before := by
  rw [← List.reverse_sublist] at h ⊢
  have hreverse : (x :: front.reverse).Sublist (behind.reverse ++ x :: before.reverse) := by
    simpa using h
  exact sublist_of_cons_sublist hreverse (by simpa using hx)

/-- An upper bound of a list and a start. -/
theorem foldl_max_le_iff {l : List Nat} {m n : Nat} :
    l.foldl max m ≤ n ↔ m ≤ n ∧ ∀ x ∈ l, x ≤ n := by
  induction l generalizing m with
  | nil => simp
  | cons x l ih =>
    rw [List.foldl_cons, ih, List.forall_mem_cons, max_le_iff, and_assoc]

end PathSelection
