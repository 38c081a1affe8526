import Mathlib.Data.List.Forall2

/-!
# Traversals that may fail

A list is traversed by steps any of which may fail; the first failure ends the
traversal.

Main results:

- Theorems `mapM_eq_ok_iff` and `mapM_eq_some_iff`: a traversal yields the results of all its
  steps.
- Theorem `mapM_eq_error_iff`: it fails as the first of its steps that fails.
- Theorem `mapM_flatMap`: a traversal of parts is one of all that is in them.
-/

namespace PathSelection

/-- A traversal that may fail yields the results of all its steps. -/
theorem mapM_eq_ok_iff {ε β γ : Type} {f : β → Except ε γ} {xs : List β} {ys : List γ} :
    xs.mapM f = .ok ys ↔ List.Forall₂ (fun x y => f x = .ok y) xs ys := by
  constructor
  · intro h
    induction xs generalizing ys with
    | nil =>
      obtain rfl : [] = ys := Except.ok.inj h
      exact .nil
    | cons x xs ih =>
      rw [List.mapM_cons] at h
      cases hhead : f x with
      | error e => simp [hhead, bind, Except.bind] at h
      | ok y =>
        cases htail : xs.mapM f with
        | error e => simp [hhead, htail, bind, Except.bind] at h
        | ok rest =>
          obtain rfl : y :: rest = ys := by
            simpa [hhead, htail, bind, Except.bind, pure, Except.pure] using h
          exact .cons hhead (ih htail)
  · intro h
    induction h with
    | nil => rfl
    | cons hhead _ ih =>
      rw [List.mapM_cons, hhead, ih]
      rfl

/-- A traversal whose steps may have no result yields the results of all its steps. -/
theorem mapM_eq_some_iff {β γ : Type} {f : β → Option γ} {xs : List β} {ys : List γ} :
    xs.mapM f = some ys ↔ List.Forall₂ (fun x y => f x = some y) xs ys := by
  induction xs generalizing ys with
  | nil => simp [eq_comm]
  | cons x xs ih =>
    rw [List.mapM_cons]
    cases ys with
    | nil => cases f x <;> cases xs.mapM f <;> simp
    | cons y ys =>
      rw [List.forall₂_cons, ← ih]
      cases f x <;> cases xs.mapM f <;> simp

/-- A traversal has a result exactly if all its steps do. -/
theorem exists_mapM_eq_some_iff {β γ : Type} {f : β → Option γ} {xs : List β} :
    (∃ ys, xs.mapM f = some ys) ↔ ∀ x ∈ xs, ∃ y, f x = some y := by
  induction xs with
  | nil => simp
  | cons x xs ih =>
    rw [List.forall_mem_cons, ← ih, List.mapM_cons]
    cases f x <;> cases xs.mapM f <;> simp

/-- A traversal with one more step at its end. -/
theorem mapM_concat_eq_ok_iff {ε β γ : Type} {f : β → Except ε γ} {xs : List β} {x : β}
    {zs : List γ} :
    (xs ++ [x]).mapM f = .ok zs ↔ ∃ ys y, xs.mapM f = .ok ys ∧ f x = .ok y ∧ ys ++ [y] = zs := by
  rw [List.mapM_append]
  cases hfront : xs.mapM f with
  | error e => simp [bind, Except.bind]
  | ok ys => cases hlast : f x <;> simp [hlast, bind, Except.bind, pure, Except.pure]

/-- With one more step at any place a traversal yields one more result at the same place. -/
theorem exists_of_mapM_insert {ε β γ : Type} {f : β → Except ε γ} {before behind : List β} {x : β}
    {ys zs : List γ} (h : (before ++ behind).mapM f = .ok ys)
    (h' : (before ++ x :: behind).mapM f = .ok zs) :
    ∃ front y rest, ys = front ++ rest ∧ zs = front ++ y :: rest ∧ f x = .ok y := by
  rw [List.mapM_append] at h h'
  cases hfront : before.mapM f with
  | error e => simp [hfront, bind, Except.bind] at h
  | ok front =>
    cases hrest : behind.mapM f with
    | error e => simp [hfront, hrest, bind, Except.bind] at h
    | ok rest =>
      cases hx : f x with
      | error e => simp [hfront, hx, bind, Except.bind] at h'
      | ok y =>
        simp only [hfront, hrest, hx, List.mapM_cons, bind, Except.bind, pure, Except.pure,
          Except.ok.injEq] at h h'
        exact ⟨front, y, rest, h.symm, h'.symm, rfl⟩

/-- Two steps succeed if the first one does, and the second one does with its result. -/
theorem bind_eq_ok_iff {ε β γ : Type} {x : Except ε β} {f : β → Except ε γ} {c : γ} :
    (x >>= f) = .ok c ↔ ∃ b, x = .ok b ∧ f b = .ok c := by
  cases x <;> simp [bind, Except.bind]

/-- Work does not fail with an error that neither of its parts fails with. -/
theorem bind_ne_error {ε β γ : Type} {x : Except ε β} {f : β → Except ε γ} {e : ε}
    (hx : x ≠ .error e) (hf : ∀ b, f b ≠ .error e) : (x >>= f) ≠ .error e := by
  cases x with
  | error e' => simpa [bind, Except.bind] using hx
  | ok b => exact hf b

/-- Another wording of a failure is no success. -/
theorem mapError_eq_ok_iff {ε ε' β : Type} {f : ε → ε'} {x : Except ε β} {b : β} :
    x.mapError f = .ok b ↔ x = .ok b := by
  cases x <;> simp [Except.mapError]

/-- A result is an option if it is no error. -/
theorem toOption_eq_some_iff {ε β : Type} {x : Except ε β} {b : β} :
    x.toOption = some b ↔ x = .ok b := by
  cases x <;> simp [Except.toOption]

/-- What stands on the left of a pairing is paired. -/
theorem exists_of_forall₂ {β γ : Type} {R : β → γ → Prop} {xs : List β} {ys : List γ}
    (h : List.Forall₂ R xs ys) {x : β} (hx : x ∈ xs) : ∃ y ∈ ys, R x y := by
  induction h with
  | nil => simp at hx
  | @cons x' y _ rest hhead _ ih =>
    rcases List.mem_cons.1 hx with rfl | hx
    · exact ⟨y, List.mem_cons_self, hhead⟩
    · rcases ih hx with ⟨y', hy', hrel⟩
      exact ⟨y', List.mem_cons_of_mem y hy', hrel⟩

/-- What stands on the right of a pairing is paired. -/
theorem exists_source_of_forall₂ {β γ : Type} {R : β → γ → Prop} {xs : List β} {ys : List γ}
    (h : List.Forall₂ R xs ys) {y : γ} (hy : y ∈ ys) : ∃ x ∈ xs, R x y :=
  exists_of_forall₂ (List.Forall₂.flip h) hy

/-- Lists are paired by relations that agree on the elements of the first one. -/
theorem forall₂_congr_of_mem {β γ : Type} {R S : β → γ → Prop} {xs : List β} {ys : List γ}
    (h : ∀ x ∈ xs, ∀ y, R x y ↔ S x y) : List.Forall₂ R xs ys ↔ List.Forall₂ S xs ys := by
  induction xs generalizing ys with
  | nil => simp
  | cons x xs ih =>
    obtain ⟨hhead, hrest⟩ := List.forall_mem_cons.1 h
    cases ys with
    | nil => simp
    | cons y ys => rw [List.forall₂_cons, List.forall₂_cons, hhead, ih hrest]

/-- Of two lists that are paired, equally many satisfy what pairs agree on. -/
theorem countP_eq_of_forall₂ {β γ : Type} {p : β → Bool} {q : γ → Bool} {xs : List β} {ys : List γ}
    (h : List.Forall₂ (fun x y => p x = q y) xs ys) : xs.countP p = ys.countP q := by
  induction h with
  | nil => rfl
  | cons hhead _ ih => rw [List.countP_cons, List.countP_cons, hhead, ih]

/-- Every step of a traversal that succeeds does so. -/
theorem exists_of_mapM_eq_ok {ε β γ : Type} {f : β → Except ε γ} {xs : List β} {ys : List γ}
    (h : xs.mapM f = .ok ys) {x : β} (hx : x ∈ xs) : ∃ y ∈ ys, f x = .ok y :=
  exists_of_forall₂ (mapM_eq_ok_iff.1 h) hx

/-- Every result of a traversal is that of one of its steps. -/
theorem exists_source_of_mapM_eq_ok {ε β γ : Type} {f : β → Except ε γ} {xs : List β}
    {ys : List γ} (h : xs.mapM f = .ok ys) {y : γ} (hy : y ∈ ys) : ∃ x ∈ xs, f x = .ok y :=
  exists_source_of_forall₂ (mapM_eq_ok_iff.1 h) hy

/-- A traversal succeeds if all of its steps do. -/
theorem exists_mapM_eq_ok {ε β γ : Type} {f : β → Except ε γ} {xs : List β}
    (h : ∀ x ∈ xs, ∃ y, f x = .ok y) : ∃ ys, xs.mapM f = .ok ys := by
  induction xs with
  | nil => exact ⟨[], rfl⟩
  | cons x xs ih =>
    obtain ⟨y, hy⟩ := h x List.mem_cons_self
    obtain ⟨ys, hys⟩ := ih fun x hx => h x (List.mem_cons_of_mem _ hx)
    refine ⟨y :: ys, ?_⟩
    rw [List.mapM_cons, hy, hys]
    rfl

/-- A traversal fails as the first of its steps that fails. -/
theorem mapM_eq_error_iff {ε β γ : Type} {f : β → Except ε γ} {xs : List β} {e : ε} :
    xs.mapM f = .error e ↔ ∃ before x behind, xs = before ++ x :: behind ∧
      (∀ y ∈ before, ∃ b, f y = .ok b) ∧ f x = .error e := by
  constructor
  · intro h
    induction xs with
    | nil => cases h
    | cons x xs ih =>
      rw [List.mapM_cons] at h
      cases hhead : f x with
      | error e' =>
        obtain rfl : e' = e := by simpa [hhead, bind, Except.bind] using h
        exact ⟨[], x, xs, rfl, by simp, hhead⟩
      | ok y =>
        cases htail : xs.mapM f with
        | ok ys => simp [hhead, htail, bind, Except.bind, pure, Except.pure] at h
        | error e' =>
          obtain rfl : e' = e := by simpa [hhead, htail, bind, Except.bind] using h
          obtain ⟨before, z, behind, rfl, hbefore, hz⟩ := ih htail
          exact ⟨x :: before, z, behind, rfl, List.forall_mem_cons.2 ⟨⟨y, hhead⟩, hbefore⟩, hz⟩
  · rintro ⟨before, x, behind, rfl, hbefore, hx⟩
    obtain ⟨front, hfront⟩ := exists_mapM_eq_ok hbefore
    rw [List.mapM_append, hfront, List.mapM_cons, hx]
    rfl

/-- A traversal whose steps are traversals of parts is one traversal of all that is in the parts. -/
theorem mapM_flatMap {ε β γ δ : Type} (parts : β → List γ) (f : γ → Except ε δ) (xs : List β) :
    (xs.mapM fun x => (parts x).mapM f).map List.flatten = (xs.flatMap parts).mapM f := by
  induction xs with
  | nil => rfl
  | cons x xs ih =>
    rw [List.mapM_cons, List.flatMap_cons, List.mapM_append, ← ih]
    cases (parts x).mapM f with
    | error e => rfl
    | ok ys => cases xs.mapM fun x => (parts x).mapM f <;> rfl

/-- Two traversals one after the other. -/
theorem forall₂_exists_iff {α β γ : Type} {R : α → β → Prop} {S : β → γ → Prop} {xs : List α}
    {zs : List γ} :
    List.Forall₂ (fun x z => ∃ y, R x y ∧ S y z) xs zs ↔
      ∃ ys, List.Forall₂ R xs ys ∧ List.Forall₂ S ys zs := by
  constructor
  · intro h
    induction h with
    | nil => exact ⟨[], .nil, .nil⟩
    | cons hhead _ ih =>
      obtain ⟨y, hR, hS⟩ := hhead
      obtain ⟨ys, hRs, hSs⟩ := ih
      exact ⟨y :: ys, .cons hR hRs, .cons hS hSs⟩
  · rintro ⟨ys, hR, hS⟩
    induction hR generalizing zs with
    | nil => rw [List.forall₂_nil_left_iff.1 hS]; exact .nil
    | cons hhead _ ih =>
      cases hS with
      | cons hhead' hrest => exact .cons ⟨_, hhead, hhead'⟩ (ih hrest)

end PathSelection
