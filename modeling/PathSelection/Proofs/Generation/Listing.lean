import PathSelection.Proofs.Generation.Corpus
import PathSelection.Proofs.Generation.NaturalScan
import PathSelection.Proofs.Lists

/-!
# The order of a corpus

A directory is listed in an order that means nothing.  Natural order tells all names apart, so
there is only one way to sort them, and the files of a corpus come in the same order however
its directory is listed.  Names are texts here, so all this is about file names in UTF-8: others
would be compared by what is left of them as text, which may be the same for two of them.

Main results:

- Theorem `naturalSort_eq_iff`: there is only one way to sort names.
- Theorem `Corpus.files_of_rearranged`: the files of a corpus come in an order of their own.
- Theorem `naturalOrder_ordersNumbers`: what natural order is, and what follows for a corpus.
-/

namespace PathSelection

/-! ## Sorted names -/

/-- There is only one way to sort names. -/
theorem naturalSort_eq_iff {names sorted : List String} :
    naturalSort names = sorted ↔
      sorted.Perm names ∧ sorted.Pairwise fun a b => naturalOrder a b ≠ .gt := by
  constructor
  · rintro rfl
    exact ⟨naturalSort_perm names, pairwise_naturalSort names⟩
  · rintro ⟨hperm, hsorted⟩
    have hle : ∀ o : Ordering, o ≠ .gt → o.isLE = true := by decide
    have hanti : ∀ a b, a ∈ naturalSort names → b ∈ sorted → naturalOrder a b ≠ .gt →
        naturalOrder b a ≠ .gt → a = b := fun a b _ _ hab hba =>
      Std.LawfulEqCmp.eq_of_compare (Std.OrientedCmp.isLE_antisymm (hle _ hab) (hle _ hba))
    exact ((naturalSort_perm names).trans hperm.symm).eq_of_pairwise hanti
      (pairwise_naturalSort names) hsorted

/-- Names come in the same order however they were listed. -/
theorem naturalSort_eq_of_perm {names names' : List String} (h : names.Perm names') :
    naturalSort names = naturalSort names' :=
  naturalSort_eq_iff.2 ⟨(naturalSort_perm names').trans h.symm, pairwise_naturalSort names'⟩

/-! ## Rearranged storage -/

namespace Storage

/-- Two storages have the same at all places, but may list it in different orders. -/
structure Rearranged (s t : Storage) : Prop where
  home : s.home = t.home
  entries : s.entries.Perm t.entries
  places : (s.entries.map (·.1)).Nodup

namespace Rearranged

variable {s t : Storage} {path : String}

private theorem entryAt?_eq (h : s.Rearranged t) : s.entryAt? = t.entryAt? := by
  funext l
  rw [entryAt?, entryAt?, lookup_eq_of_perm h.entries h.places]

private theorem follow_eq (h : s.Rearranged t) (here : Location) (parts : List String) :
    s.follow here parts = t.follow here parts := by
  induction parts generalizing here with
  | nil => rfl
  | cons name rest ih =>
    rw [follow, follow, h.entryAt?_eq, ih, ih]

private theorem locate_eq (h : s.Rearranged t) : s.locate path = t.locate path := by
  have hbelow : s.below? path = t.below? path := by rw [below?, below?, h.home]
  simp only [locate, hbelow, h.follow_eq]

private theorem isFile_eq (h : s.Rearranged t) : s.isFile path = t.isFile path := by
  rw [isFile, isFile, lookup?, lookup?, h.locate_eq, h.entryAt?_eq]

private theorem list_eq (h : s.Rearranged t) :
    (∃ fault, s.list path = .error fault ∧ t.list path = .error fault) ∨
      ∃ names names', s.list path = .ok names ∧ t.list path = .ok names' ∧ names.Perm names' := by
  unfold list
  rw [h.locate_eq]
  cases t.locate path with
  | error fault => exact .inl ⟨fault, rfl, rfl⟩
  | ok l =>
    simp only [bind, Except.bind, h.entryAt?_eq]
    cases t.entryAt? l with
    | none => exact .inl ⟨_, rfl, rfl⟩
    | some e =>
      cases e with
      | file text => exact .inl ⟨_, rfl, rfl⟩
      | directory => exact .inr ⟨_, _, rfl, rfl, h.entries.filterMap _⟩

end Rearranged

end Storage

namespace Corpus

variable {s t : Storage}

/-- However a directory is listed, the files of the corpus come in the same order. -/
theorem files_of_rearranged (h : s.Rearranged t) (directory : String) :
    Corpus.files s directory = Corpus.files t directory := by
  have hcircuit : isCircuitFile s = isCircuitFile t := by
    funext path
    rw [isCircuitFile, isCircuitFile, h.isFile_eq]
  rw [Corpus.files, Corpus.files, hcircuit]
  rcases h.list_eq with ⟨fault, hs, ht⟩ | ⟨names, names', hs, ht, hperm⟩
  · rw [hs, ht]
  · rw [hs, ht]
    exact congrArg Except.ok (naturalSort_eq_of_perm ((hperm.map _).filter _))

end Corpus

/-! ## Natural order -/

/-- An order of all names that tells them apart, and in which names that differ by a number, and
perhaps by what stands behind it, are ordered by the number.  Numbers may be as long as they like
and have zeros in front. -/
structure OrdersNumbers (order : String → String → Ordering) : Prop where
  eq_iff : ∀ a b, order a b = .eq ↔ a = b
  swap : ∀ a b, order b a = (order a b).swap
  trans : ∀ a b c, order a b = .lt → order b c = .lt → order a c = .lt
  numbers : ∀ front r s rest rest' : String, ∀ m n : Nat,
    (∀ c ∈ front.toList.getLast?, c.isDigit = false) →
    (∀ c ∈ rest.toList.head?, c.isDigit = false) →
    (∀ c ∈ rest'.toList.head?, c.isDigit = false) →
    natOfChars? r.toList = some m → natOfChars? s.toList = some n → m ≠ n →
    order (front ++ r ++ rest) (front ++ s ++ rest') = compare m n

/-- Names can be compared in rounds that always end, with the natural order; it tells all names
apart and orders numbers as numbers.  Sorted names are the same names in this order, so there is one
way to sort names, and the files of a corpus come in the same order however its directory is
listed. -/
theorem naturalOrder_ordersNumbers :
    (∀ (a b : String) (o : Ordering),
      NaturalScan.Ends a.toList b.toList o ↔ naturalOrder a b = o) ∧
    OrdersNumbers naturalOrder ∧
    (∀ names : List String, (naturalSort names).Perm names ∧
      (naturalSort names).Pairwise fun a b => naturalOrder a b ≠ .gt) ∧
    (∀ names names' : List String, names.Perm names' → naturalSort names = naturalSort names') ∧
    (∀ (s t : Storage) (directory : String), s.Rearranged t →
      Corpus.files s directory = Corpus.files t directory) := by
  refine ⟨fun a b o => NaturalScan.ends_iff, ?_,
    fun names => ⟨naturalSort_perm names, pairwise_naturalSort names⟩,
    fun _ _ => naturalSort_eq_of_perm,
    fun _ _ directory h => Corpus.files_of_rearranged h directory⟩
  exact {
    eq_iff := fun a b => Std.LawfulEqCmp.compare_eq_iff_eq
    swap := fun a b => Std.OrientedCmp.eq_swap
    trans := fun a b c => Std.TransCmp.lt_trans
    numbers := fun front r s rest rest' m n => naturalOrder_of_natOfChars? }

/-- A corpus of two circuits whose directory is listed in one of two orders. -/
def shelf (first second : String) : Storage where
  home := "/"
  entries := [(["corpus"], .directory), (["corpus", first], .file ""),
    (["corpus", second], .file "")]

/-- Names of circuits that differ by a number, and a corpus of them that is listed either way. -/
theorem naturalOrder_ordersNumbers_qft :
    naturalOrder "qft_09b" "qft_10" = .lt ∧
      NaturalScan.Ends "qft_09b".toList "qft_10".toList .lt ∧
      naturalOrder "qft_10" "qft_09b" = .gt ∧
      naturalSort ["qft_10", "qft_09b"] = naturalSort ["qft_09b", "qft_10"] ∧
      (shelf "qft_10.json" "qft_9.json").list "corpus" = .ok ["qft_10.json", "qft_9.json"] ∧
      Corpus.files (shelf "qft_10.json" "qft_9.json") "corpus" =
        Corpus.files (shelf "qft_9.json" "qft_10.json") "corpus" := by
  obtain ⟨hends, horder, -, hsort, hfiles⟩ := naturalOrder_ordersNumbers
  have hlt : naturalOrder "qft_09b" "qft_10" = .lt :=
    horder.numbers "qft_" "09" "10" "b" "" 9 10 (by simp) (by simp) (by simp) (by decide)
      (by decide) (by decide)
  refine ⟨hlt, (hends _ _ _).2 hlt, ?_, hsort _ _ (.swap _ _ _), rfl, hfiles _ _ _ ?_⟩
  · rw [horder.swap, hlt]
    rfl
  · exact {
      home := rfl
      entries := .cons _ (.swap _ _ _)
      places := by decide }

end PathSelection
