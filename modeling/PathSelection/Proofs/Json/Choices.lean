import PathSelection.Json.Variants
import PathSelection.Proofs.Json.Records

/-!
# Tagged choices that are read back

A value of a tagged choice is written as a record that starts with its tag.  All other fields are
looked at for faults before they are read as the fields of the variant.

- Definition `Written`: a value in which there is nothing wrong.

Main results:

- Theorem `written_nat` and `written_scalar`: which numbers are written without a fault.
- Theorem `taggedOf_record_eq_ok_iff`: when a record that starts with its tag is read.
-/

namespace PathSelection.Json

variable {α : Type} {levels depth : Nat} {fields : List (String × Json)}

/-! ## Values without a fault -/

/-- A value in which no fault is found. -/
def Written (levels : Nat) (v : Json) : Prop := contentFault? levels v = none

/-- A number of a word is written as one. -/
theorem written_nat {n : Nat} (h : n < wordValues 64) : Written levels (.nat n) := by
  have hinteger : Decoder.integer? (.ofNat n) = some (n : Int) :=
    Decoder.integer?_ofNat_eq_some_iff.2 ⟨h, rfl⟩
  simp [Written, nat, contentFault?, hinteger]

/-- A finite double is written as a number. -/
theorem written_scalar {x : Float} (h : Float.finite x = true) : Written levels (.scalar x) := by
  have hnumeral : Scalar.numeral? x = Numeral.ofFloat? x := rfl
  obtain ⟨n, hn⟩ := Option.isSome_iff_exists.1 ((Numeral.isSome_ofFloat? x).trans h)
  have hread : n.toFloat = x := Numeral.toFloat_of_ofFloat? hn
  simp [Written, scalar, hnumeral, hn, contentFault?, hread, h]

/-! ## Tagged records -/

namespace Tagged

variable {t : Tagged α} {variant : String × TaggedVariant α}

/-- Fields that are no tags and hold no faults. -/
def PlainFields (t : Tagged α) (levels : Nat) (fields : List (String × Json)) : Prop :=
  ∀ field ∈ fields, field.1 ≠ t.tag ∧ Written levels field.2

private theorem findVariant_some (h : t.PlainFields levels fields) :
    t.findVariant levels (some variant) (fields.map fun (name, v) => (some name, v)) =
      .ok variant := by
  induction fields with
  | nil => rfl
  | cons field fields ih =>
    obtain ⟨⟨htag, hwritten⟩, hrest⟩ := List.forall_mem_cons.1 h
    rw [List.map_cons, findVariant]
    simp only [if_neg htag]
    rw [hwritten]
    exact ih hrest

private theorem filter_tag (h : t.PlainFields levels fields) :
    (fields.map fun (name, v) => ((some name : Key), v)).filter (fun (key, _) => key != some t.tag) =
      fields.map fun (name, v) => (some name, v) := by
  rw [List.filter_eq_self]
  intro field hfield
  obtain ⟨field, hmem, rfl⟩ := List.mem_map.1 hfield
  simpa using (h field hmem).1

end Tagged

/-- A record that starts with its tag is read as the fields of the variant that is named. -/
theorem taggedOf_record_eq_ok_iff {t : Tagged α} {name label : String} {fs : Fields α} {a : α}
    (hvariant : t.variants.lookup name = some (label, .fields fs))
    (h : t.PlainFields (depthLimit - (depth + 1)) fields) :
    taggedOf t depth (.record ((t.tag, .text name) :: fields)) = .ok a ↔
      fs.read s!"struct variant {label} with {elementCount fs.count}"
        (.object (fields.map fun (name, v) => (some name, v))) 0 = .ok a := by
  have hkeys : Fields.brokenKey? (fields.map fun (name, v) => (some name, v)) = none := by
    simp [Fields.brokenKey?]
  have hfound : t.findVariant (depthLimit - (depth + 1)) none
      ((some t.tag, .text name) :: fields.map fun (name, v) => (some name, v)) =
        .ok (label, .fields fs) := by
    rw [Tagged.findVariant]
    simp only [if_pos, Tagged.variantOf, text, hvariant, bind, Except.bind]
    exact Tagged.findVariant_some h
  have hrest := Tagged.filter_tag h
  simp only [record, List.map_cons, taggedOf, hfound, bind, Except.bind, Tagged.ofObject,
    List.filter_cons, bne_self_eq_false, Bool.false_eq_true, if_false, hrest, Fields.ofObject,
    hkeys]
  cases fs.read s!"struct variant {label} with {elementCount fs.count}"
    (.object (fields.map fun (name, v) => (some name, v))) 0 <;> simp

end PathSelection.Json
