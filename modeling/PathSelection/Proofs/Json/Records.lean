import PathSelection.Json.Fields
import PathSelection.Proofs.Json.ReadBack
import PathSelection.Proofs.Number.ReadBack
import PathSelection.Proofs.Traversal

/-!
# Values that are read out of documents

When a decoder succeeds, and with which value.  A record is read field by field
from the value that stands in the document for the field, if one does, and all
of its fields must succeed.

Main results:

- Theorem `recordOf_eq_ok_iff`: when a record is read.
- Theorem `Fields.read_field_eq_ok_iff`: when a field of a record is read.
- Theorem `recordOf_map`: a value made of a record is read as the record is.
- Theorem `Decoder.number_scalar_eq_ok_iff`: the doubles that are read back.
-/

namespace PathSelection.Json

/-! ## Values -/

section Parse

variable {α : Type} {item : Decoder α}

/-- A text is parsed if it is read and decoded. -/
theorem parse_eq_ok_iff {s : String} {a : α} :
    parse item s = .ok a ↔ ∃ v, read s = .ok v ∧ item v = .ok a := by
  unfold parse
  cases read s <;> simp

/-- What is written without spaces is decoded as it was. -/
theorem parse_compactText (v : Json) : parse item v.compactText = item v := by
  rw [parse, read_compactText]

/-- What is written with indentation is decoded as it was. -/
theorem parse_indentedText (v : Json) : parse item v.indentedText = item v := by
  rw [parse, read_indentedText]

end Parse

namespace Decoder

variable {α β : Type} {item : Decoder α} {v : Json}

/-- Where something else is expected nothing is read. -/
theorem mismatch_ne_ok {expected : String} {a : α} : mismatch expected v ≠ .ok a := by
  simp only [mismatch, bind, Except.bind]
  cases found v <;> simp

/-- A text is decoded as itself. -/
theorem text_text (s : String) : text (.text s) = .ok s := rfl

/-- Numbers of a word are integers. -/
theorem integer?_ofNat_eq_some_iff {n : Nat} {i : Int} :
    integer? (.ofNat n) = some i ↔ n < wordValues 64 ∧ i = n := by
  have hint : (Numeral.ofNat n).toInt? = some (n : Int) := by simp [Numeral.ofNat, Numeral.toInt?]
  have hbound : (-(wordValues 63 : Int) ≤ n ∧ (n : Int) < wordValues 64) ↔ n < wordValues 64 := by
    omega
  simp only [integer?, hint, hbound]
  split_ifs with h <;> simp [h, eq_comm]

/-- The natural numbers below a bound are read back, and no others. -/
theorem natBelow_nat_eq_ok_iff {bound n m : Nat} {expected : String} (h : bound ≤ wordValues 64) :
    natBelow bound expected (.nat n) = .ok m ↔ n < bound ∧ n = m := by
  rw [nat, natBelow]
  cases hint : integer? (.ofNat n) with
  | none =>
    have hlarge : ¬n < wordValues 64 := fun hlt => by
      rw [integer?_ofNat_eq_some_iff.2 ⟨hlt, rfl⟩] at hint
      cases hint
    have hnot : ¬n < bound := fun hlt => hlarge (hlt.trans_le h)
    simp [mismatch_ne_ok, hnot]
  | some i =>
    obtain ⟨-, rfl⟩ := integer?_ofNat_eq_some_iff.1 hint
    have hrange : (0 ≤ (n : Int) ∧ (n : Int) < bound) ↔ n < bound := by omega
    simp only [hrange]
    split_ifs with hlt <;> simp [hlt]

/-- Numbers of 32 bits are decoded as themselves. -/
theorem u32_nat_eq_ok_iff {n m : Nat} : u32 (.nat n) = .ok m ↔ n < wordValues 32 ∧ n = m :=
  natBelow_nat_eq_ok_iff (by decide)

/-- Numbers of 64 bits are decoded as themselves. -/
theorem u64_nat_eq_ok_iff {n m : Nat} : u64 (.nat n) = .ok m ↔ n < wordValues 64 ∧ n = m :=
  natBelow_nat_eq_ok_iff le_rfl

/-- Counts are decoded as themselves. -/
theorem usize_nat {n : Nat} (h : n < wordValues 64) : usize (.nat n) = .ok n :=
  (natBelow_nat_eq_ok_iff le_rfl).2 ⟨h, rfl⟩

/-- A number that is decoded is below its bound. -/
theorem natBelow_lt {bound n : Nat} {expected : String} (h : natBelow bound expected v = .ok n) :
    n < bound := by
  unfold natBelow at h
  split at h
  · split at h
    · split at h
      · obtain rfl := Except.ok.inj h
        omega
      · cases h
    · exact absurd h mismatch_ne_ok
  · exact absurd h mismatch_ne_ok

/-- The doubles that are read back are the finite ones; the others are written as `null`. -/
theorem number_scalar_eq_ok_iff {x y : Float} :
    number (.scalar x) = .ok y ↔ Float.finite x = true ∧ x = y := by
  have hnumeral : Scalar.numeral? x = Numeral.ofFloat? x := rfl
  rw [scalar, hnumeral]
  cases hfound : Numeral.ofFloat? x with
  | none =>
    have hinfinite : Float.finite x = false := by rw [← Numeral.isSome_ofFloat?, hfound]; rfl
    simp [number, hinfinite, mismatch_ne_ok]
  | some n =>
    have hfinite : Float.finite x = true := by rw [← Numeral.isSome_ofFloat?, hfound]; rfl
    have hread : (Scalar.ofDecimal n.toDecimal : Float) = x := Numeral.toFloat_of_ofFloat? hfound
    have hisFinite : Scalar.isFinite x = true := hfinite
    simp [number, hread, hisFinite, hfinite]

/-- A double that is decoded is finite. -/
theorem finite_of_number {x : Float} (h : number v = .ok x) : Float.finite x = true := by
  unfold number at h
  split at h
  · simp only at h
    split at h
    · rename_i hfinite
      obtain rfl := Except.ok.inj h
      exact hfinite
    · cases h
  · exact absurd h mismatch_ne_ok

/-- A value that may be missing is decoded unless it is `null`. -/
theorem nullable_eq_ok_iff {a : Option α} :
    nullable item v = .ok a ↔
      (v = .null ∧ a = none) ∨ (v ≠ .null ∧ ∃ b, item v = .ok b ∧ a = some b) := by
  unfold nullable
  split
  · simp [eq_comm]
  · rename_i hnull
    have hne : v ≠ .null := fun h => hnull h
    cases item v <;> simp [Except.map, hne, eq_comm]

private theorem listOf_eq_ok_iff {as : List α} :
    listOf item v = .ok as ↔ ∃ vs, v = .array vs ∧ List.Forall₂ (item · = .ok ·) vs as := by
  unfold listOf
  split
  · simp [mapM_eq_ok_iff]
  · rename_i harray
    simp only [mismatch_ne_ok, false_iff]
    rintro ⟨vs, rfl, -⟩
    exact harray vs rfl

/-- A written list is read item by item. -/
theorem listOf_list_eq_ok_iff {write : β → Json} {bs : List β} {as : List α} :
    listOf item (.list write bs) = .ok as ↔
      List.Forall₂ (fun b a => item (write b) = .ok a) bs as := by
  rw [list, listOf, mapM_eq_ok_iff, List.forall₂_map_left_iff]

/-- What holds of every item that is read holds of the items of a list. -/
theorem forall_of_listOf {P : α → Prop} (hitem : ∀ v a, item v = .ok a → P a) {as : List α}
    (h : listOf item v = .ok as) : ∀ a ∈ as, P a := by
  obtain ⟨vs, -, hvs⟩ := listOf_eq_ok_iff.1 h
  clear h
  induction hvs with
  | nil => simp
  | cons hhead _ ih => exact List.forall_mem_cons.2 ⟨hitem _ _ hhead, ih⟩

/-- What holds of decoded values holds of those that may be missing. -/
theorem forall_of_nullable {P : α → Prop} (hitem : ∀ v a, item v = .ok a → P a) {a : Option α}
    (h : nullable item v = .ok a) : ∀ b ∈ a, P b := by
  rcases nullable_eq_ok_iff.1 h with ⟨-, rfl⟩ | ⟨-, b, hb, rfl⟩
  · simp
  · simpa using hitem v b hb

/-- A refined value is decoded if its rule allows it. -/
theorem refine_eq_ok_iff {rule : α → Except String β} {b : β} :
    refine item rule v = .ok b ↔ ∃ a, item v = .ok a ∧ rule a = .ok b := by
  simp only [refine, bind, Except.bind]
  cases item v with
  | error e => simp
  | ok a =>
    cases hrule : rule a <;> simp [hrule]

end Decoder

/-! ## Fields -/

namespace Fields

variable {α β : Type} {complete : String} {source : Source} {index : Nat}

/-- What stands in a record for a field: one value, no value, or more than one. -/
def standing (name : String) : Source → (index : Nat) → Option (Option Json)
  | .object fields, _ =>
    match fields.filterMap fun (key, v) => if key = some name then some v else none with
    | [] => some none
    | [v] => some (some v)
    | _ => none
  | .array items, index => some items[index]?

/-- What a record without a field means. -/
def absent (inObject inArray : Option α) : Source → Option α
  | .object _ => inObject
  | .array _ => inArray

private theorem map_occurrences (name : String) (fields : List (Key × Json)) :
    (occurrences name fields).map (·.2) =
      fields.filterMap fun (key, v) => if key = some name then some v else none := by
  have hfrom : ∀ k, (((fields.zipIdx k).filterMap fun entry =>
      if entry.1.1 = some name then some (entry.2, entry.1.2) else none).map (·.2)) =
        fields.filterMap fun (key, v) => if key = some name then some v else none := by
    induction fields with
    | nil => intro k; rfl
    | cons field fields ih =>
      intro k
      obtain ⟨key, v⟩ := field
      by_cases hkey : key = some name <;> simp [hkey, ih]
  exact hfrom 0

/-- A field is read from the only value that stands for it, and without one it means what its
absence means. -/
theorem read_field_eq_ok_iff {name : String} {item : Decoder α} {inObject inArray : Option α}
    {a : α} :
    (field name item inObject inArray).read complete source index = .ok a ↔
      (standing name source index = some none ∧ absent inObject inArray source = some a) ∨
        ∃ v, standing name source index = some (some v) ∧ item v = .ok a := by
  cases source with
  | object fields =>
    have hvalues := map_occurrences name fields
    simp only [field, standing, absent, ← hvalues]
    rcases occurrences name fields with _ | ⟨⟨place, v⟩, _ | ⟨⟨again, w⟩, more⟩⟩
    · cases inObject <;> simp
    · simp only [List.map_cons, List.map_nil]
      cases hv : item v <;> simp [hv]
    · simp only [List.map_cons]
      cases item v <;> simp
  | array items =>
    simp only [field, standing, absent]
    cases hitem : items[index]? with
    | none => cases inArray <;> simp
    | some v => cases hv : item v <;> simp [hv]

/-- What holds of every value that is read and of the defaults holds of a field. -/
theorem of_read_field {P : α → Prop} {name : String} {item : Decoder α}
    {inObject inArray : Option α} {a : α} (hitem : ∀ v a, item v = .ok a → P a)
    (hobject : ∀ a ∈ inObject, P a) (harray : ∀ a ∈ inArray, P a)
    (h : (field name item inObject inArray).read complete source index = .ok a) : P a := by
  rcases read_field_eq_ok_iff.1 h with ⟨-, habsent⟩ | ⟨v, -, hv⟩
  · cases source with
    | object => exact hobject a habsent
    | array => exact harray a habsent
  · exact hitem v a hv

/-- Fields that are mapped are read as the fields themselves. -/
theorem read_map_eq_ok_iff {f : α → β} {x : Fields α} {b : β} :
    (f <$> x).read complete source index = .ok b ↔
      ∃ a, x.read complete source index = .ok a ∧ f a = b := by
  change (x.read complete source index).map f = .ok b ↔ _
  cases x.read complete source index <;> simp [Except.map]

/-- Fields one after the other are read if all of them are. -/
theorem read_seq_eq_ok_iff {f : Fields (α → β)} {x : Fields α} {b : β} :
    (f <*> x).read complete source index = .ok b ↔
      ∃ g, f.read complete source index = .ok g ∧
        ∃ a, x.read complete source (index + f.count) = .ok a ∧ g a = b := by
  change both (f.read complete source index) (x.read complete source (index + f.count)) = .ok b ↔ _
  cases f.read complete source index <;> cases x.read complete source (index + f.count) <;>
    simp [both]

section Seq

variable {γ δ ε ζ : Type} {x : Fields α} {y : Fields β} {z : Fields γ} {w : Fields δ} {u : Fields ε}

/-- A record of four fields is read if all four are. -/
theorem read_seq₄_eq_ok_iff {f : α → β → γ → δ → ζ} {r : ζ} :
    (f <$> x <*> y <*> z <*> w).read complete source index = .ok r ↔
      ∃ a b c d, x.read complete source index = .ok a ∧
        y.read complete source (index + x.count) = .ok b ∧
        z.read complete source (index + (x.count + y.count)) = .ok c ∧
        w.read complete source (index + (x.count + y.count + z.count)) = .ok d ∧
        f a b c d = r := by
  simp only [read_seq_eq_ok_iff, read_map_eq_ok_iff]
  constructor
  · rintro ⟨_, ⟨_, ⟨_, ⟨a, ha, rfl⟩, b, hb, rfl⟩, c, hc, rfl⟩, d, hd, rfl⟩
    exact ⟨a, b, c, d, ha, hb, hc, hd, rfl⟩
  · rintro ⟨a, b, c, d, ha, hb, hc, hd, rfl⟩
    exact ⟨_, ⟨_, ⟨_, ⟨a, ha, rfl⟩, b, hb, rfl⟩, c, hc, rfl⟩, d, hd, rfl⟩

/-- A record of five fields is read if all five are. -/
theorem read_seq₅_eq_ok_iff {f : α → β → γ → δ → ε → ζ} {r : ζ} :
    (f <$> x <*> y <*> z <*> w <*> u).read complete source index = .ok r ↔
      ∃ a b c d e, x.read complete source index = .ok a ∧
        y.read complete source (index + x.count) = .ok b ∧
        z.read complete source (index + (x.count + y.count)) = .ok c ∧
        w.read complete source (index + (x.count + y.count + z.count)) = .ok d ∧
        u.read complete source (index + (x.count + y.count + z.count + w.count)) = .ok e ∧
        f a b c d e = r := by
  rw [read_seq_eq_ok_iff]
  simp only [read_seq₄_eq_ok_iff]
  constructor
  · rintro ⟨_, ⟨a, b, c, d, ha, hb, hc, hd, rfl⟩, e, he, rfl⟩
    exact ⟨a, b, c, d, e, ha, hb, hc, hd, he, rfl⟩
  · rintro ⟨a, b, c, d, e, ha, hb, hc, hd, he, rfl⟩
    exact ⟨_, ⟨a, b, c, d, ha, hb, hc, hd, rfl⟩, e, he, rfl⟩

end Seq

/-- A list with refined items is read if the plain list is and the rule lets all its items pass. -/
theorem read_defaulted_listOf_refine_eq_ok_iff {name : String} {item : Decoder α}
    {rule : α → Except String β} {bs : List β} :
    (defaulted name [] (Decoder.listOf (Decoder.refine item rule))).read complete source index =
        .ok bs ↔
      ∃ as, (defaulted name [] (Decoder.listOf item)).read complete source index = .ok as ∧
        List.Forall₂ (rule · = .ok ·) as bs := by
  have hempty : absent (some []) (some []) source = some bs ↔ bs = [] := by
    cases source <;> simp [absent, eq_comm]
  have hempty' : ∀ as : List α, absent (some []) (some []) source = some as ↔ as = [] := by
    intro as
    cases source <;> simp [absent, eq_comm]
  simp only [defaulted, read_field_eq_ok_iff, Decoder.listOf_eq_ok_iff, Decoder.refine_eq_ok_iff,
    forall₂_exists_iff, hempty, hempty']
  constructor
  · rintro (⟨hnone, rfl⟩ | ⟨v, hv, vs, rfl, as, has, hrule⟩)
    · exact ⟨[], .inl ⟨hnone, rfl⟩, .nil⟩
    · exact ⟨as, .inr ⟨_, hv, vs, rfl, has⟩, hrule⟩
  · rintro ⟨as, ⟨hnone, rfl⟩ | ⟨v, hv, vs, rfl, has⟩, hrule⟩
    · exact .inl ⟨hnone, List.forall₂_nil_left_iff.1 hrule⟩
    · exact .inr ⟨_, hv, vs, rfl, as, has, hrule⟩

end Fields

/-! ## Records -/

/-- The written form of a record of so many fields. -/
def sourceOf? (count : Nat) : Json → Option Source
  | .object fields => if (Fields.brokenKey? fields).isNone then some (.object fields) else none
  | .array items => if items.length ≤ count then some (.array items) else none
  | _ => none

/-- A record is read from a written form of it all of whose fields are read. -/
theorem recordOf_eq_ok_iff {α : Type} {kind : String} {fs : Fields α} {v : Json} {a : α} :
    recordOf kind fs v = .ok a ↔
      ∃ source, sourceOf? fs.count v = some source ∧
        fs.read s!"struct {kind} with {elementCount fs.count}" source 0 = .ok a := by
  cases v with
  | object fields =>
    simp only [recordOf, Fields.ofObject, sourceOf?]
    cases Fields.brokenKey? fields with
    | none =>
      simp only [Option.isNone_none, if_true, Option.some.injEq, exists_eq_left']
      generalize fs.read _ (.object fields) 0 = result
      cases result <;> simp
    | some place => cases fs.read _ (.object fields) 0 <;> simp
  | array items =>
    simp only [recordOf, Fields.ofArray, sourceOf?]
    by_cases hlength : items.length ≤ fs.count
    · simp only [if_pos hlength, if_neg (Nat.not_lt.2 hlength), Option.some.injEq, exists_eq_left']
      generalize fs.read _ (.array items) 0 = result
      cases result <;> simp
    · cases fs.read _ (.array items) 0 <;> simp [hlength, Nat.not_le.1 hlength]
  | null | bool | number | string =>
    simp [recordOf, sourceOf?, Decoder.mismatch_ne_ok]

/-! ## Values made of what is read -/

section Map

variable {α β γ δ ε : Type} {complete : String} {source : Source} {index : Nat}

namespace Fields

private theorem eq_of_read {x y : Fields α} (hcount : x.count = y.count)
    (hread : ∀ complete source index,
      x.read complete source index = y.read complete source index) : x = y := by
  cases x
  cases y
  obtain rfl := hcount
  congr 1
  funext complete source index
  exact hread complete source index

private theorem read_map (g : α → β) (fs : Fields α) :
    (g <$> fs).read complete source index = (fs.read complete source index).map g :=
  rfl

/-- Two fields made into a value at once are made into it in two steps. -/
theorem map_seq (g : α → β) (h : γ → δ) (f : β → δ → ε) (x : Fields α) (y : Fields γ) :
    f <$> (g <$> x) <*> (h <$> y) = (fun a c => f (g a) (h c)) <$> x <*> y := by
  refine eq_of_read rfl fun complete source index => ?_
  change both (((x.read complete source index).map g).map f)
      ((y.read complete source (index + x.count)).map h) =
    both ((x.read complete source index).map fun a c => f (g a) (h c))
      (y.read complete source (index + x.count))
  cases x.read complete source index <;> cases y.read complete source (index + x.count) <;> rfl

/-- A function of two fields after another one is their composition. -/
theorem map_map_seq (g : γ → δ) (f : α → β → γ) (x : Fields α) (y : Fields β) :
    g <$> (f <$> x <*> y) = (fun a b => g (f a b)) <$> x <*> y := by
  refine eq_of_read rfl fun complete source index => ?_
  change (both ((x.read complete source index).map f)
      (y.read complete source (index + x.count))).map g =
    both ((x.read complete source index).map fun a b => g (f a b))
      (y.read complete source (index + x.count))
  cases x.read complete source index <;> cases y.read complete source (index + x.count) <;> rfl

/-- A field whose values are mapped is a mapped field. -/
theorem field_map (name : String) (item : Decoder α) (g : α → β) (inObject inArray : Option α) :
    field name (fun v => (item v).map g) (inObject.map g) (inArray.map g) =
      g <$> field name item inObject inArray := by
  refine eq_of_read rfl fun complete source index => ?_
  rw [read_map]
  cases source with
  | object fields =>
    simp only [field]
    rcases occurrences name fields with _ | ⟨⟨place, v⟩, more⟩
    · cases inObject <;> rfl
    · cases hv : item v <;> cases more <;> simp [hv, Except.map]
  | array items =>
    simp only [field]
    cases items[index]? with
    | none => cases inArray <;> rfl
    | some v => cases hv : item v <;> simp [hv, Except.map]

end Fields

/-- A value made of a record is read as the record is. -/
theorem recordOf_map (kind : String) (fs : Fields α) (g : α → β) (v : Json) :
    recordOf kind (g <$> fs) v = (recordOf kind fs v).map g := by
  have hcount : (g <$> fs).count = fs.count := rfl
  cases v with
  | object fields =>
    simp only [recordOf, Fields.ofObject, Fields.read_map, hcount]
    cases fs.read s!"struct {kind} with {elementCount fs.count}" (.object fields) 0 <;>
      cases Fields.brokenKey? fields <;> rfl
  | array items =>
    simp only [recordOf, Fields.ofArray, Fields.read_map, hcount]
    cases fs.read s!"struct {kind} with {elementCount fs.count}" (.array items) 0 with
    | error e => rfl
    | ok a =>
      simp only [Except.map]
      split <;> rfl
  | null | bool | number | string =>
    simp only [recordOf, Decoder.mismatch, bind, Except.bind]
    cases Decoder.found _ <;> rfl

/-- A text is parsed to a mapped value as to the value itself. -/
theorem parse_map (item : Decoder α) (g : α → β) (s : String) :
    parse (fun v => (item v).map g) s = (parse item s).map g := by
  unfold parse
  cases read s <;> rfl

end Map

/-! ## Written records -/

section Written

variable {α : Type} {fields : List (String × Json)}

/-- The keys of a written record are texts. -/
theorem sourceOf?_record (count : Nat) (fields : List (String × Json)) :
    sourceOf? count (.record fields) =
      some (.object (fields.map fun (name, v) => (some name, v))) := by
  have hkeys : Fields.brokenKey? (fields.map fun (name, v) => (some name, v)) = none := by
    simp [Fields.brokenKey?]
  simp only [record, sourceOf?, hkeys, Option.isNone_none, if_true]

private theorem filterMap_eq_lookup (h : (fields.map (·.1)).Nodup) (name : String) :
    (fields.filterMap fun field => if field.1 = name then some field.2 else none) =
      (fields.lookup name).toList := by
  induction fields with
  | nil => rfl
  | cons field fields ih =>
    obtain ⟨hfresh, hnodup⟩ := List.nodup_cons.1 h
    rw [List.filterMap_cons, ih hnodup, List.lookup_cons]
    by_cases hkey : field.1 = name
    · have hnone : fields.lookup name = none := by
        rw [List.lookup_eq_none_iff]
        intro other hother
        have hne : name ≠ other.1 := by
          rintro rfl
          exact hfresh (List.mem_map.2 ⟨other, hother, hkey.symm⟩)
        simpa using hne
      simp [hkey, hnone]
    · have hbeq : (name == field.1) = false := beq_false_of_ne (Ne.symm hkey)
      simp only [if_neg hkey, hbeq]

/-- For a field of a written record with different names stands what was written for it. -/
theorem Fields.standing_record (h : (fields.map (·.1)).Nodup) (name : String) (index : Nat) :
    standing name (.object (fields.map fun (name, v) => (some name, v))) index =
      some (fields.lookup name) := by
  have hvalues : ((fields.map fun (name, v) => (some name, v)).filterMap
      fun ((key, v) : Key × Json) => if key = some name then some v else none) =
        (fields.lookup name).toList := by
    rw [List.filterMap_map, ← filterMap_eq_lookup h]
    simp
  simp only [standing, hvalues]
  cases fields.lookup name <;> rfl

/-- A field of a written record is read from what was written for it. -/
theorem Fields.read_field_record_eq_ok_iff (h : (fields.map (·.1)).Nodup) {name complete : String}
    {index : Nat} {item : Decoder α} {inObject inArray : Option α} {a : α} :
    (field name item inObject inArray).read complete
        (.object (fields.map fun (name, v) => (some name, v))) index = .ok a ↔
      (fields.lookup name).elim (inObject = some a) (item · = .ok a) := by
  rw [read_field_eq_ok_iff, standing_record h]
  cases fields.lookup name <;> simp [absent]

/-- A field that is written once is read from what is written. -/
theorem Fields.read_field_written_eq_ok_iff (h : (fields.map (·.1)).Nodup)
    {name complete : String} {v : Json} (hv : fields.lookup name = some v) {index : Nat}
    {item : Decoder α} {inObject inArray : Option α} {a : α} :
    (field name item inObject inArray).read complete
        (.object (fields.map fun (name, v) => (some name, v))) index = .ok a ↔ item v = .ok a := by
  rw [read_field_record_eq_ok_iff h, hv, Option.elim_some]

/-- A record is read from a written record if its fields are. -/
theorem recordOf_record_eq_ok_iff {kind : String} {fs : Fields α} {a : α} :
    recordOf kind fs (.record fields) = .ok a ↔
      fs.read s!"struct {kind} with {elementCount fs.count}"
        (.object (fields.map fun (name, v) => (some name, v))) 0 = .ok a := by
  simp only [recordOf_eq_ok_iff, sourceOf?_record, Option.some.injEq, exists_eq_left']

end Written

end PathSelection.Json
