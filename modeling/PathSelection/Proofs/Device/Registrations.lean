import PathSelection.Device.Registry
import PathSelection.Proofs.Lists

/-!
# Registrations of devices

A registry is a map from names to devices that keeps the names in order.  An attempt to
register an invalid device changes nothing.  A valid device comes behind the others or,
if one has its name, in the place of that one, so the names stay in the order of their
first registration while each has the device that was registered last.

Main results:

- Theorem `register_eq_error_iff`: which registrations fail, and what they leave.
- Theorem `names_put`: the names after one more device.
- Theorem `Records.put`: one more device keeps a registry in agreement with its history.
- Theorem `registry_after`: what a registry tells after a sequence of attempts.
-/

namespace PathSelection

variable {α : Type}

/-- Does a device pass the check? -/
def Descriptor.passes [Scalar α] (d : Descriptor α) : Bool := d.validate.isOk

namespace Registry

variable {r : Registry α} {d : Descriptor α} {name : String} {registered : List (Descriptor α)}

/-! ## Names -/

/-- The listed names are those that have a place. -/
theorem mem_names_iff : name ∈ r.names ↔ ∃ i, r.places.get? name = some i := by
  rw [List.mem_iff_getElem?]
  refine exists_congr fun i => ?_
  rw [r.places_iff, names, List.getElem?_map]

/-- Registries with the same places have the same names. -/
theorem names_eq_of_places {r' : Registry α} (h : r'.places = r.places) : r'.names = r.names := by
  refine List.ext_getElem? fun i => Option.ext fun name => ?_
  rw [names, names, List.getElem?_map, List.getElem?_map, ← r.places_iff, ← r'.places_iff, h]

/-- A new name comes behind the others, and one that is there keeps its place. -/
theorem names_put (r : Registry α) (d : Descriptor α) :
    (r.put d).names = if d.name ∈ r.names then r.names else r.names ++ [d.name] := by
  cases hplace : r.places.get? d.name with
  | some i =>
    rw [if_pos (mem_names_iff.2 ⟨i, hplace⟩)]
    refine names_eq_of_places ?_
    unfold put
    split
    · rfl
    · rename_i hnone
      cases hnone.symm.trans hplace
  | none =>
    have hnew : d.name ∉ r.names := fun hmem => by
      obtain ⟨i, hi⟩ := mem_names_iff.1 hmem
      cases hplace.symm.trans hi
    rw [if_neg hnew]
    unfold put
    split
    · rename_i i hi
      cases hplace.symm.trans hi
    · exact List.map_append

/-! ## Agreement with a history -/

/-- A registry with the names of a history in the order of their first appearance, and with the
last device of each name. -/
structure Records (r : Registry α) (registered : List (Descriptor α)) : Prop where
  names : r.names = (registered.map Descriptor.name).eraseDups
  get_iff : ∀ name d, r.get name = .ok d ↔ registered.findRev? (·.name == name) = some d

/-- The empty registry has no history. -/
theorem records_empty : (empty : Registry α).Records [] where
  names := rfl
  get_iff := fun _ _ => by simp [get_eq_ok_iff, empty]

/-- One more device keeps a registry in agreement with its history. -/
theorem Records.put (h : r.Records registered) (d : Descriptor α) :
    (r.put d).Records (registered ++ [d]) where
  names := by
    rw [names_put, h.names, List.map_append, List.map_singleton]
    split
    · rename_i hmem
      rw [eraseDups_concat_of_mem (List.mem_eraseDups.1 hmem)]
    · rename_i hmem
      rw [eraseDups_concat_of_not_mem fun h => hmem (List.mem_eraseDups.2 h)]
  get_iff := by
    intro name e
    rw [List.findRev?_eq_find?_reverse, List.reverse_concat, List.find?_cons,
      ← List.findRev?_eq_find?_reverse]
    by_cases hname : name = d.name
    · subst hname
      simp
    · rw [get_put_of_ne r hname, h.get_iff, beq_eq_false_iff_ne.2 (Ne.symm hname)]

/-- A registry to which devices are added records them. -/
theorem Records.putAll (h : r.Records registered) (devices : List (Descriptor α)) :
    (devices.foldl Registry.put r).Records (registered ++ devices) := by
  induction devices generalizing r registered with
  | nil => rwa [List.append_nil]
  | cons d devices ih =>
    rw [List.foldl_cons, List.append_cons]
    exact ih (h.put d)

/-- A name is unknown exactly if no device of the history has it. -/
theorem Records.get_eq_error_iff (h : r.Records registered) {e : DeviceError} :
    r.get name = .error e ↔ e = .unknown name ∧ ∀ d ∈ registered, d.name ≠ name := by
  have hnone : (∀ d ∈ registered, d.name ≠ name) ↔
      registered.findRev? (·.name == name) = none := by
    rw [List.findRev?_eq_find?_reverse, List.find?_eq_none]
    simp
  rw [hnone]
  cases hget : r.get name with
  | ok d =>
    rw [(h.get_iff name d).1 hget]
    simp
  | error fault =>
    rw [get_eq_error hget, Except.error.injEq, eq_comm]
    refine (and_iff_left ?_).symm
    refine Option.eq_none_iff_forall_ne_some.2 fun d hd => ?_
    cases hget.symm.trans ((h.get_iff name d).2 hd)

/-- A registry has as many devices as its history has names. -/
theorem Records.size_eq (h : r.Records registered) :
    r.size = (registered.map Descriptor.name).toFinset.card := by
  have hlength : r.names.length = r.size := List.length_map _
  rw [← hlength, h.names, length_eraseDups]

/-- No device is wider than the widest one, and one is as wide unless there is none. -/
theorem maxNumQubits_le_iff {n : Nat} :
    r.maxNumQubits ≤ n ↔ ∀ name d, r.get name = .ok d → d.numQubits ≤ n := by
  rw [maxNumQubits, foldl_max_le_iff, List.forall_mem_map]
  constructor
  · intro h name d hget
    exact h.2 d (get_eq_ok_iff.1 hget).1
  · intro h
    exact ⟨Nat.zero_le n, fun d hd => h d.name d (get_eq_ok_iff.2 ⟨hd, rfl⟩)⟩

/-! ## Attempts -/

variable [Scalar α]

private theorem register_eq (r : Registry α) (d : Descriptor α) :
    register d r = match d.validate with
      | .ok () => .ok () (r.put d)
      | .error e => .error e r := by
  unfold register
  cases d.validate <;> rfl

/-- A registration fails exactly if the device is invalid, and then changes nothing. -/
theorem register_eq_error_iff {e : DeviceError} {r' : Registry α} :
    register d r = .error e r' ↔ d.validate = .error e ∧ r' = r := by
  rw [register_eq]
  cases d.validate with
  | ok _ => simp
  | error fault => simp [eq_comm]

/-- The registry after an attempt to register a device. -/
def attempt (r : Registry α) (d : Descriptor α) : Registry α :=
  match register d r with
  | .ok () r' => r'
  | .error _ r' => r'

/-- The registry after attempts to register devices, one after another. -/
def after (r : Registry α) (attempts : List (Descriptor α)) : Registry α :=
  attempts.foldl attempt r

/-- Only a device that passes the check is added. -/
theorem attempt_eq (r : Registry α) (d : Descriptor α) :
    r.attempt d = if d.passes then r.put d else r := by
  unfold attempt Descriptor.passes
  rw [register_eq]
  cases d.validate <;> rfl

/-- Of the attempts those count whose device passes the check. -/
theorem after_eq (r : Registry α) (attempts : List (Descriptor α)) :
    r.after attempts = (attempts.filter Descriptor.passes).foldl put r := by
  rw [List.foldl_filter]
  unfold after
  congr 1
  funext r d
  exact attempt_eq r d

/--
After any attempts to register devices, in a registry of some devices to start with, the
names are in the order of their first successful registration and each name has the device
that was registered last.
-/
theorem registry_after (initial attempts : List (Descriptor α)) :
    let r := (initial.foldl put empty).after attempts
    let registered := initial ++ attempts.filter Descriptor.passes
    (∀ d e r', register d r = .error e r' ↔ d.validate = .error e ∧ r' = r) ∧
    r.names = (registered.map Descriptor.name).eraseDups ∧ r.names.Nodup ∧
    (∀ name d, r.get name = .ok d ↔ registered.findRev? (·.name == name) = some d) ∧
    (∀ name e, r.get name = .error e ↔
      e = .unknown name ∧ ∀ d ∈ registered, d.name ≠ name) ∧
    r.size = (registered.map Descriptor.name).toFinset.card ∧
    (∀ n, r.maxNumQubits ≤ n ↔ ∀ name d, r.get name = .ok d → d.numQubits ≤ n) ∧
    ∃ wide narrow : Descriptor Float, narrow.name = wide.name ∧
      (empty.after [wide, narrow]).maxNumQubits < (empty.after [wide]).maxNumQubits := by
  intro r registered
  have h : r.Records registered := by
    have hinitial := (records_empty (α := α)).putAll initial
    have hall := hinitial.putAll (attempts.filter Descriptor.passes)
    rwa [← after_eq, List.nil_append] at hall
  refine ⟨fun _ _ _ => register_eq_error_iff, h.names, ?_, h.get_iff,
    fun _ _ => h.get_eq_error_iff, h.size_eq, fun _ => maxNumQubits_le_iff, ?_⟩
  · rw [h.names]
    exact nodup_eraseDups _
  · exact ⟨.ofProvider .ibm "device" 2, .ofProvider .ibm "device" 1, rfl, by decide +kernel⟩

end Registry

end PathSelection
