import PathSelection.Device.Descriptor
import PathSelection.Dict

/-!
# Device registries

Devices by name, in the order in which the names were first registered.  A
registry holds the devices in a list and the place of each name in it.

Main results:

- Theorem `Registry.get_put_self`: the device that was put last under a name is found there.
- Theorem `Registry.get_put_of_ne`: all other names keep their devices.
-/

namespace PathSelection

/-- The registered devices, at most one of a name. -/
structure Registry (α : Type) where
  devices : List (Descriptor α)
  /-- the places of the names among the devices -/
  places : Dict String Nat
  /-- a name has a place exactly if the device in that place has the name -/
  places_iff : ∀ name i, places.get? name = some i ↔ devices[i]?.map Descriptor.name = some name

namespace Registry

variable {α : Type} {r : Registry α} {d : Descriptor α} {name : String} {i : Nat}

/-- The registry without devices. -/
def empty : Registry α := ⟨[], [], fun _ _ => by simp [Dict.get?]⟩

/-- The place of a name is one of a device. -/
theorem lt_of_get?_places (h : r.places.get? name = some i) : i < r.devices.length := by
  obtain ⟨d, hd, -⟩ := Option.map_eq_some_iff.1 ((r.places_iff name i).1 h)
  exact (List.getElem?_eq_some_iff.1 hd).1

/-! ## One more device -/

/-- With a device in the place of one with its name all places stay right. -/
theorem places_iff_set (h : r.places.get? d.name = some i) (name : String) (j : Nat) :
    r.places.get? name = some j ↔
      (r.devices.set i d)[j]?.map Descriptor.name = some name := by
  have hplace := (r.places_iff d.name i).1 h
  rw [r.places_iff, List.getElem?_set]
  by_cases hij : i = j
  · subst hij
    rw [hplace, if_pos rfl, if_pos (lt_of_get?_places h)]
    rfl
  · rw [if_neg hij]

/-- With a device of a new name behind all others the places stay right. -/
theorem places_iff_append (h : r.places.get? d.name = none) (name : String) (j : Nat) :
    Dict.get? (r.places.put d.name r.devices.length) name = some j ↔
      (r.devices ++ [d])[j]?.map Descriptor.name = some name := by
  have hnew : r.devices[j]?.map Descriptor.name ≠ some d.name := by
    intro hj
    rw [(r.places_iff d.name j).2 hj] at h
    cases h
  by_cases hname : name = d.name
  · subst hname
    rw [Dict.get?_put_self, Option.some.injEq]
    rcases Nat.lt_trichotomy j r.devices.length with hj | rfl | hj
    · rw [List.getElem?_append_left hj]
      exact ⟨fun h => absurd h (Nat.ne_of_gt hj), fun h => absurd h hnew⟩
    · simp
    · rw [List.getElem?_eq_none (by rw [List.length_append]; exact hj)]
      exact ⟨fun h => absurd h (Nat.ne_of_lt hj), fun h => by cases h⟩
  · rw [Dict.get?_put_of_ne _ (beq_eq_false_iff_ne.2 hname), r.places_iff]
    rcases Nat.lt_trichotomy j r.devices.length with hj | rfl | hj
    · rw [List.getElem?_append_left hj]
    · simpa using fun h => hname h.symm
    · rw [List.getElem?_eq_none (Nat.le_of_lt hj),
        List.getElem?_eq_none (by rw [List.length_append]; exact hj)]

/-- The registry with one more device; it takes the place of one with its name. -/
def put (r : Registry α) (d : Descriptor α) : Registry α :=
  match h : r.places.get? d.name with
  | some i => ⟨r.devices.set i d, r.places, places_iff_set h⟩
  | none => ⟨r.devices ++ [d], r.places.put d.name r.devices.length, places_iff_append h⟩

/-- Work on a registry that may fail. -/
abbrev Registering (α : Type) := EStateM DeviceError (Registry α)

/-- Registers a device, which must be valid. -/
def register [Scalar α] (d : Descriptor α) : Registering α Unit := do
  match d.validate with
  | .ok () => modify (put · d)
  | .error e => throw e

/-! ## Queries -/

/-- The device of a name. -/
def get (r : Registry α) (name : String) : Except DeviceError (Descriptor α) :=
  match h : r.places.get? name with
  | some i => .ok (r.devices.get ⟨i, lt_of_get?_places h⟩)
  | none => .error (.unknown name)

/-- The names in order. -/
def names (r : Registry α) : List String := r.devices.map (·.name)

/-- The number of devices. -/
def size (r : Registry α) : Nat := r.devices.length

/-- Are there no devices? -/
def isEmpty (r : Registry α) : Bool := r.devices.isEmpty

/-- The number of qubits of the largest device. -/
def maxNumQubits (r : Registry α) : Nat := (r.devices.map (·.numQubits)).foldl max 0

/-- A listed device stands in the place of its name. -/
theorem exists_place_of_mem (h : d ∈ r.devices) :
    ∃ i, r.devices[i]? = some d ∧ r.places.get? d.name = some i := by
  obtain ⟨i, hi⟩ := List.getElem?_of_mem h
  exact ⟨i, hi, (r.places_iff d.name i).2 (by rw [hi]; rfl)⟩

/-- The device of a name is the listed one that has it. -/
theorem get_eq_ok_iff : r.get name = .ok d ↔ d ∈ r.devices ∧ d.name = name := by
  unfold get
  split
  · rename_i i hi
    have hplace := (r.places_iff name i).1 hi
    rw [List.getElem?_eq_getElem (lt_of_get?_places hi)] at hplace
    rw [Except.ok.injEq]
    constructor
    · rintro rfl
      exact ⟨List.getElem_mem _, Option.some.inj hplace⟩
    · rintro ⟨hmem, rfl⟩
      obtain ⟨j, hj, hj'⟩ := exists_place_of_mem hmem
      obtain rfl : i = j := Option.some.inj (hi.symm.trans hj')
      obtain ⟨_, hd⟩ := List.getElem?_eq_some_iff.1 hj
      exact hd
  · rename_i hnone
    constructor
    · intro h
      cases h
    · rintro ⟨hmem, rfl⟩
      obtain ⟨i, -, hi⟩ := exists_place_of_mem hmem
      cases hnone.symm.trans hi

/-- The only problem with a name is that it is unknown. -/
theorem get_eq_error {e : DeviceError} (h : r.get name = .error e) : e = .unknown name := by
  unfold get at h
  split at h
  · cases h
  · exact (Except.error.inj h).symm

/-- Beside the new device the others of other names are listed. -/
theorem mem_devices_put {e : Descriptor α} :
    e ∈ (r.put d).devices ↔ e = d ∨ e ∈ r.devices ∧ e.name ≠ d.name := by
  unfold put
  split
  · rename_i i hi
    have hlt := lt_of_get?_places hi
    constructor
    · intro h
      obtain ⟨j, hj⟩ := List.getElem?_of_mem h
      by_cases hij : i = j
      · rw [← hij, List.getElem?_set_self hlt] at hj
        exact .inl (Option.some.inj hj).symm
      · rw [List.getElem?_set_ne hij] at hj
        refine .inr ⟨List.mem_of_getElem? hj, fun hname => hij ?_⟩
        have hj' := (r.places_iff d.name j).2 (by rw [hj, ← hname]; rfl)
        exact Option.some.inj (hi.symm.trans hj')
    · rintro (rfl | ⟨hmem, hname⟩)
      · exact List.mem_set hlt e
      · obtain ⟨j, hj, hj'⟩ := exists_place_of_mem hmem
        have hij : i ≠ j := by
          rintro rfl
          have hd := (r.places_iff d.name i).1 hi
          rw [hj] at hd
          exact hname (Option.some.inj hd)
        exact List.mem_of_getElem? ((List.getElem?_set_ne hij).trans hj)
  · rename_i hnone
    rw [List.mem_append, List.mem_singleton, or_comm]
    refine or_congr_right ⟨fun hmem => ⟨hmem, fun hname => ?_⟩, fun h => h.1⟩
    obtain ⟨i, -, hi⟩ := exists_place_of_mem hmem
    rw [hname] at hi
    cases hnone.symm.trans hi

/-- The device that was put last under a name is found there. -/
@[simp]
theorem get_put_self (r : Registry α) (d : Descriptor α) : (r.put d).get d.name = .ok d :=
  get_eq_ok_iff.2 ⟨mem_devices_put.2 (.inl rfl), rfl⟩

/-- All other names keep their devices. -/
theorem get_put_of_ne (r : Registry α) (h : name ≠ d.name) : (r.put d).get name = r.get name := by
  have hsame : ∀ e, (r.put d).get name = .ok e ↔ r.get name = .ok e := by
    intro e
    rw [get_eq_ok_iff, get_eq_ok_iff, mem_devices_put]
    constructor
    · rintro ⟨rfl | ⟨hmem, -⟩, hname⟩
      · exact absurd hname.symm h
      · exact ⟨hmem, hname⟩
    · rintro ⟨hmem, rfl⟩
      exact ⟨.inr ⟨hmem, h⟩, rfl⟩
  cases hget : r.get name with
  | ok e => exact (hsame e).2 hget
  | error e =>
    rw [get_eq_error hget]
    cases hput : (r.put d).get name with
    | ok e => cases ((hsame e).1 hput).symm.trans hget
    | error e => rw [get_eq_error hput]

/-- The couplers of a device, in its own layout or in another. -/
def couplingMap (r : Registry α) (name : String) (topology : Option Topology) :
    Except DeviceError CouplingMap := do
  let d ← r.get name
  return (topology.getD d.topology).couplingMap

/-! ## Built-in devices -/

variable [Scalar α]

/-- A decimal number of which a given number of digits stand behind the point. -/
def decimal (coefficient places : Nat) : α := Scalar.ofDecimal ⟨false, coefficient, -(places : Int)⟩

/-- The five built-in devices. -/
def builtinDevices : List (Descriptor α) := [
  { (Descriptor.ofProvider .ibm "ibm_washington" 127 : Descriptor α) with
    t1 := decimal 10339 2, t2 := decimal 9775 2
    gateTime1 := decimal 1598 4, gateTime2 := decimal 55041 5
    fidelity1 := decimal 998401 6, fidelity2 := decimal 95439 5
    topology := .heavyHex127, calibrationFile := some "ibmq_washington_calibrations.csv" },
  { (Descriptor.ofProvider .ibm "ibm_montreal" 27 : Descriptor α) with
    t1 := decimal 12055 2, t2 := decimal 7416 2
    gateTime1 := decimal 206 3, gateTime2 := decimal 426159 6
    fidelity1 := decimal 9994951 7, fidelity2 := decimal 98129 5
    topology := .heavyHex27, calibrationFile := some "ibmq_montreal_calibrations.csv" },
  { (Descriptor.ofProvider .ionq "ionq" 11 : Descriptor α) with
    t1 := decimal 10000 0, t2 := decimal 2 1
    gateTime1 := decimal 1 5, gateTime2 := decimal 2 4
    fidelity1 := decimal 9963 4, fidelity2 := decimal 9581 4
    topology := .full 11, calibrationFile := some "ionq_calibration.json" },
  { (Descriptor.ofProvider .rigetti "rigetti_m1" 80 : Descriptor α) with
    t1 := decimal 33845 3, t2 := decimal 28230 3
    gateTime1 := decimal 60 3, gateTime2 := decimal 160 3
    fidelity1 := decimal 997 3, fidelity2 := decimal 93 2
    topology := .aspenM1, calibrationFile := some "rigetti_m1_calibration.json" },
  { (Descriptor.ofProvider .oqc "oqc_lucy" 8 : Descriptor α) with
    t1 := decimal 342375 4, t2 := decimal 492875 4
    gateTime1 := decimal 60 3, gateTime2 := decimal 160 3
    fidelity1 := decimal 99905 5, fidelity2 := decimal 9375 4
    topology := .lucy, calibrationFile := some "oqc_lucy_calibration.json" }]

/-- The registry of the built-in devices. -/
def builtin : Registry α := builtinDevices.foldl put empty

/-- The built-in device of a name. -/
def builtinDevice (name : String) : Except DeviceError (Descriptor α) := builtin.get name

end Registry

end PathSelection
