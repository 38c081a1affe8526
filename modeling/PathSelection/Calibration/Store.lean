import PathSelection.Calibration.Table
import PathSelection.Device.Registry
import PathSelection.Storage.Basic

/-!
# Calibration stores

Calibration tables by the name of their device.
-/

namespace PathSelection

/-- The calibration tables of devices. -/
abbrev CalibrationStore (α : Type) := Dict String (CalibrationTable α)

namespace CalibrationStore

variable {α : Type} [Scalar α]

/-- The table of a device. -/
def get (s : CalibrationStore α) (device : String) : Except DeviceError (CalibrationTable α) :=
  match Dict.get? s device with
  | some t => .ok t
  | none => .error (.noCalibration device)

/-- Does a device have a table? -/
def contains (s : CalibrationStore α) (device : String) : Bool := (Dict.get? s device).isSome

/-- The store with the table of one more device, if its export is in a directory. -/
def addExport (storage : Storage) (directory : String) (s : CalibrationStore α)
    (d : Descriptor α) : Except DeviceError (CalibrationStore α) :=
  match d.calibrationFile with
  | none => .ok s
  | some file =>
    let path := PathName.join directory file
    if storage.isFile path then
      match storage.read path with
      | .error fault => .error (.storage fault)
      | .ok text => do
        let t ← CalibrationTable.parse d.provider.schema path text
        return Dict.put d.name t s
    else .ok s

/-- The tables of all devices whose exports are in a directory. -/
def loadDirectory (storage : Storage) (directory : String) (registry : Registry α) :
    Except DeviceError (CalibrationStore α) :=
  registry.devices.foldlM (addExport storage directory) []

end CalibrationStore

end PathSelection
