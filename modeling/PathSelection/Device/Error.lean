import PathSelection.Json.Decode
import PathSelection.Storage.Fault

/-!
# Problems with devices

Why a device is unknown or refused, or its calibration data cannot be used.
-/

namespace PathSelection

/-- Why calibration data cannot be read. -/
inductive CalibrationFault where
  /-- the data is no document of its schema -/
  | document (cause : Json.DecodeError)
  /-- the data breaks another rule -/
  | rule (message : String)

/-- The wording of a fault. -/
def CalibrationFault.message : CalibrationFault → String
  | document cause => cause.message
  | rule message => message

/-- A problem with a device or its calibration data. -/
inductive DeviceError where
  | unknown (name : String)
  | noCalibration (name : String)
  | missingEntry (entry : String)
  | calibration (source : String) (fault : CalibrationFault)
  | invalidDescriptor (name reason : String)
  | storage (fault : FileFault)

/-- The wording of a problem. -/
def DeviceError.message : DeviceError → String
  | unknown name => s!"Unknown backend: {name}"
  | noCalibration name => s!"No calibration data for backend '{name}'"
  | missingEntry entry => s!"Calibration entry missing: {entry}"
  | calibration source fault =>
    s!"Failed to parse calibration data from {source}: {fault.message}"
  | invalidDescriptor name reason => s!"Invalid backend descriptor '{name}': {reason}"
  | storage fault => s!"I/O error: {fault.message}"

end PathSelection
