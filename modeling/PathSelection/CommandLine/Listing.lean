import PathSelection.Calibration.Store
import PathSelection.Catalog

/-!
# Listings

The lines that show the catalog of paths and the built-in devices.

Main result:

- Theorem `length_padRight`: a padded text is as wide as it should be, or as
  wide as the text.
-/

namespace PathSelection.CommandLine

/-- A text with blanks behind it up to a width. -/
def padRight (width : Nat) (text : String) : String :=
  text ++ String.ofList (List.replicate (width - text.length) ' ')

/-- A text with blanks in front of it up to a width. -/
def padLeft (width : Nat) (text : String) : String :=
  String.ofList (List.replicate (width - text.length) ' ') ++ text

/-- A padded text is as wide as it should be, or as wide as the text. -/
theorem length_padRight (width : Nat) (text : String) :
    (padRight width text).length = max width text.length := by
  simp [padRight]
  omega

/-- The settings of a path. -/
def settings (p : CompilationPath) : String :=
  match p.level with
  | some level => s!"opt {level}"
  | none => s!"{p.layout.name} placement"

/-- The line of a path. -/
def pathLine (p : CompilationPath) : String :=
  "  " ++ padLeft 2 (natText p.index) ++ "  " ++ padRight 28 p.name ++ " "
    ++ padRight 7 p.toolchain.name ++ " " ++ padRight 15 p.device ++ " " ++ settings p

/-- The lines of the catalog. -/
def pathLines : List String :=
  ["qpath Compilation paths:", ""] ++ CompilationPath.catalog.map pathLine

/-- The lines of a device. -/
def deviceLines (calibrations : CalibrationStore Float) (d : Descriptor Float) : List String :=
  let calibrated := CalibrationStore.contains calibrations d.name
  let sign := if calibrated then "●" else "○"
  let gates := ", ".intercalate d.nativeGates
  let fidelity1 := fixedText 5 d.fidelity1
  let fidelity2 := fixedText 5 d.fidelity2
  [s!"  {sign} {d.name} ({d.provider.name})", s!"    Qubits: {d.numQubits}",
    s!"    Fidelity: 1Q {fidelity1}, 2Q {fidelity2}", s!"    Gates: {gates}"]
    ++ (if calibrated then [] else ["    No calibration data, analytical scoring only"]) ++ [""]

/-- The lines of the built-in devices. -/
def registryLines (calibrations : CalibrationStore Float) : List String :=
  ["qpath Built-in backends:", ""]
    ++ (Registry.builtin : Registry Float).devices.flatMap (deviceLines calibrations)

end PathSelection.CommandLine
