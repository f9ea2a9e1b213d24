import Movesets.Cycler
import Movesets.Data.Decoding

set_option autoImplicit false

/-!
# User settings

The settings with their defaults, as the record under one key of the settings file.
-/

namespace Movesets

def CycleMode.ofData? (R : Reading) (d : Data) : Option CycleMode :=
  (d.asName? R).bind CycleMode.parse?

structure Settings where
  cycleMode : CycleMode
  preserveConditions : Bool
  comboWindow : Nat
  sweepInterval : Nat
  outputDir : String
  debugMode : Bool
  deriving DecidableEq, Repr

namespace Settings

def default : Settings := ⟨.sequential, false, 1500, 250, "output", false⟩

/-- The key of the settings in their file. -/
def fileKey : String := "Stancecraft_Settings"

def ofData? (R : Reading) (d : Data) : Option Settings := do
  let fields ← d.asFields? R
  let cycleMode ← Data.optional? fields "Cycle Mode" default.cycleMode
    (CycleMode.ofData? R)
  let preserveConditions ← Data.optional? fields "Preserve Conditions" false Data.asBool?
  let comboWindow ← Data.optional? fields "Combo Window Ms" default.comboWindow Data.asWord?
  let sweepInterval ← Data.optional? fields "Sweep Interval Ms" default.sweepInterval Data.asWord?
  let outputDir ← Data.optional? fields "Output Dir" default.outputDir Data.asText?
  let debugMode ← Data.optional? fields "Debug Mode" false Data.asBool?
  return ⟨cycleMode, preserveConditions, comboWindow, sweepInterval, outputDir, debugMode⟩

/-- The settings of a settings file; a file without them holds the defaults. -/
def ofFile? (R : Reading) (d : Data) : Option Settings := do
  let fields ← d.asFields? R
  Data.optional? fields fileKey default (ofData? R)

def toFile (s : Settings) : Data :=
  .record [(fileKey, .record [("Cycle Mode", .text s.cycleMode.print),
    ("Preserve Conditions", .bool s.preserveConditions),
    ("Combo Window Ms", .ofNat s.comboWindow), ("Sweep Interval Ms", .ofNat s.sweepInterval),
    ("Output Dir", .text s.outputDir), ("Debug Mode", .bool s.debugMode)])]

end Settings

end Movesets
