import Movesets.CommandLine

set_option autoImplicit false

/-!
# The program

Runs the command line on the files of the machine.
-/

namespace Movesets.Main

/-- The result of an action, if it succeeds. -/
def attempt {α : Type} (action : IO α) : IO (Option α) := do
  try return some (← action) catch _ => return none

instance : Disk IO where
  hasPath path := return (← attempt (IO.FS.realPath path)).isSome
  readText path := attempt (IO.FS.readFile path)
  writeText path text := return (← attempt (IO.FS.writeFile path text)).isSome
  makeDirectory path := return path = "" || (← attempt (IO.FS.createDirAll path)).isSome

/-- The settings that the environment may override. -/
def overridable : List String :=
  ["CYCLE_MODE", "PRESERVE_CONDITIONS", "COMBO_WINDOW_MS", "SWEEP_INTERVAL_MS", "OUTPUT_DIR",
    "DEBUG_MODE"]

/-- The overrides that are set. -/
def environment : IO (List (String × String)) := do
  let found ← overridable.mapM fun name => do
    let name := "STANCECRAFT_" ++ name
    return (← IO.getEnv name).map fun value => (name, value)
  return found.filterMap id

end Movesets.Main

def main (args : List String) : IO UInt32 := do
  let ending ← Movesets.CommandLine.program args (← Movesets.Main.environment)
  IO.print ending.output
  IO.eprint ending.error
  return UInt32.ofNat ending.code
