/-
The command line program.

It gathers what a call may look at, the files it can name and the variables of the process, leaves
the work to the report, and writes that out.
-/
import BareBones.CommandLine.Report

namespace BareBones.CommandLine

/-- What the path leads to. -/
def lookAt (path : String) : IO (Option FileEntry) := do
  try
    return some (.file (← IO.FS.readBinFile path))
  catch _ =>
    try
      let _ ← IO.FS.withFile path .read fun _ => pure ()
      return some .directory
    catch _ => return none

/-- The paths that a settings file can have. -/
def settingsPaths (path : String) : List String :=
  path :: Format.extensions.filterMap fun (extension, _) => Path.withExtension? path extension

/-- The paths that a call may look at. -/
def pathsOf (args : List String) : List String :=
  match Invocation.parse args with
  | .ok i => i.file :: settingsPaths (i.config.getD Settings.usualPath)
  | .error _ => []

/-- The names that variables of the process with settings can have. -/
def variableNames : List String :=
  ["BBEAT_VERBOSE", "BBEAT_SNAPSHOT_FORMAT", "BBEAT_MAX_CALL_DEPTH",
    "BBEAT_CONDITIONALS_IN_FUNCTIONS"]

/-- The variables of the process with settings. -/
def readVariables : IO (List (String × String)) := do
  let mut found := []
  for name in variableNames.map lowerCase ++ variableNames do
    if let some value ← IO.getEnv name then
      found := (name, value) :: found
  return found.reverse

/-- The steps that a run may take: more than any run will. -/
def fuel : Nat := Nat.pow 2 62

/-- Carries out a call and gives the code to exit with. -/
def runProcess (args : List String) : IO UInt32 := do
  let mut known : List (String × FileEntry) := []
  for path in pathsOf args do
    if let some entry ← lookAt path then
      known := (path, entry) :: known
  let files : Files := fun path => (known.find? (·.1 == path)).map (·.2)
  let seed : Arithmetic.Generator := ⟨UInt64.ofNat (← IO.monoNanosNow)⟩
  let result := exitOf files (← readVariables) fuel seed args
  let out ← IO.getStdout
  out.putStr result.stdout
  out.flush
  let err ← IO.getStderr
  err.putStr result.stderr
  err.flush
  return UInt32.ofNat result.code

end BareBones.CommandLine

/-- Runs the source file that the arguments name. -/
def main (args : List String) : IO UInt32 :=
  BareBones.CommandLine.runProcess args
