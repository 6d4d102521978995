/-
What a call from the command line does.

It loads the settings, reads the source file, takes the assignments and runs the program, or shows
the statements of the program instead.  All it needs of the outside are the files and the variables
of the process, and all it leaves is a report: the texts for the two streams and how it ended.
-/
import BareBones.Arithmetic.Generator
import BareBones.CommandLine.Invocation
import BareBones.Json.Forms
import BareBones.Session
import BareBones.Settings.Load

namespace BareBones.CommandLine

/-- Why the program was not run. -/
inductive CommandError where
  | settings (e : SettingsError)
  | sourceNotFound
  | unreadable (path : String)
  | session (e : SessionError)
  deriving DecidableEq, Repr

/-- The message for the user, with all that caused it. -/
def CommandError.message : CommandError → String
  | .settings e => "Failed to load configuration: " ++ e.message
  | .sourceNotFound => "Source file not found"
  | .unreadable path => "Failed to read " ++ path ++ ": stream did not contain valid UTF-8"
  | .session (.global name e) => (SessionError.global name e).message ++ ": " ++ e.message
  | .session e => e.message

/-- How a call ended, and what it wrote. -/
structure Report where
  /-- Did every statement succeed? -/
  result : Except CommandError Bool
  stdout : String := ""
  stderr : String := ""

/-- A snapshot as a line. -/
def snapshotLine (format : SnapshotFormat) (moment : Moment) (env : Environment) : String :=
  match format, moment with
  | .text, .initial => "Initialised variables: " ++ env.text
  | .text, .afterStatement _ => env.text
  | .text, .final => "Finished with variables: " ++ env.text
  | .json, moment =>
    (Json.object [("point", moment.toJson), ("variables", env.toJson)]).compact

/-- Adds an event to a report.  Diagnostics go to the second stream, all else to the first. -/
def Report.add (format : SnapshotFormat) (r : Report) : Event → Report
  | .line text => { r with stdout := r.stdout ++ text ++ "\n" }
  | .diagnostic e => { r with stderr := r.stderr ++ e.message ++ "\n" }
  | .snapshot moment env =>
    { r with stdout := r.stdout ++ snapshotLine format moment env ++ "\n" }

/-- What the arguments wish of the settings. -/
def Invocation.wishes (i : Invocation) : Wishes where
  path := i.config
  verbose := if i.verbose then some true else none
  snapshotFormat := if i.json then some .json else none
  maxCallDepth := i.maxCallDepth

/-- The settings and the program of a call. -/
def prepare (files : Files) (vars : List (String × String)) (i : Invocation) :
    Except CommandError (Settings × Session) :=
  match Settings.load files vars i.wishes with
  | .error e => .error (.settings e)
  | .ok settings =>
    match files i.file with
    | some (.file bytes) =>
      match String.fromUTF8? bytes with
      | none => .error (.unreadable i.file)
      | some source =>
        match Session.ofSource source with
        | .error e => .error (.session e)
        | .ok session => .ok (settings, session)
    | _ => .error .sourceNotFound

/-- Carries out a call. -/
def Invocation.report (files : Files) (vars : List (String × String)) (fuel : Nat)
    (seed : Arithmetic.Generator) (i : Invocation) : Report :=
  match prepare files vars i with
  | .error e => { result := .error e }
  | .ok (settings, session) =>
    if i.dump then { result := .ok true, stdout := session.program.toJson.pretty ++ "\n" }
    else
      match i.assignments.foldlM Session.defineAssignment session with
      | .error e => { result := .error (.session e) }
      | .ok session =>
        let (outcome, world) := session.run (.arithmetic settings) fuel { state := seed }
        let ok := match outcome with
          | .ok ok => ok
          | _ => false
        world.journal.foldl (Report.add settings.snapshotFormat) { result := .ok ok }

/-- What a process writes and the code it exits with. -/
structure Exit where
  code : Nat
  stdout : String := ""
  stderr : String := ""

/-- How the program is used. -/
def usage : String :=
  "Usage: bbeat [OPTIONS] <NAME=VALUE ... FILE>...\n"

/-- The exit of the process that is called with the arguments: 0 if every statement succeeded, 1 if
not, 2 if the arguments cannot be used. -/
def exitOf (files : Files) (vars : List (String × String)) (fuel : Nat)
    (seed : Arithmetic.Generator) (args : List String) : Exit :=
  match Invocation.parse args with
  | .error .displayHelp => { code := 0, stdout := usage }
  | .error _ => { code := 2, stderr := usage }
  | .ok i =>
    let r := i.report files vars fuel seed
    match r.result with
    | .ok true => ⟨0, r.stdout, r.stderr⟩
    | .ok false => ⟨1, r.stdout, r.stderr⟩
    | .error e => ⟨1, r.stdout, r.stderr ++ "Error: " ++ e.message ++ "\n"⟩

end BareBones.CommandLine
