/-
Where settings come from.

There are four sources, each written over the one before it: the defaults, a settings file, the
variables of the process and the wishes of the caller.  What they come to must be a value that the
setting can take, for each setting.
-/
import BareBones.Settings.Files
import BareBones.Settings.Format
import BareBones.Settings.Tree

namespace BareBones

/-- Why there are no settings. -/
inductive SettingsError where
  | notFound (path : String)
  /-- A file cannot be read, or a setting has a value it cannot take. -/
  | load
  deriving DecidableEq, Repr

/-- The message for the user. -/
def SettingsError.message : SettingsError → String
  | .notFound path => "config file not found: " ++ path
  | .load => "failed to load configuration"

/-- What the caller asks for. -/
structure Wishes where
  /-- The settings file, instead of the usual one. -/
  path : Option String := none
  verbose : Option Bool := none
  snapshotFormat : Option SnapshotFormat := none
  maxCallDepth : Option Nat := none
  conditionalsInFunctions : Option Bool := none
  /-- Leave the variables of the process alone. -/
  skipEnvironment : Bool := false

namespace Settings

/-! ### The settings as a table -/

/-- The settings under their names. -/
def toLayer (s : Settings) : Layer :=
  [("verbose", .bool s.verbose), ("snapshot_format", .text s.snapshotFormat.name),
    ("max_call_depth", .int s.maxCallDepth),
    ("conditionals_in_functions", .bool s.conditionalsInFunctions)]

/-- The settings that stand in a table, if each has a value it can take. -/
def ofTable? (root : Setting) : Option Settings := do
  let verbose ← (root.entry? "verbose").bind Setting.toBool?
  let format ← (root.entry? "snapshot_format").bind Setting.toFormat?
  let depth ← (root.entry? "max_call_depth").bind Setting.toNat?
  let conditionals ← (root.entry? "conditionals_in_functions").bind Setting.toBool?
  return ⟨verbose, format, depth, conditionals⟩

/-! ### The sources -/

/-- What comes before the name of a setting in the name of a variable of the process. -/
def variableHead : List Char :=
  ['b', 'b', 'e', 'a', 't', '_']

/-- The settings that variables of the process give.  Letters of either case do. -/
def environmentLayer (vars : List (String × String)) : Layer :=
  vars.filterMap fun (name, value) =>
    let name := (lowerCase name).toList
    if variableHead.isPrefixOf name then
      some (String.ofList (name.drop variableHead.length), Setting.ofText value)
    else none

/-- The settings that the caller wishes for. -/
def wishedLayer (wishes : Wishes) : Layer :=
  [("verbose", wishes.verbose.map .bool),
    ("snapshot_format", wishes.snapshotFormat.map fun f => .text f.name),
    ("max_call_depth", wishes.maxCallDepth.map fun n => .int n),
    ("conditionals_in_functions", wishes.conditionalsInFunctions.map .bool)].filterMap
      fun (name, wish) => wish.map (name, ·)

/-- The settings of a file, by the format that its name tells. -/
def fileLayer? (path text : String) : Option Layer :=
  match (Path.extension? path).bind Format.ofExtension? with
  | some format => format.parse? text
  | none => none

/-- The first file whose path is the given one with an extension of a settings file behind it. -/
def extended? (files : Files) (path : String) : Option (String × ByteArray) :=
  Format.extensions.findSome? fun (extension, _) =>
    match Path.withExtension? path extension with
    | some path => ((files path).bind FileEntry.bytes?).map (path, ·)
    | none => none

/-- The usual name of a settings file, without its extension. -/
def usualPath : String := "bbeat"

/-- The settings of the usual file, if it is there and holds text.  A file without an extension
hides the others. -/
def usualLayer (files : Files) : Except SettingsError Layer :=
  match (files usualPath).bind FileEntry.bytes?, extended? files usualPath with
  | some _, _ | none, none => .ok []
  | none, some (path, bytes) =>
    match String.fromUTF8? bytes with
    | none => .ok []
    | some text =>
      match fileLayer? path text with
      | some layer => .ok layer
      | none => .error .load

/-- The settings of the file at the path, which must be there and hold text.  A directory stands for
the file of its name with an extension. -/
def namedLayer (files : Files) (path : String) : Except SettingsError Layer :=
  match files path with
  | none => .error (.notFound path)
  | some entry =>
    let file := match entry with
      | .file bytes => some (path, bytes)
      | .directory => extended? files path
    match file.bind fun (path, bytes) => (String.fromUTF8? bytes).bind (fileLayer? path) with
    | some layer => .ok layer
    | none => .error .load

/-- The settings of the file that counts. -/
def chosenLayer (files : Files) : Option String → Except SettingsError Layer
  | some path => namedLayer files path
  | none => usualLayer files

/-- Brings the sources of settings together. -/
def load (files : Files) (vars : List (String × String)) (wishes : Wishes) :
    Except SettingsError Settings :=
  match chosenLayer files wishes.path with
  | .error e => .error e
  | .ok file =>
    let outer := if wishes.skipEnvironment then [] else environmentLayer vars
    let usual : Settings := {}
    let layers := [usual.toLayer, file, outer, wishedLayer wishes]
    match ofTable? (layers.foldl Setting.overlay (.table [])) with
    | some settings => .ok settings
    | none => .error .load

end Settings

end BareBones
