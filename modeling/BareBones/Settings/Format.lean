/-
The formats of settings files.

The end of a file's name tells its format.  Whatever the format, a file gives a layer of settings
or is spoilt.
-/
import BareBones.Settings.Ini
import BareBones.Settings.Json
import BareBones.Settings.Json5
import BareBones.Settings.Ron
import BareBones.Settings.Toml.Reader
import BareBones.Settings.Yaml.Reader

namespace BareBones

/-- A format of settings files. -/
inductive Format where
  | toml
  | json
  | yaml
  | ini
  | ron
  | json5
  deriving DecidableEq, Repr

namespace Format

/-- The ends of names of settings files, each with its format. -/
def extensions : List (String × Format) :=
  [("toml", toml), ("json", json), ("yaml", yaml), ("yml", yaml), ("ini", ini), ("ron", ron),
    ("json5", json5)]

/-- The format that the end of a name tells. -/
def ofExtension? (extension : String) : Option Format :=
  extensions.lookup extension

/-- Reads the settings of a file. -/
def parse? : Format → String → Option Layer
  | toml => Toml.parse?
  | json => Json.layer?
  | yaml => Yaml.parse?
  | ini => Ini.parse?
  | ron => Ron.parse?
  | json5 => Json5.parse?

end Format

end BareBones
