/-
Settings files in JSON.

The document must be an object.  Every part of it must be worth something, whether a setting is
made of it or not: a number too large for a double spoils the file, and so does an illegible
string or nesting that goes too deep.
-/
import BareBones.Json.Number
import BareBones.Json.Reader
import BareBones.Settings.Setting

namespace BareBones

namespace Setting

/-- The setting that a JSON number gives. -/
def ofNumber? (written : String) : Option Setting :=
  match readInt64? 10 written.toList with
  | some n => some (.int n)
  | none => (Json.double? written).map .float

mutual

/-- The setting that a JSON document gives. -/
def ofJson? : Json → Option Setting
  | .null => some .nothing
  | .bool b => some (.bool b)
  | .number written => ofNumber? written
  | .string s => some (.text s)
  | .array items => if allWorth items then some .list else none
  | .object ms => (ofMembers? ms).map ofEntries
  | .illegible => none

/-- Do all items of an array give settings? -/
def allWorth : List Json → Bool
  | [] => true
  | item :: items => (ofJson? item).isSome && allWorth items

/-- The settings that the members of an object give. -/
def ofMembers? : List (String × Json) → Option (List (String × Setting))
  | [] => some []
  | (name, item) :: ms =>
    match ofJson? item, ofMembers? ms with
    | some s, some rest => some ((name, s) :: rest)
    | _, _ => none

end

end Setting

namespace Json

/-- How many arrays and objects of a settings file can lie inside each other. -/
def maxDepth : Nat := 127

/-- Reads the settings of a file. -/
def layer? (text : String) : Option Layer :=
  match parse? text with
  | none => none
  | some doc =>
    if maxDepth < doc.depth then none
    else
      match Setting.ofJson? doc with
      | some (.table es) => some es
      | _ => none

end Json

end BareBones
