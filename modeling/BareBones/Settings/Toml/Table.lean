/-
The tables of a TOML file.

A table can come about in three ways: a header names it, it lies on the way to a table that a
header names, or it lies on the way to a setting whose name is a path.  What may still be added to
a table depends on that.  A header can take over a table of the second kind only, and the path of a
setting ends in a table of the third kind, unless it is a single name.

Of a list of tables only the last can still grow, and no setting is a list, so only the last is
kept.
-/
import BareBones.Settings.Setting

namespace BareBones.Toml

/-- How a table came about. -/
inductive Origin where
  /-- A header names it. -/
  | header
  /-- It lies on the way to a table that a header names. -/
  | implied
  /-- It lies on the way to a setting. -/
  | dotted
  deriving DecidableEq, Repr

/-- What a name stands for in a file. -/
inductive Node where
  | value (s : Setting)
  | table (origin : Origin) (entries : List (String × Node))
  /-- A list of tables, with the entries of the last. -/
  | tables (last : List (String × Node))
  deriving Inhabited

/-- The entries of a table. -/
abbrev Entries := List (String × Node)

namespace Entries

/-- Adds a setting at a path.  The name must be new. -/
def add (value : Setting) : List String → Entries → Option Entries
  | [], _ => none
  | [name], es =>
    match NameMap.lookup? name es with
    | none => some (NameMap.insertEntry name (.value value) es)
    | some _ => none
  | name :: names, es =>
    let last := names.length == 1
    match NameMap.lookup? name es with
    | none => (add value names []).map fun inner =>
      NameMap.insertEntry name (.table .dotted inner) es
    | some (.table origin inner) =>
      if origin = .header || (last && origin ≠ .dotted) then none
      else (add value names inner).map fun inner =>
        NameMap.insertEntry name (.table origin inner) es
    | some (.tables inner) =>
      if last then none
      else (add value names inner).map fun inner => NameMap.insertEntry name (.tables inner) es
    | some (.value _) => none

/-- Does something to the entries of the table at a path.  A table that is missing on the way
comes about. -/
def within (change : Entries → Option Entries) : List String → Entries → Option Entries
  | [], es => change es
  | name :: names, es =>
    match NameMap.lookup? name es with
    | none => (within change names []).map fun inner =>
      NameMap.insertEntry name (.table .implied inner) es
    | some (.table origin inner) => (within change names inner).map fun inner =>
      NameMap.insertEntry name (.table origin inner) es
    | some (.tables inner) => (within change names inner).map fun inner =>
      NameMap.insertEntry name (.tables inner) es
    | some (.value _) => none

/-- Names a table by a header. -/
def nameTable (name : String) (es : Entries) : Option Entries :=
  match NameMap.lookup? name es with
  | none => some (NameMap.insertEntry name (.table .header []) es)
  | some (.table .implied inner) => some (NameMap.insertEntry name (.table .header inner) es)
  | some _ => none

/-- Adds a table to a list of tables. -/
def nameItem (name : String) (es : Entries) : Option Entries :=
  match NameMap.lookup? name es with
  | none | some (.tables _) => some (NameMap.insertEntry name (.tables []) es)
  | some _ => none

end Entries

mutual

/-- The setting that a name stands for. -/
def Node.toSetting : Node → Setting
  | .value s => s
  | .table _ es => .table (settingsOf es)
  | .tables _ => .list

/-- The settings of a table. -/
def settingsOf : List (String × Node) → List (String × Setting)
  | [] => []
  | (name, node) :: es => (name, node.toSetting) :: settingsOf es

end

end BareBones.Toml
