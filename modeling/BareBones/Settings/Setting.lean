/-
Settings as their sources give them.

A source of settings gives names and values: truth values, numbers, texts, lists, tables of more
settings, or nothing.  What a list holds never matters, since no setting is a list.  Each target
type has one conversion, whatever the source.
-/
import BareBones.NameMap
import BareBones.Settings.Basic
import BareBones.Text.Digit
import BareBones.Value

namespace BareBones

/-- The value of a setting in a source. -/
inductive Setting where
  | nothing
  | bool (b : Bool)
  | int (n : Int)
  | float (x : Float)
  | text (s : String)
  | list
  | table (entries : List (String × Setting))
  deriving Inhabited

/-- The text in small letters. -/
def lowerCase (s : String) : String :=
  String.ofList (s.toList.map Char.toLower)

/-- The name of a format of snapshots. -/
def SnapshotFormat.name : SnapshotFormat → String
  | text => "text"
  | json => "json"

/-- The format of snapshots that a word names, in letters of either case. -/
def SnapshotFormat.ofWord? (word : String) : Option SnapshotFormat :=
  [text, json].find? (·.name == lowerCase word)

namespace Setting

/-- The words for true and false. -/
def word? (s : String) : Option Bool :=
  match lowerCase s with
  | "true" | "on" | "yes" => some true
  | "false" | "off" | "no" => some false
  | _ => none

/-- The setting as a truth value.  Numbers are true unless they are zero. -/
def toBool? : Setting → Option Bool
  | bool b => some b
  | int n => some (n != 0)
  | float x => some (x != 0.0)
  | text "1" => some true
  | text "0" => some false
  | text s => word? s
  | nothing | list | table _ => none

/-- The setting as a natural number below 2^64.  Doubles are rounded, half away from zero, and
held inside the bounds. -/
def toNat? : Setting → Option Nat
  | bool b => some b.toNat
  | int n => if 0 ≤ n then some n.toNat else none
  | float x => some x.round.toUInt64.toNat
  | text s =>
    match word? s with
    | some b => some b.toNat
    | none => (Literal.readUInt64? s.toList).map UInt64.toNat
  | nothing | list | table _ => none

/-- The setting as a format of snapshots.  A table with a single entry stands for the name of that
entry. -/
def toFormat? : Setting → Option SnapshotFormat
  | text s => SnapshotFormat.ofWord? s
  | table [(name, _)] => SnapshotFormat.ofWord? name
  | _ => none

/-- Reads a whole number of 64 bits with a sign: a sign or none, and digits of the base. -/
def readInt64? (base : Nat) (cs : List Char) : Option Int :=
  let (negative, ds) := match cs with
    | '-' :: ds => (true, ds)
    | '+' :: ds => (false, ds)
    | ds => (false, ds)
  match Text.numberIn? base ds with
  | none => none
  | some size =>
    let n : Int := if negative then -size else size
    if Int64.minValue.toInt ≤ n ∧ n ≤ Int64.maxValue.toInt then some n else none

/-- The setting that a text outside of any file gives: a truth value, a number or the text itself,
whichever it can be first. -/
def ofText (s : String) : Setting :=
  match lowerCase s with
  | "true" => bool true
  | "false" => bool false
  | _ =>
    match readInt64? 10 s.toList, Double.read? s.toList with
    | some n, _ => int n
    | none, some x => float x
    | none, none => text s

/-- The table with the entries of the list; of two with one name the later counts. -/
def ofEntries (es : List (String × Setting)) : Setting :=
  .table (es.foldl (fun table e => NameMap.insertEntry e.1 e.2 table) [])

/-- The entries of a table.  Anything else has none. -/
def entries : Setting → List (String × Setting)
  | table es => es
  | _ => []

end Setting

/-- What a source gives: settings under their names, in order. -/
abbrev Layer := List (String × Setting)

end BareBones
