/-
How the settings of several sources come together.

All settings stand in one table, and sources are written over each other.  A table does not replace
what was there: its entries are written into it one by one, so a table without entries changes
nothing.  Names are written in small letters.

A name can be a path.  `a.b` is the entry `b` of the table `a`, and `a[0]` an item of the list `a`;
on the way whatever is not a table or list becomes one.  A name that is no path stands for itself.
-/
import BareBones.Settings.Setting

namespace BareBones

namespace Setting

/-- The table with the entry put into it. -/
def withEntry (root : Setting) (name : String) (value : Setting) : Setting :=
  .table (NameMap.insertEntry (lowerCase name) value root.entries)

/-- The entry of a table. -/
def entry? (root : Setting) (name : String) : Option Setting :=
  NameMap.lookup? (lowerCase name) root.entries

mutual

/-- Writes a value over the entry of that name. -/
def put (name : String) : Setting → Setting → Setting
  | .table es, root => root.withEntry name (putAll es ((root.entry? name).getD (.table [])))
  | value, root => root.withEntry name value

/-- Writes values over the entries of their names, in order. -/
def putAll : List (String × Setting) → Setting → Setting
  | [], root => root
  | (name, value) :: es, root => putAll es (put name value root)

end

/-- One step of a path. -/
inductive Step where
  | entry (name : String)
  | item
  deriving DecidableEq, Repr

/-- Can the character stand in a name on a path? -/
def isPathChar (c : Char) : Bool :=
  c.isAlphanum || c == ' ' || c == '_' || c == '-'

/-- The index of an item between its brackets: a sign or none, and digits, with blanks around. -/
def isIndex (cs : List Char) : Bool :=
  let isBlank (c : Char) : Bool := c == ' ' || c == '\t'
  let cs := ((cs.dropWhile isBlank).reverse.dropWhile isBlank).reverse
  (readInt64? 10 cs).isSome && cs.head? != some '+'

/-- Reads the steps of a path behind its first name. -/
def readSteps : Nat → List Char → Option (List Step)
  | _, [] => some []
  | 0, _ => none
  | fuel + 1, '.' :: cs =>
    match cs.span isPathChar with
    | ([], _) => none
    | (name, rest) => (readSteps fuel rest).map (.entry (String.ofList name) :: ·)
  | fuel + 1, '[' :: cs =>
    match cs.span (· != ']') with
    | (index, _ :: rest) =>
      if isIndex index then (readSteps fuel rest).map (.item :: ·) else none
    | _ => none
  | _ + 1, _ => none

/-- The steps that a name stands for. -/
def pathOf (name : String) : List Step :=
  let cs := name.toList
  match cs.span isPathChar with
  | ([], _) => [.entry name]
  | (first, rest) =>
    match readSteps rest.length rest with
    | some steps => .entry (String.ofList first) :: steps
    | none => [.entry name]

/-- Writes a value at the end of a path. -/
def place (value : Setting) : List Step → Setting → Setting
  | [], _ => value
  | [.entry name], root => put name value root
  | .entry name :: steps, root =>
    root.withEntry name (place value steps ((root.entry? name).getD .nothing))
  | .item :: _, _ => .list

/-- Writes the settings of a source over those that are there. -/
def overlay (root : Setting) (layer : Layer) : Setting :=
  layer.foldl (fun root e => place e.2 (pathOf e.1) root) root

end Setting

end BareBones
