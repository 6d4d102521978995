/-
Settings files in TOML.

A file has a setting or a header a line, `name = value` or `[table]` or `[[list of tables]]`, and
`#` starts a comment.  Values are texts, truth values, numbers, dates, lists, which may run over
several lines, and tables between braces, which may not.  A name that is given twice spoils the
file, as does a line of any other form.
-/
import BareBones.Settings.Toml.Number
import BareBones.Settings.Toml.Table

namespace BareBones.Toml

/-- How deep lists and tables between braces can lie inside each other. -/
def maxDepth : Nat := 79

mutual

/-- Reads a value.  `room` is how many lists and tables can still be opened. -/
def readValue : Nat → Nat → List Char → Option (Setting × List Char)
  | 0, _, _ => none
  | _ + 1, _, 't' :: 'r' :: 'u' :: 'e' :: cs => some (.bool true, cs)
  | _ + 1, _, 'f' :: 'a' :: 'l' :: 's' :: 'e' :: cs => some (.bool false, cs)
  | _ + 1, 0, '[' :: _ => none
  | _ + 1, 0, '\x7b' :: _ => none
  | fuel + 1, room + 1, '[' :: cs => readItems fuel room (skipLines false cs)
  | fuel + 1, room + 1, '\x7b' :: cs =>
    match skip cs with
    | '\x7d' :: cs => some (.table [], cs)
    | cs => readPairs fuel room [] cs
  | _ + 1, _, cs =>
    match cs with
    | [] => none
    | c :: _ =>
      if c == '"' || c == '\'' then (readText? cs).map fun (s, rest) => (.text s, rest)
      else readQuantity? cs

/-- Reads a list behind its bracket or behind a comma. -/
def readItems : Nat → Nat → List Char → Option (Setting × List Char)
  | 0, _, _ => none
  | _ + 1, _, ']' :: cs => some (.list, cs)
  | fuel + 1, room, cs =>
    match readValue fuel room cs with
    | none => none
    | some (_, rest) =>
      match skipLines false rest with
      | ',' :: rest => readItems fuel room (skipLines false rest)
      | ']' :: rest => some (.list, rest)
      | _ => none

/-- Reads a table between braces, behind its first brace or behind a comma. -/
def readPairs : Nat → Nat → Entries → List Char → Option (Setting × List Char)
  | 0, _, _, _ => none
  | fuel + 1, room, es, cs =>
    match readPath? cs with
    | some (path, '=' :: rest) =>
      match readValue fuel room (skip rest) with
      | none => none
      | some (value, rest) =>
        match es.add value path, skip rest with
        | some es, ',' :: rest => readPairs fuel room es rest
        | some es, '\x7d' :: rest => some (.table (settingsOf es), rest)
        | _, _ => none
    | _ => none

end

/-- The part of a file that is read: its tables, and the path of the one that settings go to. -/
structure Progress where
  root : Entries := []
  path : List String := []

namespace Progress

/-- Takes a header. -/
def open? (p : Progress) (name : String → Entries → Option Entries) (path : List String) :
    Option Progress :=
  match path.getLast? with
  | none => none
  | some last => (p.root.within (name last) path.dropLast).map fun root => ⟨root, path⟩

/-- Takes a setting. -/
def add? (p : Progress) (path : List String) (value : Setting) : Option Progress :=
  (p.root.within (Entries.add value path) p.path).map fun root => { p with root := root }

end Progress

/-- Reads one line that says something, and the end of the line. -/
def readLine? (p : Progress) (cs : List Char) : Option (Progress × List Char) :=
  match cs with
  | '[' :: '[' :: cs =>
    match readPath? cs with
    | some (path, ']' :: ']' :: rest) => do return (← p.open? Entries.nameItem path, ← finishLine? rest)
    | _ => none
  | '[' :: cs =>
    match readPath? cs with
    | some (path, ']' :: rest) => do return (← p.open? Entries.nameTable path, ← finishLine? rest)
    | _ => none
  | cs =>
    match readPath? cs with
    | some (path, '=' :: rest) => do
      let (value, rest) ← readValue (rest.length + 1) maxDepth (skip rest)
      return (← p.add? path value, ← finishLine? rest)
    | _ => none

/-- Reads all lines. -/
def readLines : Nat → Progress → List Char → Option Progress
  | 0, _, _ => none
  | fuel + 1, p, cs =>
    match skip cs, finishLine? cs with
    | [], _ => some p
    | _, some rest => readLines fuel p rest
    | cs, none =>
      match readLine? p cs with
      | some (p, rest) => readLines fuel p rest
      | none => none

/-- Reads the settings of a file. -/
def parse? (text : String) : Option Layer :=
  let cs := match text.toList with
    | '\uFEFF' :: cs => cs
    | cs => cs
  (readLines (cs.length + 1) {} cs).map fun p => settingsOf p.root

end BareBones.Toml
