/-
Settings files in INI.

A file has settings `name = value` or `name : value` and headers `[section]`.  All values are
texts.  The settings of a section are a table; of two sections with one name the later counts.
A comment starts with `;` or `#` as the first character of a line.

A backslash starts an escape wherever it stands.  A name runs up to the mark behind it, over the
ends of lines if need be.  A value runs to the end of its line and may start with parts between
quotes.
-/
import BareBones.Settings.Setting
import BareBones.Text.Blank

namespace BareBones.Ini

/-- The text from its first character that is not blank, and whether that character is the first
of its line.  `first` tells that of the text itself. -/
def skip (first : Bool) : List Char → Bool × List Char
  | [] => (first, [])
  | c :: cs => if Text.isBlank c then skip (c == '\n') cs else (first, c :: cs)

/-- The blanks inside a line. -/
def isLineBlank (c : Char) : Bool :=
  Text.isBlank c && c != '\n' && c != '\r'

/-- Reads an escape behind its backslash.  An escaped end of a line stands for nothing. -/
def readEscape? : List Char → Option (List Char × List Char)
  | [] => none
  | '0' :: cs => some (['\x00'], cs)
  | 'a' :: cs => some (['\x07'], cs)
  | 'b' :: cs => some (['\x08'], cs)
  | 't' :: cs => some (['\t'], cs)
  | 'r' :: cs => some (['\r'], cs)
  | 'n' :: cs => some (['\n'], cs)
  | '\n' :: cs => some ([], cs)
  | 'x' :: cs => (Text.readCode? 4 cs).map fun (c, cs) => ([c], cs)
  | c :: cs => some ([c], cs)

/-- Reads up to a character that ends the text, and keeps that in the rest.  `done` holds the newest
character first. -/
def readUntil (ends : Char → Bool) : Nat → List Char → List Char → List Char × List Char
  | 0, done, cs => (done.reverse, cs)
  | _ + 1, done, [] => (done.reverse, [])
  | fuel + 1, done, c :: cs =>
    if ends c then (done.reverse, c :: cs)
    else if c == '\\' then
      match readEscape? cs with
      | some (plain, rest) => readUntil ends fuel (plain ++ done) rest
      | none => (done.reverse, c :: cs)
    else readUntil ends fuel (c :: done) cs

/-- Reads up to a mark and goes on behind it. -/
def readTo? (mark : Char → Bool) (cs : List Char) : Option (List Char × List Char) :=
  match readUntil mark cs.length [] cs with
  | (text, c :: rest) => if mark c then some (text, rest) else none
  | (_, []) => none

/-- Does the character end a line? -/
def isLineEnd (c : Char) : Bool :=
  c == '\n' || c == '\r'

/-- Reads a value behind its mark and the blanks there.  `first` tells that nothing was between
quotes yet, so that blanks in front do not count. -/
def readValue : Nat → Bool → List Char → List Char → Option (String × List Char)
  | 0, _, _, _ => none
  | fuel + 1, first, done, cs =>
    match cs with
    | [] => some (String.ofList done, [])
    | c :: rest =>
      if c == '"' || c == '\'' then
        match readTo? (· == c) rest with
        | some (part, rest) => readValue fuel false (done ++ part) rest
        | none => none
      else
        match readUntil isLineEnd cs.length [] cs with
        | (_, '\\' :: _) => none
        | (part, rest) =>
          let part := if first then Text.trim part else Text.trimEnd part
          some (String.ofList (done ++ part), rest)

/-- A section: its name, or none at the top, and its settings, newest first. -/
structure Section where
  name : Option String := none
  settings : List (String × Setting) := []

/-- The settings of a section, as they go into the whole. -/
def Section.entries (s : Section) : List (String × Setting) :=
  match s.name with
  | none => s.settings.reverse
  | some name => [(name, .ofEntries s.settings.reverse)]

/-- Reads all sections.  `done` holds the newest first. -/
def readSections : Nat → List Section → Section → Bool → List Char → Option (List Section)
  | 0, _, _, _, _ => none
  | fuel + 1, done, current, first, cs =>
    match skip first cs with
    | (_, []) => some (current :: done).reverse
    | (first, c :: cs) =>
      if c == ';' || c == '#' then
        if first then readSections fuel done current false (cs.dropWhile (· != '\n')) else none
      else if c == '[' then
        match readTo? (· == ']') cs with
        | some (name, rest) =>
          let next : Section := { name := some (String.ofList (Text.trim name)) }
          readSections fuel (current :: done) next false rest
        | none => none
      else
        match readTo? (fun c => c == '=' || c == ':') (c :: cs) with
        | none => none
        | some (name, rest) =>
          let name := String.ofList (Text.trim name)
          match readValue (rest.length + 1) true [] (rest.dropWhile isLineBlank) with
          | none => none
          | some (value, rest) =>
            if name.isEmpty then none
            else
              readSections fuel done
                { current with settings := (name, .text value) :: current.settings } false rest

/-- Reads the settings of a file. -/
def parse? (text : String) : Option Layer :=
  let cs := text.toList
  (readSections (cs.length + 1) [] {} true cs).map fun sections =>
    (Setting.ofEntries (sections.flatMap Section.entries)).entries

end BareBones.Ini
