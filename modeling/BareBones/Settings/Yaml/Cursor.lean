/-
A place in the text of a YAML file.

The meaning of a character depends on the column it stands in and on what is before it in its line,
so a place is more than the text that is left.  Ends of lines are line feeds here.
-/

namespace BareBones.Yaml

/-- The blanks inside a line. -/
def isBlank (c : Char) : Bool :=
  c == ' ' || c == '\t'

/-- The characters with a meaning in flow collections. -/
def isFlowMark (c : Char) : Bool :=
  c == ',' || c == '[' || c == ']' || c == '\x7b' || c == '\x7d'

/-- The characters of simple words. -/
def isWordChar (c : Char) : Bool :=
  c.isAlphanum || c == '_' || c == '-'

/-- Is there no more in the line? -/
def endsLine : Option Char → Bool
  | none => true
  | some c => c == '\n'

/-- Is there no more of the word? -/
def endsWord : Option Char → Bool
  | none => true
  | some c => isBlank c || c == '\n'

/-- A place in a text. -/
structure Cursor where
  /-- The text from here on. -/
  rest : List Char
  line : Nat := 0
  col : Nat := 0
  /-- How many characters are before. -/
  index : Nat := 0
  /-- Is there nothing but blanks before in the line? -/
  fresh : Bool := true

namespace Cursor

/-- The next character. -/
def next? (c : Cursor) : Option Char :=
  c.rest.head?

/-- The character after the next. -/
def second? (c : Cursor) : Option Char :=
  c.rest[1]?

/-- The place behind a blank. -/
def skipBlank (c : Cursor) : Cursor :=
  { c with rest := c.rest.drop 1, col := c.col + 1, index := c.index + 1 }

/-- The place behind a character that is not blank. -/
def skipChar (c : Cursor) : Cursor :=
  { c.skipBlank with fresh := false }

/-- The place behind the end of a line. -/
def skipBreak (c : Cursor) : Cursor :=
  { rest := c.rest.drop 1, line := c.line + 1, col := 0, index := c.index + 1, fresh := true }

/-- The place behind so many characters that are not blank. -/
def skipChars (c : Cursor) : Nat → Cursor
  | 0 => c
  | n + 1 => c.skipChar.skipChars n

/-- Splits off the characters of the line with the property. -/
def span (p : Char → Bool) (c : Cursor) : List Char × Cursor :=
  let word := c.rest.takeWhile fun d => p d && d != '\n'
  (word, c.skipChars word.length)

/-- The place at the end of the line. -/
def toLineEnd (c : Cursor) : Cursor :=
  (c.span fun _ => true).2

/-- Is the word at the start of this line? -/
def startsWith (c : Cursor) (word : String) : Bool :=
  c.col == 0 && word.toList.isPrefixOf c.rest && endsWord c.rest[word.length]?

/-- Does a document start or end here? -/
def atDocumentMark (c : Cursor) : Bool :=
  c.startsWith "---" || c.startsWith "..."

/-- Blanks that were skipped. -/
structure Blanks where
  tabs : Bool := false
  spaces : Bool := false

/-- Skips blanks and a comment.  A comment has a blank before it. -/
def skipRest (tabs : Bool) : Nat → Blanks → Cursor → Option (Blanks × Cursor)
  | 0, blanks, c => some (blanks, c)
  | fuel + 1, blanks, c =>
    match c.next? with
    | some ' ' => skipRest tabs fuel { blanks with spaces := true } c.skipBlank
    | some '\t' =>
      if tabs then skipRest tabs fuel { blanks with tabs := true } c.skipBlank
      else some (blanks, c)
    | some '#' => if blanks.tabs || blanks.spaces then some (blanks, c.toLineEnd) else none
    | _ => some (blanks, c)

/-- Skips blanks and a comment up to the end of the line or the next word. -/
def toNextWord (c : Cursor) : Option (Blanks × Cursor) :=
  skipRest true c.rest.length {} c

end Cursor

end BareBones.Yaml
