/-
From source text to fragments.

A fragment is the text of one statement.  Fragments end at `;`, but a `;` between double quotes
is text.  A `#` that only blanks precede on its line starts a comment, which runs to the end of
the line and leaves nothing but the line break behind.  A quote right after a backslash neither
opens nor closes a string.

The scanner reads one character at a time.  All it carries from one fragment to the next is the
number of the line, so a `;` outside a string cuts the text into two parts that are read as if
each stood alone.
-/
import BareBones.Text.Blank

namespace BareBones.Source

open BareBones.Text

/-- The text of one statement and the line of its first character that is not blank. -/
structure Fragment where
  text : List Char
  line : Nat
  deriving DecidableEq, Repr

/-- What the next character is part of. -/
inductive Mode where
  | code
  | quoted
  | comment
  deriving DecidableEq, Repr

/-- The scanner between two characters.  `fragments` and `buffer` hold the newest first. -/
structure Scanner where
  fragments : List Fragment := []
  /-- The characters of the fragment being read. -/
  buffer : List Char := []
  /-- The line on which that fragment starts, once it has a character that is not blank. -/
  start : Option Nat := none
  line : Nat := 1
  mode : Mode := .code
  /-- Was the last character a backslash? -/
  escaped : Bool := false
  deriving DecidableEq, Repr

namespace Scanner

/-- Do only blanks stand on the current line of the fragment? -/
def atLineStart (s : Scanner) : Bool :=
  (s.buffer.takeWhile (· != '\n')).all isBlank

/-- Ends the fragment.  One that holds only blanks is dropped. -/
def cut (s : Scanner) : Scanner :=
  let done := match s.start with
    | none => s.fragments
    | some line => ⟨s.buffer.reverse, line⟩ :: s.fragments
  { s with fragments := done, buffer := [], start := none, escaped := false }

/-- Takes the character into the fragment. -/
def keep (s : Scanner) (c : Char) : Scanner :=
  { s with
    buffer := c :: s.buffer
    line := if c = '\n' then s.line + 1 else s.line
    start := if s.start.isNone && !isBlank c then some s.line else s.start
    escaped := c == '\\' }

/-- Reads one character. -/
def step (s : Scanner) (c : Char) : Scanner :=
  match s.mode with
  | .comment => if c = '\n' then { s.keep c with mode := .code } else s
  | .quoted => if c = '"' ∧ s.escaped = false then { s.keep c with mode := .code } else s.keep c
  | .code =>
    if c = '"' ∧ s.escaped = false then { s.keep c with mode := .quoted }
    else if c = ';' then s.cut
    else if c = '#' ∧ s.atLineStart then { s with mode := .comment }
    else s.keep c

end Scanner

/-- The scanner after the whole text. -/
def scan (cs : List Char) : Scanner :=
  cs.foldl Scanner.step {}

/-- The fragments of a text.  The last one needs no `;`. -/
def fragments (cs : List Char) : List Fragment :=
  (scan cs).cut.fragments.reverse

end BareBones.Source
