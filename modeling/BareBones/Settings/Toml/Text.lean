/-
The texts and names of TOML.

A text stands between double quotes, where a backslash starts an escape, or between single quotes,
where it does not.  Three quotes on each side let it run over several lines.  A name is such a text
on one line, or bare, and a path is names with points between them.

Of the control characters only the tab may stand in a text or a comment.
-/
import BareBones.Text.Digit

namespace BareBones.Toml

/-- The blanks inside a line. -/
def isBlank (c : Char) : Bool :=
  c == ' ' || c == '\t'

/-- The line from its first character that is not blank. -/
def skip (cs : List Char) : List Char :=
  cs.dropWhile isBlank

/-- Can the character stand in a text or a comment? -/
def isPlain (c : Char) : Bool :=
  c == '\t' || (0x20 ≤ c.toNat && c.toNat != 0x7F)

/-- What is behind the end of a line. -/
def lineEnd? : List Char → Option (List Char)
  | '\n' :: cs => some cs
  | '\r' :: '\n' :: cs => some cs
  | _ => none

/-- What is behind the rest of a line that has nothing more to say: blanks and a comment at most.
The last line may lack its end. -/
def finishLine? (cs : List Char) : Option (List Char) :=
  let cs := match skip cs with
    | '#' :: cs => cs.dropWhile isPlain
    | cs => cs
  if cs.isEmpty then some [] else lineEnd? cs

/-- The text from its first character that is neither blank nor the end of a line nor in a comment.
`comment` tells whether the text starts inside a comment. -/
def skipLines (comment : Bool) : List Char → List Char
  | '\n' :: cs => skipLines false cs
  | '\r' :: '\n' :: cs => skipLines false cs
  | c :: cs =>
    if comment then if isPlain c then skipLines true cs else c :: cs
    else if c == '#' then skipLines true cs
    else if isBlank c then skipLines false cs
    else c :: cs
  | [] => []

/-- The text from its first character that is neither blank nor the end of a line. -/
def skipBreaks : List Char → List Char
  | '\n' :: cs => skipBreaks cs
  | '\r' :: '\n' :: cs => skipBreaks cs
  | c :: cs => if isBlank c then skipBreaks cs else c :: cs
  | [] => []

/-- Reads an escape behind its backslash. -/
def readEscape? : List Char → Option (Char × List Char)
  | '"' :: cs => some ('"', cs)
  | '\\' :: cs => some ('\\', cs)
  | 'b' :: cs => some ('\x08', cs)
  | 'f' :: cs => some ('\x0C', cs)
  | 'n' :: cs => some ('\n', cs)
  | 'r' :: cs => some ('\r', cs)
  | 't' :: cs => some ('\t', cs)
  | 'u' :: cs => Text.readCode? 4 cs
  | 'U' :: cs => Text.readCode? 8 cs
  | _ => none

/-- Does a backslash between quotes of that kind start an escape? -/
def hasEscapes (quote : Char) : Bool :=
  quote == '"'

/-- Reads a text on one line, behind its first quote.  `done` holds the newest character first. -/
def readShort (quote : Char) : Nat → List Char → List Char → Option (String × List Char)
  | 0, _, _ => none
  | _ + 1, _, [] => none
  | fuel + 1, done, c :: cs =>
    if c == quote then some (String.ofList done.reverse, cs)
    else if c == '\\' && hasEscapes quote then
      match readEscape? cs with
      | some (c, cs) => readShort quote fuel (c :: done) cs
      | none => none
    else if isPlain c then readShort quote fuel (c :: done) cs
    else none

/-- Reads a text on several lines, behind its first three quotes.  Two more quotes may stand before
the three that end it, and a backslash at the end of a line takes away the blanks that follow. -/
def readLong (quote : Char) : Nat → List Char → List Char → Option (String × List Char)
  | 0, _, _ => none
  | fuel + 1, done, cs =>
    match cs.span (· == quote), lineEnd? cs with
    | ([], _), some rest => readLong quote fuel ('\n' :: done) rest
    | ([], []), none => none
    | ([], c :: cs), none =>
      if c == '\\' && hasEscapes quote then
        match lineEnd? (skip cs), readEscape? cs with
        | some rest, _ => readLong quote fuel done (skipBreaks rest)
        | none, some (c, rest) => readLong quote fuel (c :: done) rest
        | none, none => none
      else if isPlain c then readLong quote fuel (c :: done) cs
      else none
    | (quotes, rest), _ =>
      if quotes.length < 3 then readLong quote fuel (quotes ++ done) rest
      else if quotes.length ≤ 5 then some (String.ofList (done.reverse ++ quotes.drop 3), rest)
      else none

/-- Reads a text on one line. -/
def readLineText? : List Char → Option (String × List Char)
  | c :: cs => if c == '"' || c == '\'' then readShort c (cs.length + 1) [] cs else none
  | [] => none

/-- Reads a text.  The end of a line right behind three quotes does not count. -/
def readText? (cs : List Char) : Option (String × List Char) :=
  match cs with
  | a :: b :: c :: rest =>
    if (a == '"' || a == '\'') && b == a && c == a then
      readLong a (rest.length + 1) [] ((lineEnd? rest).getD rest)
    else readLineText? cs
  | cs => readLineText? cs

/-- Can the character stand in a name without quotes? -/
def isBareChar (c : Char) : Bool :=
  c.isAlphanum || c == '_' || c == '-'

/-- Reads a name: between quotes of either kind, or bare. -/
def readName? (cs : List Char) : Option (String × List Char) :=
  match cs.span isBareChar with
  | ([], cs) => readLineText? cs
  | (name, rest) => some (String.ofList name, rest)

/-- Reads the names of a path. -/
def readNames : Nat → List Char → Option (List String × List Char)
  | 0, _ => none
  | fuel + 1, cs =>
    match readName? (skip cs) with
    | none => none
    | some (name, rest) =>
      match skip rest with
      | '.' :: rest => (readNames fuel rest).map fun (names, rest) => (name :: names, rest)
      | rest => some ([name], rest)

/-- How many names a path can have at most. -/
def maxNames : Nat := 79

/-- Reads a path and the blanks around it. -/
def readPath? (cs : List Char) : Option (List String × List Char) :=
  readNames maxNames cs

end BareBones.Toml
