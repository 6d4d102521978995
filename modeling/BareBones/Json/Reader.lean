/-
Reading JSON.

The reader takes one document and nothing after it.  Strings hold no control characters, and
numbers have no needless zeros in front.  Every document takes at least one character, so the
length of the text bounds the depth and the number of its parts.
-/
import BareBones.Json.Basic
import BareBones.Text.Digit

namespace BareBones.Json

/-- The blanks of JSON. -/
def isBlank (c : Char) : Bool :=
  c == ' ' || c == '\t' || c == '\n' || c == '\r'

/-- The text from its first character that is not blank. -/
def skip (cs : List Char) : List Char :=
  cs.dropWhile isBlank

/-- The number that four hexadecimal digits write. -/
def hex? (a b c d : Char) : Option Nat :=
  Text.numberIn? 16 [a, b, c, d]

/-- The character that a letter behind a backslash stands for. -/
def escaped? : Char → Option Char
  | '"' => some '"'
  | '\\' => some '\\'
  | '/' => some '/'
  | 'b' => some '\x08'
  | 'f' => some '\x0C'
  | 'n' => some '\n'
  | 'r' => some '\r'
  | 't' => some '\t'
  | _ => none

/-- The part of a string that is read: its characters, newest first, and the first half of a
surrogate pair if that is the last thing read. -/
structure Chars where
  done : List Char := []
  high : Option Nat := none

namespace Chars

/-- Takes a character.  There is no text if half of a pair stands before it. -/
def take (cs : Chars) (c : Char) : Option Chars :=
  if cs.high.isSome then none else some { done := c :: cs.done }

/-- Takes a character that is given by its number, or half of a pair. -/
def takeNumber (cs : Chars) (n : Nat) : Option Chars :=
  match cs.high with
  | some h =>
    if 0xDC00 ≤ n ∧ n < 0xE000 then
      some { done := Char.ofNat (0x10000 + (h - 0xD800) * 0x400 + (n - 0xDC00)) :: cs.done }
    else none
  | none =>
    if 0xD800 ≤ n ∧ n < 0xDC00 then some { cs with high := some n }
    else if 0xDC00 ≤ n ∧ n < 0xE000 then none
    else some { done := Char.ofNat n :: cs.done }

/-- The text, at the end of the string. -/
def text (cs : Chars) : Option String :=
  if cs.high.isSome then none else some (String.ofList cs.done.reverse)

end Chars

/-- Reads a string up to the quote that ends it, and what is behind it.  The first is `none` if
the string writes no text. -/
def readChars (read : Option Chars) : List Char → Option (Option String × List Char)
  | '"' :: cs => some (read.bind Chars.text, cs)
  | '\\' :: 'u' :: a :: b :: c :: d :: cs =>
    match hex? a b c d with
    | none => none
    | some n => readChars (read.bind (·.takeNumber n)) cs
  | '\\' :: c :: cs =>
    match escaped? c with
    | some c => readChars (read.bind (·.take c)) cs
    | none => none
  | c :: cs =>
    if c.toNat < 0x20 || c == '\\' then none else readChars (read.bind (·.take c)) cs
  | [] => none

/-- Reads a string behind its first quote. -/
def readString (cs : List Char) : Option (Option String × List Char) :=
  readChars (some {}) cs

/-- The document that a string is. -/
def ofText? : Option String → Json
  | some s => .string s
  | none => .illegible

/-- The object with the members, given newest first. -/
def ofMembers (ms : List (Option String × Json)) : Json :=
  match ms.reverse.mapM fun m => m.1.map (·, m.2) with
  | some ms => .object ms
  | none => .illegible

/-- The digits at the start of a text, if there are any. -/
def digits? (cs : List Char) : Option (List Char × List Char) :=
  match cs.span Char.isDigit with
  | ([], _) => none
  | (ds, rest) => some (ds, rest)

/-- The whole part of a number: zero, or digits that do not start with zero. -/
def wholePart? : List Char → Option (List Char × List Char)
  | '0' :: cs =>
    match cs with
    | c :: _ => if c.isDigit then none else some (['0'], cs)
    | [] => some (['0'], [])
  | cs => digits? cs

/-- The point and the digits behind it, or nothing. -/
def pointPart? : List Char → Option (List Char × List Char)
  | '.' :: cs => (digits? cs).map fun (ds, rest) => ('.' :: ds, rest)
  | cs => some ([], cs)

/-- The power of ten, or nothing. -/
def powerPart? : List Char → Option (List Char × List Char)
  | e :: cs =>
    if e == 'e' || e == 'E' then
      let (sign, rest) := match cs with
        | '+' :: rest => (['+'], rest)
        | '-' :: rest => (['-'], rest)
        | rest => ([], rest)
      (digits? rest).map fun (ds, rest) => (e :: (sign ++ ds), rest)
    else some ([], e :: cs)
  | [] => some ([], [])

/-- Reads a number and keeps its text. -/
def readNumber (cs : List Char) : Option (Json × List Char) :=
  let (sign, cs) := match cs with
    | '-' :: cs => (['-'], cs)
    | cs => ([], cs)
  match wholePart? cs with
  | none => none
  | some (whole, cs) =>
    match pointPart? cs with
    | none => none
    | some (point, cs) =>
      match powerPart? cs with
      | none => none
      | some (power, cs) => some (.number (String.ofList (sign ++ whole ++ point ++ power)), cs)

mutual

/-- Reads one document at the start of a text that does not start with a blank. -/
def readValue : Nat → List Char → Option (Json × List Char)
  | 0, _ => none
  | _ + 1, 'n' :: 'u' :: 'l' :: 'l' :: cs => some (.null, cs)
  | _ + 1, 't' :: 'r' :: 'u' :: 'e' :: cs => some (.bool true, cs)
  | _ + 1, 'f' :: 'a' :: 'l' :: 's' :: 'e' :: cs => some (.bool false, cs)
  | _ + 1, '"' :: cs => (readString cs).map fun (s, cs) => (ofText? s, cs)
  | fuel + 1, '[' :: cs =>
    match skip cs with
    | ']' :: cs => some (.array [], cs)
    | cs => readItems fuel [] cs
  | fuel + 1, '\x7b' :: cs =>
    match skip cs with
    | '\x7d' :: cs => some (.object [], cs)
    | cs => readMembers fuel [] cs
  | _ + 1, cs => readNumber cs

/-- Reads the items of an array behind its bracket.  `done` holds the newest first. -/
def readItems : Nat → List Json → List Char → Option (Json × List Char)
  | 0, _, _ => none
  | fuel + 1, done, cs =>
    match readValue fuel cs with
    | none => none
    | some (item, cs) =>
      match skip cs with
      | ',' :: cs => readItems fuel (item :: done) (skip cs)
      | ']' :: cs => some (.array (item :: done).reverse, cs)
      | _ => none

/-- Reads the members of an object behind its brace.  `done` holds the newest first. -/
def readMembers : Nat → List (Option String × Json) → List Char → Option (Json × List Char)
  | 0, _, _ => none
  | fuel + 1, done, '"' :: cs =>
    match readString cs with
    | none => none
    | some (name, cs) =>
      match skip cs with
      | ':' :: cs =>
        match readValue fuel (skip cs) with
        | none => none
        | some (item, cs) =>
          match skip cs with
          | ',' :: cs => readMembers fuel ((name, item) :: done) (skip cs)
          | '\x7d' :: cs => some (ofMembers ((name, item) :: done), cs)
          | _ => none
      | _ => none
  | _ + 1, _, _ => none

end

/-- Reads a text as one document. -/
def parse? (text : String) : Option Json :=
  let cs := text.toList
  match readValue (cs.length + 1) (skip cs) with
  | some (doc, rest) => if (skip rest).isEmpty then some doc else none
  | none => none

end BareBones.Json
