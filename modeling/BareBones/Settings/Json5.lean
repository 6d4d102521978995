/-
Settings files in JSON5.

JSON5 is JSON that is easier to write by hand: comments, names without quotes, either kind of
quotes, a comma behind the last item, numbers with a sign, in base 16, or with digits on one side
of their point only, and lines that go on behind a backslash.
-/
import BareBones.Settings.Setting
import BareBones.Text.Blank
import BareBones.Text.Letter

namespace BareBones.Json5

/-- Does the character end a line? -/
def isLineEnd (c : Char) : Bool :=
  c == '\n' || c == '\r' || c == '\u2028' || c == '\u2029'

/-- The blanks between words. -/
def isBlank (c : Char) : Bool :=
  (Text.isBlank c && c != '\u0085') || c == '\uFEFF'

/-- What is behind the end of a comment. -/
def afterComment? : List Char → Option (List Char)
  | '*' :: '/' :: cs => some cs
  | _ :: cs => afterComment? cs
  | [] => none

/-- The text from its first character that is neither blank nor in a comment. -/
def skipWords : Nat → List Char → List Char
  | 0, cs => cs
  | fuel + 1, cs =>
    match cs.dropWhile isBlank with
    | '/' :: '/' :: cs => skipWords fuel (cs.dropWhile (!isLineEnd ·))
    | '/' :: '*' :: cs =>
      match afterComment? cs with
      | some cs => skipWords fuel cs
      | none => '/' :: '*' :: cs
    | cs => cs

/-- `skipWords`, as often as it takes. -/
def skip (cs : List Char) : List Char :=
  skipWords (cs.length + 1) cs

/-- The number of the character that an escape of four digits stands for, or half of a pair. -/
def readUnit? (cs : List Char) : Option (Nat × List Char) :=
  if (cs.take 4).length ≠ 4 then none
  else (Text.numberIn? 16 (cs.take 4)).map (·, cs.drop 4)

/-- Reads a character given by its number, or by the two halves of a pair, behind `\u`. -/
def readUnits? (cs : List Char) : Option (Char × List Char) :=
  match readUnit? cs with
  | none => none
  | some (n, rest) =>
    if 0xD800 ≤ n ∧ n < 0xDC00 then
      match rest with
      | '\\' :: 'u' :: rest =>
        match readUnit? rest with
        | some (m, rest) =>
          if 0xDC00 ≤ m ∧ m < 0xE000 then
            some (Char.ofNat (0x10000 + (n - 0xD800) * 0x400 + (m - 0xDC00)), rest)
          else none
        | none => none
      | _ => none
    else if 0xDC00 ≤ n ∧ n < 0xE000 then none
    else some (Char.ofNat n, rest)

/-- Reads an escape behind its backslash.  An escaped end of a line stands for nothing. -/
def readEscape? : List Char → Option (List Char × List Char)
  | [] => none
  | 'b' :: cs => some (['\x08'], cs)
  | 'f' :: cs => some (['\x0C'], cs)
  | 'n' :: cs => some (['\n'], cs)
  | 'r' :: cs => some (['\r'], cs)
  | 't' :: cs => some (['\t'], cs)
  | 'v' :: cs => some (['\x0B'], cs)
  | '0' :: cs => some (['\x00'], cs)
  | 'x' :: cs => (Text.readCode? 2 cs).map fun (c, cs) => ([c], cs)
  | 'u' :: cs => (readUnits? cs).map fun (c, cs) => ([c], cs)
  | '\r' :: '\n' :: cs => some ([], cs)
  | c :: cs => if c.isDigit then none else some (if isLineEnd c then [] else [c], cs)

/-- Reads a text behind its first quote.  `done` holds the newest character first. -/
def readText (quote : Char) : Nat → List Char → List Char → Option (String × List Char)
  | 0, _, _ => none
  | _ + 1, _, [] => none
  | fuel + 1, done, c :: cs =>
    if c == quote then some (String.ofList done.reverse, cs)
    else if c == '\\' then
      match readEscape? cs with
      | some (plain, rest) => readText quote fuel (plain ++ done) rest
      | none => none
    else if isLineEnd c then none
    else readText quote fuel (c :: done) cs

/-- Can a name without quotes start with the character? -/
def isNameStart (c : Char) : Bool :=
  Text.isLetter c || c == '$' || c == '_'

/-- Can the character stand in a name without quotes? -/
def isNameChar (c : Char) : Bool :=
  isNameStart c || c.isDigit || c == '\u200C' || c == '\u200D'

/-- Reads a name without quotes.  `done` holds the newest character first. -/
def readBare : Nat → List Char → List Char → Option (String × List Char)
  | 0, _, _ => none
  | fuel + 1, done, cs =>
    match cs with
    | '\\' :: 'u' :: rest =>
      match readUnits? rest with
      | some (c, rest) => readBare fuel (c :: done) rest
      | none => none
    | c :: rest =>
      if isNameStart c || (!done.isEmpty && isNameChar c) then readBare fuel (c :: done) rest
      else if done.isEmpty then none
      else some (String.ofList done.reverse, cs)
    | [] => if done.isEmpty then none else some (String.ofList done.reverse, [])

/-- Reads a name: between quotes or without them. -/
def readName? (cs : List Char) : Option (String × List Char) :=
  match cs with
  | c :: rest =>
    if c == '"' || c == '\'' then readText c (rest.length + 1) [] rest
    else readBare (cs.length + 1) [] cs
  | [] => none

/-- Splits off a power of ten, if there is one. -/
def spanPower (cs : List Char) : List Char × List Char :=
  match cs with
  | e :: rest =>
    let (sign, rest) := match rest with
      | '+' :: rest => (['+'], rest)
      | '-' :: rest => (['-'], rest)
      | rest => ([], rest)
    match rest.span Char.isDigit with
    | ([], _) => ([], cs)
    | (ds, rest) => if e == 'e' || e == 'E' then (e :: sign ++ ds, rest) else ([], cs)
  | [] => ([], [])

/-- Reads a number in base ten behind its sign: a whole number of 64 bits, or a double if there is
a point or a power of ten. -/
def readDecimal? (sign cs : List Char) : Option (Setting × List Char) :=
  let (whole, rest) := match cs with
    | '0' :: rest => (['0'], rest)
    | cs => cs.span Char.isDigit
  let (point, rest) := match rest with
    | '.' :: rest =>
      let (ds, rest) := rest.span Char.isDigit
      ('.' :: ds, rest)
    | rest => ([], rest)
  let (power, rest) := spanPower rest
  if whole.isEmpty && point.length < 2 then none
  else if point.isEmpty && power.isEmpty then
    (Setting.readInt64? 10 (sign ++ whole)).map (.int ·, rest)
  else
    match Double.read? (sign ++ whole ++ point ++ power) with
    | some x => if x.isInf then none else some (.float x, rest)
    | none => none

/-- Reads a number of 32 bits in base 16. -/
def readHex? (cs : List Char) : Option (Setting × List Char) :=
  let (ds, rest) := cs.span (Text.isDigitIn 16)
  match Text.numberIn? 16 ds with
  | some n => if n < UInt32.size then some (.int n, rest) else none
  | none => none

/-- What is behind the word, if the text starts with it. -/
def after? (word : String) (cs : List Char) : Option (List Char) :=
  if word.toList.isPrefixOf cs then some (cs.drop word.length) else none

/-- Reads a number.  Only numbers in base ten can have a plus. -/
def readNumber? (cs : List Char) : Option (Setting × List Char) :=
  let (sign, size) := match cs with
    | '-' :: size => (['-'], size)
    | '+' :: size => (['+'], size)
    | size => ([], size)
  match sign, size with
  | [], '0' :: 'x' :: size => readHex? size
  | [], '0' :: 'X' :: size => readHex? size
  | sign, size =>
    match after? "Infinity" size, after? "NaN" size with
    | some rest, _ => if sign == ['+'] then none else
      some (.float (if sign.isEmpty then 1.0 / 0.0 else -1.0 / 0.0), rest)
    | none, some rest => if sign == ['+'] then none else some (.float (0.0 / 0.0), rest)
    | none, none => readDecimal? sign size

/-- Reads a value that is neither an array nor an object. -/
def readPlain? (cs : List Char) : Option (Setting × List Char) :=
  match after? "null" cs, after? "true" cs, after? "false" cs with
  | some rest, _, _ => some (.nothing, rest)
  | _, some rest, _ => some (.bool true, rest)
  | _, _, some rest => some (.bool false, rest)
  | none, none, none =>
    match cs with
    | c :: rest =>
      if c == '"' || c == '\'' then
        (readText c (rest.length + 1) [] rest).map fun (s, rest) => (.text s, rest)
      else readNumber? cs
    | [] => none

mutual

/-- Reads a value. -/
def readValue : Nat → List Char → Option (Setting × List Char)
  | 0, _ => none
  | fuel + 1, '[' :: cs =>
    match skip cs with
    | ']' :: cs => some (.list, cs)
    | cs => readItems fuel cs
  | fuel + 1, '\x7b' :: cs =>
    match skip cs with
    | '\x7d' :: cs => some (.table [], cs)
    | cs => readMembers fuel [] cs
  | _ + 1, cs => readPlain? cs

/-- Reads the items of an array, of which there is at least one. -/
def readItems : Nat → List Char → Option (Setting × List Char)
  | 0, _ => none
  | fuel + 1, cs =>
    match readValue fuel cs with
    | none => none
    | some (_, rest) =>
      match skip rest with
      | ']' :: rest => some (.list, rest)
      | ',' :: rest =>
        match skip rest with
        | ']' :: rest => some (.list, rest)
        | rest => readItems fuel rest
      | _ => none

/-- Reads the members of an object, of which there is at least one.  `done` holds the newest
first. -/
def readMembers : Nat → List (String × Setting) → List Char → Option (Setting × List Char)
  | 0, _, _ => none
  | fuel + 1, done, cs =>
    match readName? cs with
    | none => none
    | some (name, rest) =>
      match skip rest with
      | ':' :: rest =>
        match readValue fuel (skip rest) with
        | none => none
        | some (s, rest) =>
          let done := (name, s) :: done
          match skip rest with
          | '\x7d' :: rest => some (.ofEntries done.reverse, rest)
          | ',' :: rest =>
            match skip rest with
            | '\x7d' :: rest => some (.ofEntries done.reverse, rest)
            | rest => readMembers fuel done rest
          | _ => none
      | _ => none

end

/-- Reads the settings of a file. -/
def parse? (text : String) : Option Layer :=
  let cs := skip text.toList
  match readValue (cs.length + 1) cs with
  | some (.table es, rest) => if (skip rest).isEmpty then some es else none
  | _ => none

end BareBones.Json5
