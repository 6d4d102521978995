/-
Settings files in RON.

Structures `Name(field: value)` and maps `{key: value}` are tables, lists and tuples are lists.
`None`, `()` and a name that stands alone are nothing, and `Some(value)` is the value.  Behind the
last item a comma may stand.  Comments are those of `//` and `/* */`, and the latter can lie inside
each other.
-/
import BareBones.Settings.Setting

namespace BareBones.Ron

/-- The blanks between words. -/
def isBlank (c : Char) : Bool :=
  c == ' ' || c == '\t' || c == '\n' || c == '\r'

/-- What is behind a comment whose end is `*/`.  `depth` is how many lie around it. -/
def afterComment? (depth : Nat) : List Char → Option (List Char)
  | '/' :: '*' :: cs => afterComment? (depth + 1) cs
  | '*' :: '/' :: cs =>
    match depth with
    | 0 => some cs
    | depth + 1 => afterComment? depth cs
  | _ :: cs => afterComment? depth cs
  | [] => none

/-- The text from its first character that is neither blank nor in a comment. -/
def skip : Nat → List Char → Option (List Char)
  | 0, cs => some cs
  | fuel + 1, cs =>
    match cs.dropWhile isBlank with
    | '/' :: '/' :: cs => skip fuel (cs.dropWhile (· != '\n'))
    | '/' :: '*' :: cs => (afterComment? 0 cs).bind (skip fuel)
    | '/' :: _ => none
    | cs => some cs

/-- `skip`, as often as it takes. -/
def skip? (cs : List Char) : Option (List Char) :=
  skip (cs.length + 1) cs

/-- Can a name start with the character? -/
def isNameStart (c : Char) : Bool :=
  c.isAlpha || c == '_'

/-- Can the character stand in a name? -/
def isNameChar (c : Char) : Bool :=
  c.isAlphanum || c == '_'

/-- Can the character stand in a name that is marked by `r#`? -/
def isRawChar (c : Char) : Bool :=
  isNameChar c || c == '.' || c == '+' || c == '-'

/-- Reads a name. -/
def readName? (cs : List Char) : Option (String × List Char) :=
  match cs with
  | 'r' :: '"' :: _ => none
  | 'r' :: '#' :: rest =>
    match rest.span isRawChar with
    | ([], _) => none
    | (name, rest) => some (String.ofList name, rest)
  | c :: _ =>
    if isNameStart c then
      let (name, rest) := cs.span isNameChar
      some (String.ofList name, rest)
    else none
  | [] => none

/-- Can the character stand in a double? -/
def isDoubleChar (c : Char) : Bool :=
  c.isDigit || c == 'e' || c == 'E' || c == '.' || c == '+' || c == '-' || c == '_'

/-- Can the character stand in a whole number? -/
def isWholeChar (c : Char) : Bool :=
  Text.isDigitIn 16 c || c == '_'

/-- Reads a double. -/
def readDouble? (cs : List Char) : Option (Setting × List Char) :=
  let (word, rest) := cs.span isDoubleChar
  if word.contains '_' then none else (Double.read? word).map (.float ·, rest)

/-- Reads a whole number of 64 bits, with a sign or without one. -/
def readWhole? (cs : List Char) : Option (Setting × List Char) :=
  let (sign, cs) := match cs with
    | '-' :: cs => (['-'], cs)
    | '+' :: cs => ([], cs)
    | cs => ([], cs)
  let (base, cs) := match cs with
    | '0' :: 'x' :: cs => (16, cs)
    | '0' :: 'b' :: cs => (2, cs)
    | '0' :: 'o' :: cs => (8, cs)
    | cs => (10, cs)
  let (word, rest) := cs.span isWholeChar
  if word.head? == some '_' then none
  else
    match Text.numberIn? base (word.filter (· != '_')) with
    | none => none
    | some n =>
      let n : Int := if sign.isEmpty then n else -n
      if Int64.minValue.toInt ≤ n ∧ n ≤ Int64.maxValue.toInt then some (.int n, rest)
      else if n.natAbs < UInt64.size && sign.isEmpty then some (.float (Float.ofInt n), rest)
      else none

/-- Reads a number: a double if it looks like one, a whole number if it can be one, and a double if
that fails. -/
def readNumber? (cs : List Char) : Option (Setting × List Char) :=
  let size := match cs with
    | c :: rest => if c == '+' || c == '-' then rest else cs
    | [] => []
  if (size.takeWhile isWholeChar).length < (size.takeWhile isDoubleChar).length then readDouble? cs
  else (readWhole? cs).orElse fun _ => readDouble? cs

/-- Reads the digits of an escape up to the brace behind them. -/
def readBraced? (cs : List Char) : Option (Char × List Char) :=
  match cs.span (· != '\x7d') with
  | (ds, _ :: rest) =>
    match Text.numberIn? 16 ds with
    | some n => if ds.length ≤ 6 ∧ n.isValidChar then some (Char.ofNat n, rest) else none
    | none => none
  | (_, []) => none

/-- Reads an escape behind its backslash. -/
def readEscape? : List Char → Option (Char × List Char)
  | '\'' :: cs => some ('\'', cs)
  | '"' :: cs => some ('"', cs)
  | '\\' :: cs => some ('\\', cs)
  | 'n' :: cs => some ('\n', cs)
  | 'r' :: cs => some ('\r', cs)
  | 't' :: cs => some ('\t', cs)
  | '0' :: cs => some ('\x00', cs)
  | 'x' :: cs => Text.readCode? 2 cs
  | 'u' :: '\x7b' :: cs => readBraced? cs
  | _ => none

/-- Reads a text behind its first quote.  `done` holds the newest character first. -/
def readText : Nat → List Char → List Char → Option (String × List Char)
  | 0, _, _ => none
  | _ + 1, _, [] => none
  | _ + 1, done, '"' :: cs => some (String.ofList done.reverse, cs)
  | fuel + 1, done, '\\' :: cs =>
    match readEscape? cs with
    | some (c, cs) => readText fuel (c :: done) cs
    | none => none
  | fuel + 1, done, c :: cs => readText fuel (c :: done) cs

/-- Reads a text without escapes up to a quote and `hashes` hashes. -/
def readRaw (hashes : Nat) (done : List Char) : List Char → Option (String × List Char)
  | [] => none
  | c :: cs =>
    if c == '"' && (List.replicate hashes '#').isPrefixOf cs then
      some (String.ofList done.reverse, cs.drop hashes)
    else readRaw hashes (c :: done) cs

/-- Reads a text or a character between quotes. -/
def readQuoted? (cs : List Char) : Option (Setting × List Char) :=
  match cs with
  | '"' :: cs => (readText (cs.length + 1) [] cs).map fun (s, rest) => (.text s, rest)
  | 'r' :: cs =>
    match cs.span (· == '#') with
    | (hashes, '"' :: cs) => (readRaw hashes.length [] cs).map fun (s, rest) => (.text s, rest)
    | _ => none
  | '\'' :: '\\' :: cs =>
    match readEscape? cs with
    | some (c, '\'' :: rest) => some (.text c.toString, rest)
    | _ => none
  | '\'' :: c :: '\'' :: rest => some (.text c.toString, rest)
  | _ => none

/-- The text of a setting that can be a name. -/
def nameOf? : Setting → Option String
  | .text s => some s
  | _ => none

/-- Goes on behind a mark and the blanks after it. -/
def after? (mark : Char) (cs : List Char) : Option (List Char) :=
  match skip? cs with
  | some (c :: cs) => if c == mark then skip? cs else none
  | _ => none

/-- Does a name and a colon follow? -/
def startsField (cs : List Char) : Bool :=
  match readName? cs with
  | some (_, rest) => (after? ':' rest).isSome
  | none => false

/-- The numbers that have a name, and the words for nothing and for truth values. -/
def word? : String → Option Setting
  | "true" => some (.bool true)
  | "false" => some (.bool false)
  | "None" => some .nothing
  | "inf" => some (.float (1.0 / 0.0))
  | "NaN" => some (.float (0.0 / 0.0))
  | _ => none

/-- What can stand between the brackets of something that has items. -/
inductive Items where
  /-- Values, as in a list. -/
  | values
  /-- Names and values, as in a structure. -/
  | fields
  /-- Values and values, as in a map. -/
  | pairs
  deriving DecidableEq, Repr

/-- The setting that items, newest first, make up. -/
def finish (items : Items) (done : List (String × Setting)) : Setting :=
  if items = .values then .list else .ofEntries done.reverse

mutual

/-- Reads a value.  `room` is how many values can still lie inside it. -/
def readValue : Nat → Nat → List Char → Option (Setting × List Char)
  | 0, _, _ => none
  | fuel + 1, room, cs =>
    match cs with
    | '(' :: ')' :: cs => some (.nothing, cs)
    | '(' :: cs => readParens fuel room cs
    | '[' :: cs => open? fuel room .values ']' cs
    | '\x7b' :: cs => open? fuel room .pairs '\x7d' cs
    | '-' :: 'i' :: 'n' :: 'f' :: rest => some (.float (-1.0 / 0.0), rest)
    | c :: _ =>
      match readName? cs with
      | some (name, rest) =>
        match word? name with
        | some s => some (s, rest)
        | none => readNamed fuel room name rest
      | none =>
        if c == '"' || c == '\'' || c == 'r' then readQuoted? cs
        else if c.isDigit || c == '+' || c == '-' then readNumber? cs
        else if c == '.' then readDouble? cs
        else none
    | [] => none

/-- Reads what may follow a name: the rest of a structure or an option. -/
def readNamed : Nat → Nat → String → List Char → Option (Setting × List Char)
  | 0, _, _, _ => none
  | fuel + 1, room, name, cs =>
    match name == "Some", room, skip? cs with
    | true, room + 1, some ('(' :: cs) =>
      match (skip? cs).bind (readValue fuel room) with
      | none => none
      | some (s, rest) =>
        let rest := (after? ',' rest).orElse fun _ => skip? rest
        match rest with
        | some (')' :: rest) => some (s, rest)
        | _ => none
    | true, _, _ => none
    | false, room, some ('(' :: cs) => readParens fuel room cs
    | false, _, some rest => some (.nothing, rest)
    | false, _, none => none

/-- Reads a structure or a tuple behind its first parenthesis. -/
def readParens : Nat → Nat → List Char → Option (Setting × List Char)
  | 0, _, _ => none
  | fuel + 1, room, cs =>
    match skip? cs with
    | none => none
    | some cs => open? fuel room (if startsField cs then .fields else .values) ')' cs

/-- Reads items behind the mark that opens them. -/
def open? : Nat → Nat → Items → Char → List Char → Option (Setting × List Char)
  | 0, _, _, _, _ => none
  | _ + 1, 0, _, _, _ => none
  | fuel + 1, room + 1, items, close, cs => (skip? cs).bind (readItems fuel room items close [])

/-- Reads items behind the mark that opens them or behind a comma, up to the mark that closes
them. -/
def readItems : Nat → Nat → Items → Char → List (String × Setting) → List Char →
    Option (Setting × List Char)
  | 0, _, _, _, _, _ => none
  | fuel + 1, room, items, close, done, cs =>
    if cs.head? == some close then some (finish items done, cs.drop 1)
    else
      let name? : Option (String × List Char) := match items with
        | .values => some ("", cs)
        | .fields => (readName? cs).bind fun (name, rest) => (after? ':' rest).map (name, ·)
        | .pairs => (readValue fuel room cs).bind fun (key, rest) =>
          (nameOf? key).bind fun name => (after? ':' rest).map (name, ·)
      match name? with
      | none => none
      | some (name, cs) =>
        match readValue fuel room cs with
        | none => none
        | some (s, rest) =>
          match after? ',' rest, skip? rest with
          | some rest, _ => readItems fuel room items close ((name, s) :: done) rest
          | none, some (c :: rest) =>
            if c == close then some (finish items ((name, s) :: done), rest) else none
          | none, _ => none

end

/-- The words that can stand in an attribute at the start of a file. -/
def extensions : List String :=
  ["unwrap_newtypes", "implicit_some", "unwrap_variant_newtypes", "explicit_struct_names"]

/-- Reads the words of an attribute. -/
def readWords : Nat → List Char → Option (List Char)
  | 0, _ => none
  | fuel + 1, cs =>
    match readName? cs with
    | none => none
    | some (word, rest) =>
      if !extensions.contains word then none
      else
        match after? ',' rest with
        | none => skip? rest
        | some rest => if rest.head?.any isNameChar then readWords fuel rest else some rest

/-- What is behind the attributes at the start of a file. -/
def skipAttributes : Nat → List Char → Option (List Char)
  | 0, cs => some cs
  | fuel + 1, cs =>
    if cs.head? != some '#' then some cs
    else do
      let cs ← after? '#' cs
      let cs ← after? '!' cs
      let cs ← after? '[' cs
      let (word, cs) ← readName? cs
      if word != "enable" then none
      let cs ← after? '(' cs
      let cs ← readWords cs.length cs
      let cs ← after? ')' cs
      let cs ← after? ']' cs
      skipAttributes fuel cs

/-- How many values can lie around a value. -/
def maxDepth : Nat := 128

/-- Reads the settings of a file. -/
def parse? (text : String) : Option Layer := do
  let cs ← skip? text.toList
  let cs ← skipAttributes cs.length cs
  let (root, rest) ← readValue (4 * cs.length + 4) maxDepth cs
  match root, ← skip? rest with
  | .table es, [] => some es
  | _, _ => none

end BareBones.Ron
