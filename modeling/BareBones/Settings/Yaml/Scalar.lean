/-
The texts of YAML.

A text can stand without quotes, between quotes of two kinds, or in a block of lines of its own.
The first three can run over several lines: the end of a line is then a space, and lines without
text are ends of lines.  In a block the ends of lines stay, or they are folded in the same way.

How far the lines of a text have to be indented depends on the block around it, whose indentation
is given; it is -1 where there is none.
-/
import BareBones.Settings.Yaml.Cursor
import BareBones.Text.Digit

namespace BareBones.Yaml

/-- Ends of lines inside a text: whether the first is one that can become a space, and how many
there are after it. -/
structure Breaks where
  first : Bool := false
  more : Nat := 0

/-- What the ends of lines become. -/
def Breaks.folded (b : Breaks) : List Char :=
  if b.first && b.more == 0 then [' '] else List.replicate b.more '\n'

/-! ### Texts between quotes -/

/-- Reads an escape behind its backslash, and counts its characters. -/
def readEscape? : List Char → Option (Char × Nat)
  | '0' :: _ => some ('\x00', 1)
  | 'a' :: _ => some ('\x07', 1)
  | 'b' :: _ => some ('\x08', 1)
  | 't' :: _ => some ('\t', 1)
  | '\t' :: _ => some ('\t', 1)
  | 'n' :: _ => some ('\n', 1)
  | 'v' :: _ => some ('\x0B', 1)
  | 'f' :: _ => some ('\x0C', 1)
  | 'r' :: _ => some ('\r', 1)
  | 'e' :: _ => some ('\x1B', 1)
  | ' ' :: _ => some (' ', 1)
  | '"' :: _ => some ('"', 1)
  | '/' :: _ => some ('/', 1)
  | '\\' :: _ => some ('\\', 1)
  | 'N' :: _ => some ('\u0085', 1)
  | '_' :: _ => some ('\u00A0', 1)
  | 'L' :: _ => some ('\u2028', 1)
  | 'P' :: _ => some ('\u2029', 1)
  | 'x' :: cs => (Text.readCode? 2 cs).map (·.1, 3)
  | 'u' :: cs => (Text.readCode? 4 cs).map (·.1, 5)
  | 'U' :: cs => (Text.readCode? 8 cs).map (·.1, 9)
  | _ => none

/-- Reads characters between quotes up to a blank, the end of the line or the quote.  `done` holds
the newest first.  The last result tells whether an escaped end of a line was the last thing
read. -/
def readQuotedWord (quote : Char) :
    Nat → List Char → Cursor → Option (List Char × Cursor × Bool)
  | 0, done, c => some (done, c, false)
  | fuel + 1, done, c =>
    match c.next? with
    | none => some (done, c, false)
    | some d =>
      if endsWord (some d) then some (done, c, false)
      else if d == quote then
        if quote == '\'' && c.second? == some quote then
          readQuotedWord quote fuel (quote :: done) (c.skipChars 2)
        else some (done, c, false)
      else if d == '\\' && quote == '"' then
        if c.second? == some '\n' then some (done, c.skipChar.skipBreak, true)
        else
          match readEscape? (c.rest.drop 1) with
          | some (e, size) => readQuotedWord quote fuel (e :: done) (c.skipChars (size + 1))
          | none => none
      else readQuotedWord quote fuel (d :: done) c.skipChar

/-- Skips blanks and ends of lines between quotes.  Blanks are kept up to the first end of a line,
the newest first.  A tab cannot indent a line. -/
def skipQuotedBlanks (indent : Int) :
    Nat → Option Breaks → List Char → Cursor → Option (Option Breaks × List Char × Cursor)
  | 0, breaks, blanks, c => some (breaks, blanks, c)
  | fuel + 1, breaks, blanks, c =>
    match c.next?, breaks with
    | some '\n', some b =>
      skipQuotedBlanks indent fuel (some { b with more := b.more + 1 }) blanks c.skipBreak
    | some '\n', none => skipQuotedBlanks indent fuel (some { first := true }) [] c.skipBreak
    | some d, breaks =>
      if !isBlank d then some (breaks, blanks, c)
      else if breaks.isNone then skipQuotedBlanks indent fuel breaks (d :: blanks) c.skipBlank
      else if d == '\t' && (c.col : Int) < indent then none
      else skipQuotedBlanks indent fuel breaks blanks c.skipBlank
    | none, breaks => some (breaks, blanks, c)

/-- Reads a text between quotes, behind the first, and the second quote.  `done` holds the newest
character first. -/
def readQuoted (quote : Char) (indent : Int) : Nat → List Char → Cursor → Option (String × Cursor)
  | 0, _, _ => none
  | fuel + 1, done, c =>
    if c.atDocumentMark || c.rest.isEmpty || (c.col : Int) < indent then none
    else
      match readQuotedWord quote (c.rest.length + 1) done c with
      | none => none
      | some (done, c, escaped) =>
        if c.next? == some quote then some (String.ofList done.reverse, c.skipChar)
        else
          let breaks : Option Breaks := if escaped then some {} else none
          match skipQuotedBlanks indent (c.rest.length + 1) breaks [] c with
          | none => none
          | some (breaks, blanks, c) =>
            let between := match breaks with
              | some b => b.folded
              | none => blanks
            readQuoted quote indent fuel (between ++ done) c

/-- Reads a text between quotes.  What is behind it in its line must be able to follow a text. -/
def readQuoted? (flow : Bool) (indent : Int) (c : Cursor) : Option (String × Cursor) :=
  match c.next? with
  | none => none
  | some quote =>
    match readQuoted quote indent (c.rest.length + 1) [] c.skipChar with
    | none => none
    | some (text, behind) =>
      match behind.toNextWord with
      | none => none
      | some (_, behind) =>
        let fits := match behind.next? with
          | some ':' => flow || c.line == behind.line
          | some d => d == '\n' || (flow && (d == ',' || d == '\x7d' || d == ']'))
          | none => true
        if fits then some (text, behind) else none

/-! ### Texts without quotes -/

/-- Can the next character, which is not blank, be part of a text without quotes? -/
def continuesPlain (flow : Bool) (c : Cursor) : Bool :=
  match c.next? with
  | none => false
  | some d =>
    if d == ':' then !(endsWord c.second? || (flow && c.second?.any isFlowMark))
    else !(flow && isFlowMark d)

/-- Reads characters without quotes up to a blank or what cannot be part of the text.  `done` holds
the newest first. -/
def readPlainWord (flow : Bool) : Nat → List Char → Cursor → List Char × Cursor
  | 0, done, c => (done, c)
  | fuel + 1, done, c =>
    match c.next? with
    | none => (done, c)
    | some d =>
      if endsWord (some d) || !continuesPlain flow c then (done, c)
      else readPlainWord flow fuel (d :: done) c.skipChar

/-- Skips blanks and ends of lines in a text without quotes.  Blanks are kept up to the first end of
a line, the newest first.  A tab cannot indent a line with text to less than `least`. -/
def skipPlainBlanks (least : Int) :
    Nat → Breaks → List Char → Cursor → Option (Breaks × List Char × Cursor)
  | 0, breaks, blanks, c => some (breaks, blanks, c)
  | fuel + 1, breaks, blanks, c =>
    match c.next? with
    | some '\n' =>
      if c.fresh then skipPlainBlanks least fuel { breaks with more := breaks.more + 1 } blanks
        c.skipBreak
      else skipPlainBlanks least fuel { breaks with first := true } [] c.skipBreak
    | some d =>
      if !isBlank d then some (breaks, blanks, c)
      else if !c.fresh then skipPlainBlanks least fuel breaks (d :: blanks) c.skipBlank
      else if d == '\t' && (c.col : Int) < least then
        match c.toNextWord with
        | some (_, c) =>
          if endsLine c.next? then skipPlainBlanks least fuel breaks blanks c else none
        | none => none
      else skipPlainBlanks least fuel breaks blanks c.skipBlank
    | none => some (breaks, blanks, c)

/-- Reads a text without quotes.  `done` holds the newest character first; `breaks` and `blanks` are
what is between it and this place. -/
def readPlain (flow : Bool) (least : Int) :
    Nat → List Char → Breaks → List Char → Cursor → Option (List Char × Cursor)
  | 0, _, _, _, _ => none
  | fuel + 1, done, breaks, blanks, c =>
    if c.atDocumentMark || c.next? == some '#' then some (done, c)
    else if flow && c.next? == some '-' && c.second?.any isFlowMark then none
    else
      let starts := !endsWord c.next? && continuesPlain flow c
      let between := if c.fresh then breaks.folded else blanks
      let (done, c) :=
        if starts then readPlainWord flow (c.rest.length + 1) (between ++ done) c else (done, c)
      if !c.next?.any (fun d => isBlank d || d == '\n') then some (done, c)
      else
        match skipPlainBlanks least (c.rest.length + 1) {} [] c with
        | none => none
        | some (breaks, blanks, c) =>
          if !flow && (c.col : Int) < least then some (done, c)
          else readPlain flow least fuel done breaks blanks c

/-- Reads a text without quotes. -/
def readPlain? (flow : Bool) (indent : Int) (c : Cursor) : Option (String × Cursor) :=
  let least := indent + 1
  if flow && (c.col : Int) < least then none
  else
    match readPlain flow least (c.rest.length + 1) [] {} [] c with
    | some (done, rest) =>
      if done.isEmpty then none else some (String.ofList done.reverse, rest)
    | none => none

/-! ### Blocks of lines -/

/-- What becomes of the ends of lines at the end of a block. -/
inductive Ending where
  | strip
  | clip
  | keep
  deriving DecidableEq, Repr

/-- What stands behind the mark of a block: what becomes of its end, and how far its lines are
indented, or zero. -/
structure Header where
  ending : Ending := .clip
  indent : Nat := 0

/-- Reads a sign in a header, if there is one. -/
def readEnding (c : Cursor) : Option Ending × Cursor :=
  match c.next? with
  | some '+' => (some .keep, c.skipChar)
  | some '-' => (some .strip, c.skipChar)
  | _ => (none, c)

/-- Reads a digit in a header, if there is one.  It is not zero. -/
def readIndent? (c : Cursor) : Option (Nat × Cursor) :=
  match c.next?.bind (Text.digit? 10) with
  | some 0 => none
  | some n => some (n, c.skipChar)
  | none => some (0, c)

/-- Reads the header of a block: a sign and a digit at most, in either order, and the line they
stand in. -/
def readHeader? (c : Cursor) : Option (Header × Cursor) := do
  let (before, c) := readEnding c
  let (indent, c) ← readIndent? c
  let (ending, c) := match before with
    | some ending => (ending, c)
    | none =>
      if indent = 0 then (.clip, c)
      else
        let (behind, c) := readEnding c
        (behind.getD .clip, c)
  let (_, c) ← c.toNextWord
  if endsLine c.next? then some (⟨ending, indent⟩, c) else none

/-- Skips lines without text and the indentation of the line after them, up to `indent` columns if
it is given.  It counts the lines, and gives the largest column that was reached. -/
def skipEmptyLines (indent : Option Nat) : Nat → Nat → Nat → Cursor → Nat × Nat × Cursor
  | 0, count, most, c => (count, most, c)
  | fuel + 1, count, most, c =>
    let most := max most c.col
    match c.next? with
    | some ' ' =>
      if indent.all (c.col < ·) then skipEmptyLines indent fuel count most c.skipBlank
      else (count, most, c)
    | some '\n' => skipEmptyLines indent fuel (count + 1) most c.skipBreak
    | _ => (count, most, c)

/-- The lines of a block that are read. -/
structure Block where
  /-- The text, the newest character first. -/
  text : List Char := []
  /-- Is there the end of a line behind the text? -/
  lineEnd : Bool := false
  /-- How many lines without text follow. -/
  gap : Nat := 0
  /-- Does the last line start with a blank? -/
  deep : Bool := false

/-- The ends of lines behind the text as they are. -/
def Block.ends (b : Block) : List Char :=
  List.replicate (b.gap + b.lineEnd.toNat) '\n'

/-- Reads the lines of a block. -/
def readLines (fold : Bool) (indent : Nat) : Nat → Block → Cursor → Block × Cursor
  | 0, b, c => (b, c)
  | fuel + 1, b, c =>
    if c.col != indent || c.rest.isEmpty || (indent == 0 && c.startsWith "...") then (b, c)
    else
      let deep := c.next?.any isBlank
      let between :=
        if fold && b.lineEnd && !b.deep && !deep then
          if b.gap == 0 then [' '] else List.replicate b.gap '\n'
        else b.ends
      let (line, c) := c.span fun _ => true
      let text := line.reverse ++ between ++ b.text
      if c.rest.isEmpty then ({ text := text, deep := deep }, c)
      else
        let (gap, _, c) := skipEmptyLines (some indent) (c.rest.length + 1) 0 0 c.skipBreak
        readLines fold indent fuel { text := text, lineEnd := true, gap := gap, deep := deep } c

/-- Reads a block of lines behind its mark. -/
def readBlock? (fold : Bool) (outer : Int) (start : Cursor) : Option (String × Cursor) :=
  match readHeader? start with
  | none => none
  | some (header, c) =>
    let broken := c.next? == some '\n'
    let c := if broken then c.skipBreak else c
    if c.next? == some '\t' then none
    else
      let given := if header.indent = 0 then none else some ((max outer 0).toNat + header.indent)
      let (gap, most, c) := skipEmptyLines given (c.rest.length + 1) 0 0 c
      let least := max (outer + 1).toNat (if 0 < outer then 1 else 0)
      let indent := given.getD (max most least)
      if c.rest.isEmpty then
        let ends := match header.ending with
          | .strip => 0
          | .clip => broken.toNat
          | .keep => if gap = 0 then broken.toNat else gap
        some (String.ofList (List.replicate ends '\n'), c)
      else if c.col < indent && outer < (c.col : Int) then none
      else
        let (b, c) := readLines fold indent (c.rest.length + 1) { gap := gap } c
        let last := b.lineEnd.toNat + (c.rest.isEmpty && max indent 1 ≤ c.col).toNat
        let ends := match header.ending with
          | .strip => 0
          | .clip => last
          | .keep => last + b.gap
        some (String.ofList (b.text.reverse ++ List.replicate ends '\n'), c)

end BareBones.Yaml
