/-
The tokens of a YAML file.

Blocks have no brackets, but their tokens do: a block starts where a line is indented further than
the block around it, and ends where a line is not.  Whether something is a key shows only at the
colon behind it, so the place where it started is kept, and the tokens for a key, and for a mapping
that starts with it, are put in there later.

Inside of brackets and braces, indentation does not count.
-/
import BareBones.Settings.Yaml.Scalar

namespace BareBones.Yaml

/-- A token. -/
inductive Token where
  /-- A line `%YAML`. -/
  | version
  /-- A line `%TAG`, or any other that starts with a percent sign. -/
  | tagHandle (handle expansion : String)
  | documentStart
  | documentEnd
  | blockSequence
  | blockMapping
  | blockEnd
  | flowSequence
  | flowSequenceEnd
  | flowMapping
  | flowMappingEnd
  /-- The dash before an item. -/
  | item
  | comma
  | key
  | value
  | again (name : String)
  | anchor (name : String)
  | tag (handle suffix : String)
  | scalar (plain : Bool) (text : String)
  deriving DecidableEq, Repr

/-- A place where a key may have started. -/
structure KeyStart where
  /-- How many tokens are before it. -/
  tokens : Nat
  /-- Must it be a key? -/
  required : Bool
  line : Nat
  col : Nat
  index : Nat

/-- A level of indentation. -/
structure Level where
  /-- The indentation around it. -/
  outer : Int
  /-- Does a block stand in it? -/
  block : Bool

/-- A file that is partly read. -/
structure Scan where
  cursor : Cursor
  /-- The newest first. -/
  tokens : List Token := []
  /-- Can a key start here? -/
  keyAllowed : Bool := true
  /-- Where a key may have started, for each collection around this place. -/
  keys : List (Option KeyStart) := [none]
  indent : Int := -1
  levels : List Level := []
  /-- How many brackets and braces are open. -/
  flow : Nat := 0
  /-- Where a value can follow its colon without a blank. -/
  adjacent : Nat := 0
  /-- Is there a mapping that needs no braces of its own? -/
  mappingOpen : Bool := false
  /-- Is there a mapping whose braces have to be put in? -/
  mappingImplied : Bool := false

namespace Scan

/-- Adds a token. -/
def push (s : Scan) (t : Token) : Scan :=
  { s with tokens := t :: s.tokens }

/-- Puts a token in behind the first `count`. -/
def insert (s : Scan) (count : Nat) (t : Token) : Scan :=
  let (newer, older) := s.tokens.splitAt (s.tokens.length - count)
  { s with tokens := newer ++ t :: older }

/-- The file from another place on. -/
def goto (s : Scan) (c : Cursor) : Scan :=
  { s with cursor := c }

/-- Is this place inside of brackets or braces? -/
def inFlow (s : Scan) : Bool :=
  0 < s.flow

/-! ### Indentation -/

/-- Starts a block at the column, if it is indented further than the block around it.  `count` is
the number of tokens before the block, if not all. -/
def openBlock (s : Scan) (col : Nat) (count : Option Nat) (t : Token) : Scan :=
  if s.inFlow then s
  else
    let s := match s.levels with
      | ⟨outer, false⟩ :: levels =>
        if s.indent ≤ (col : Int) then { s with indent := outer, levels := levels } else s
      | _ => s
    if s.indent < (col : Int) then
      let s := match count with
        | some count => s.insert count t
        | none => s.push t
      { s with indent := (col : Int), levels := ⟨s.indent, true⟩ :: s.levels }
    else s

/-- Ends the blocks that are indented further than the column. -/
def closeBlocks (s : Scan) (col : Int) : Scan :=
  if s.inFlow then s else go s.levels s
where
  /-- Leaves the levels one by one. -/
  go : List Level → Scan → Scan
    | [], s => s
    | ⟨outer, block⟩ :: levels, s =>
      if s.indent ≤ col then s
      else
        let s := if block then s.push .blockEnd else s
        go levels { s with indent := outer, levels := levels }

/-- Asks for one more column of indentation inside a block. -/
def indentMore (s : Scan) : Scan :=
  match s.inFlow, s.levels with
  | false, ⟨_, true⟩ :: _ =>
    { s with indent := s.indent + 1, levels := ⟨s.indent, false⟩ :: s.levels }
  | _, _ => s

/-- Takes back what `indentMore` asked for. -/
def indentLess (s : Scan) : Scan :=
  match s.levels with
  | ⟨outer, false⟩ :: levels => { s with indent := outer, levels := levels }
  | _ => s

/-! ### Keys -/

/-- Notes that a key may start here. -/
def markKey (s : Scan) : Scan :=
  if !s.keyAllowed then s
  else
    let inBlock := match s.levels with
      | ⟨_, block⟩ :: _ => block
      | [] => false
    let required := !s.inFlow && s.indent == (s.cursor.col : Int) && inBlock
    let start : KeyStart :=
      ⟨s.tokens.length, required, s.cursor.line, s.cursor.col, s.cursor.index⟩
    { s with keys := some start :: s.keys.drop 1 }

/-- Notes that what may have been a key is none. -/
def dropKey? (s : Scan) : Option Scan :=
  match s.keys with
  | some start :: keys =>
    if start.required then none else some { s with keys := none :: keys }
  | _ => some s

/-- How long a key can be. -/
def maxKey : Nat := 1024

/-- Notes what cannot be a key any more, since it is on a line above or too long. -/
def dropOldKeys? (s : Scan) : Option Scan := do
  let keys ← s.keys.mapM fun key =>
    match key with
    | none => some none
    | some start =>
      if !s.inFlow && (start.line < s.cursor.line || start.index + maxKey < s.cursor.index) then
        if start.required then none else some none
      else some (some start)
  return { s with keys := keys }

/-! ### Blanks and comments -/

/-- Skips blanks, ends of lines and comments.  A tab cannot indent a line of a block. -/
def skipBlanks : Nat → Scan → Option Scan
  | 0, s => some s
  | fuel + 1, s =>
    let c := s.cursor
    match c.next? with
    | some '\t' =>
      if !s.levels.isEmpty && c.fresh && (c.col : Int) < s.indent then
        match c.toNextWord with
        | some (_, c) => if endsLine c.next? then skipBlanks fuel (s.goto c) else none
        | none => none
      else skipBlanks fuel (s.goto c.skipBlank)
    | some ' ' => skipBlanks fuel (s.goto c.skipBlank)
    | some '\n' =>
      skipBlanks fuel { s.goto c.skipBreak with keyAllowed := s.keyAllowed || !s.inFlow }
    | some '#' => skipBlanks fuel (s.goto c.toLineEnd)
    | _ => some s

/-- Skips to the next token. -/
def toToken? (s : Scan) : Option Scan :=
  skipBlanks (s.cursor.rest.length + 1) s

/-- Goes on behind a mark of one character and the blanks after it. -/
def behindMark? (s : Scan) : Option Scan :=
  s.cursor.skipChar.toNextWord.map fun (_, c) => s.goto c

/-! ### Documents -/

/-- Reads a mark between documents. -/
def documentMark? (s : Scan) (t : Token) : Option Scan := do
  let s ← (s.closeBlocks (-1)).dropKey?
  return { s.goto (s.cursor.skipChars 3) with keyAllowed := false }.push t

/-- Reads the number of a version. -/
def readVersion? (c : Cursor) : Option Cursor :=
  let (blanks, c) := c.span isBlank
  let (major, c) := c.span Char.isDigit
  let (point, c) := c.span (· == '.')
  let (minor, c) := c.span Char.isDigit
  if blanks.isEmpty || major.isEmpty || point.length != 1 || minor.isEmpty ||
      9 < major.length || 9 < minor.length then none
  else some c

/-- Reads a line that starts with a percent sign. -/
def directive? (s : Scan) : Option Scan := do
  let s ← (s.closeBlocks (-1)).dropKey?
  let (name, c) := s.cursor.skipChar.span isWordChar
  if name.isEmpty || !endsWord c.next? then none
  let (t, c) ← match String.ofList name with
    | "YAML" => (readVersion? c).map (Token.version, ·)
    | "TAG" =>
      let (handle, c) := (c.span isBlank).2.span fun d => !isBlank d
      let (expansion, c) := (c.span isBlank).2.span fun d => !isBlank d
      if handle.head? == some '!' && handle.getLast? == some '!' && !expansion.isEmpty then
        some (Token.tagHandle (String.ofList handle) (String.ofList expansion), c)
      else none
    | _ => some (Token.tagHandle "" "", c.toLineEnd)
  let (_, c) ← c.toNextWord
  if !endsLine c.next? then none
  return { s.goto (if c.rest.isEmpty then c else c.skipBreak) with keyAllowed := false }.push t

/-! ### Collections between brackets and braces -/

/-- How deep brackets and braces can lie inside each other. -/
def maxFlow : Nat := 255

/-- Reads a bracket or brace that opens a collection. -/
def openFlow? (s : Scan) (t : Token) : Option Scan := do
  let s := s.markKey.indentMore
  if s.flow == maxFlow then none
  let s := { s with
    keys := none :: s.keys, flow := s.flow + 1, keyAllowed := true,
    mappingOpen := s.mappingOpen || t == Token.flowMapping }
  return (← s.behindMark?).push t

/-- Puts in the end of a mapping that has no braces of its own. -/
def endImplied (s : Scan) : Scan :=
  if s.mappingImplied then
    { s with mappingImplied := false, mappingOpen := false }.push .flowMappingEnd
  else s

/-- Reads a bracket or brace that closes a collection. -/
def closeFlow? (s : Scan) (t : Token) : Option Scan := do
  let s ← s.dropKey?
  let s := if s.inFlow then { s with flow := s.flow - 1, keys := s.keys.drop 1 } else s
  let s ← { s with keyAllowed := false }.endImplied.behindMark?
  return { s with adjacent := if s.inFlow then s.cursor.index else s.adjacent }.push t

/-- Reads a comma. -/
def comma? (s : Scan) : Option Scan := do
  let s ← s.dropKey?
  return (← { s with keyAllowed := true }.endImplied.behindMark?).push .comma

/-! ### Items, keys and values -/

/-- Reads the dash before an item. -/
def item? (s : Scan) : Option Scan := do
  let loose := match s.tokens with
    | .anchor _ :: _ | .tag _ _ :: _ => s.cursor.col == 0 && -1 < s.indent
    | _ => false
  if s.inFlow || !s.keyAllowed || loose then none
  let s := (s.goto s.cursor.skipChar).openBlock s.cursor.col none .blockSequence
  let (blanks, c) ← s.cursor.toNextWord
  if blanks.tabs && c.next? == some '-' && endsWord c.second? then none
  let s := s.goto c
  let s := if c.next? == some '\n' || c.next?.any isFlowMark then s.indentMore else s
  let s ← s.dropKey?
  return { s with keyAllowed := true }.push .item

/-- Skips spaces, ends of lines and comments behind a question mark, of which there are some. -/
def skipSpaces : Nat → Bool → Scan → Option Scan
  | 0, found, s => if found then some s else none
  | fuel + 1, found, s =>
    let c := s.cursor
    match c.next? with
    | some ' ' => skipSpaces fuel true (s.goto c.skipBlank)
    | some '\n' =>
      skipSpaces fuel true { s.goto c.skipBreak with keyAllowed := s.keyAllowed || !s.inFlow }
    | some '#' => skipSpaces fuel found (s.goto c.toLineEnd)
    | some '\t' => none
    | _ => if found then some s else none

/-- Reads the question mark before a key. -/
def key? (s : Scan) : Option Scan := do
  if !s.inFlow && !s.keyAllowed then none
  let s := if s.inFlow then { s with mappingOpen := true }
    else s.openBlock s.cursor.col none .blockMapping
  let s ← s.dropKey?
  let s := { s.goto s.cursor.skipChar with keyAllowed := !s.inFlow }
  return (← skipSpaces (s.cursor.rest.length + 1) false s).push .key

/-- Reads the colon before a value.  A tab alone does not part it from a word. -/
def value? (s : Scan) : Option Scan := do
  let start := s.cursor
  let s := { s.goto start.skipChar with mappingImplied := s.inFlow && !s.mappingOpen }
  let s ← if s.cursor.next? == some '\t' then do
      let (blanks, c) ← s.cursor.toNextWord
      if !blanks.spaces && c.next?.any isWordChar then none
      some (s.goto c)
    else some s
  match s.keys with
  | some key :: keys =>
    if s.mappingImplied && key.line < start.line then none
    let s := s.insert key.tokens .key
    let s := if s.mappingImplied then s.insert key.tokens .flowMapping else s
    let s := (s.openBlock key.col (some key.tokens) .blockMapping).indentMore
    return { s with keys := none :: keys, keyAllowed := false }.push .value
  | _ =>
    let s := if s.mappingImplied then s.push .flowMapping else s
    if !s.inFlow && !s.keyAllowed then none
    let s := (s.openBlock start.col none .blockMapping).indentMore
    return { s with keyAllowed := !s.inFlow }.push .value

/-- Reads a colon inside of brackets or braces that no blank follows. -/
def flowValue? (s : Scan) : Option Scan :=
  let next := s.cursor.second?
  if s.cursor.index != s.adjacent && (next == some '[' || next == some '\x7b') then none
  else s.value?

/-! ### Marks of nodes, and texts -/

/-- Can the character stand in the name of an anchor? -/
def isAnchorChar (c : Char) : Bool :=
  !isBlank c && !isFlowMark c && c != '\uFEFF'

/-- Reads an anchor or a reference to one. -/
def anchor? (s : Scan) (t : String → Token) : Option Scan :=
  let s := { s.markKey with keyAllowed := false }
  match s.cursor.skipChar.span isAnchorChar with
  | ([], _) => none
  | (name, c) => some ((s.goto c).push (t (String.ofList name)))

/-- Can the character stand in a tag? -/
def isTagChar (c : Char) : Bool :=
  isWordChar c || "#;/?:@&=+$.~*'()%".toList.contains c

/-- Reads a tag. -/
def tag? (s : Scan) : Option Scan := do
  let s := { s.markKey with keyAllowed := false }
  let start := s.cursor.skipChar
  let (handle, suffix, c) ←
    if start.next? == some '<' then
      let (suffix, c) := start.skipChar.span fun d => !isBlank d && d != '>'
      if c.next? == some '>' && !suffix.isEmpty then some ("", suffix, c.skipChar) else none
    else
      let (word, c) := start.span isWordChar
      if c.next? == some '!' then
        let (suffix, c) := c.skipChar.span isTagChar
        if suffix.isEmpty then none
        else some ("!" ++ String.ofList word ++ "!", suffix, c)
      else
        let (more, c) := c.span isTagChar
        let suffix := word ++ more
        if suffix.isEmpty then some ("", ['!'], c) else some ("!", suffix, c)
  if !(endsWord c.next? || (s.inFlow && c.next?.any isFlowMark)) then none
  return (s.goto c).push (.tag handle (String.ofList suffix))

/-- Reads a block of lines. -/
def block? (s : Scan) (fold : Bool) : Option Scan :=
  let s := { s.markKey with keyAllowed := true }.indentLess
  (readBlock? fold s.indent s.cursor.skipChar).map fun (text, c) =>
    (s.goto c).push (.scalar false text)

/-- Reads a text between quotes. -/
def quoted? (s : Scan) : Option Scan := do
  let s := { s.markKey with keyAllowed := false }
  let (text, c) ← readQuoted? s.inFlow s.indent s.cursor
  let s ← (s.goto c).toToken?
  return { s with adjacent := s.cursor.index }.push (.scalar false text)

/-- Reads a text without quotes. -/
def plain? (s : Scan) : Option Scan := do
  let s := { s.markKey with keyAllowed := false }.indentLess
  let (text, c) ← readPlain? s.inFlow s.indent s.cursor
  return { s.goto c with keyAllowed := c.fresh }.push (.scalar true text)

/-! ### The whole file -/

/-- Reads a token that starts with the character. -/
def token? (s : Scan) (c : Char) : Option Scan :=
  let alone := endsWord s.cursor.second?
  if s.cursor.col == 0 && c == '%' then s.directive?
  else if s.cursor.startsWith "---" then s.documentMark? .documentStart
  else if s.cursor.startsWith "..." then do
    let s ← s.documentMark? .documentEnd
    let (_, c) ← s.cursor.toNextWord
    if endsLine c.next? then some (s.goto c) else none
  else if (s.cursor.col : Int) < s.indent then none
  else
    match c with
    | '[' => s.openFlow? .flowSequence
    | '\x7b' => s.openFlow? .flowMapping
    | ']' => s.closeFlow? .flowSequenceEnd
    | '\x7d' => s.closeFlow? .flowMappingEnd
    | ',' => s.comma?
    | '*' => s.anchor? .again
    | '&' => s.anchor? .anchor
    | '!' => s.tag?
    | '\'' | '"' => s.quoted?
    | '-' => if alone then s.item? else s.plain?
    | '?' => if alone then s.key? else s.plain?
    | ':' =>
      if alone then s.value?
      else if s.inFlow &&
          (s.cursor.second?.any isFlowMark || s.cursor.index == s.adjacent) then s.flowValue?
      else s.plain?
    | '|' => if s.inFlow then s.plain? else s.block? false
    | '>' => if s.inFlow then s.plain? else s.block? true
    | '%' | '@' | '\x60' => none
    | _ => s.plain?

/-- Ends the file. -/
def finish? (s : Scan) : Option (List Token) :=
  if s.keys.any fun key => key.any KeyStart.required then none
  else some (s.closeBlocks (-1)).tokens.reverse

/-- Reads all tokens.  Each has a character at least. -/
def tokens? : Nat → Scan → Option (List Token)
  | 0, _ => none
  | fuel + 1, s => do
    let s ← s.toToken?
    let s ← s.dropOldKeys?
    let s := s.closeBlocks s.cursor.col
    match s.cursor.next? with
    | none => s.finish?
    | some c => tokens? fuel (← s.token? c)

end Scan

/-- Writes all ends of lines as line feeds. -/
def withLineFeeds : List Char → List Char
  | '\r' :: '\n' :: cs => '\n' :: withLineFeeds cs
  | '\r' :: cs => '\n' :: withLineFeeds cs
  | c :: cs => c :: withLineFeeds cs
  | [] => []

/-- The tokens of a text.  It ends at the first character with number zero. -/
def tokensOf? (text : String) : Option (List Token) :=
  let cs := withLineFeeds (text.toList.takeWhile (· != '\x00'))
  Scan.tokens? (cs.length + 2) { cursor := { rest := cs } }

end BareBones.Yaml
