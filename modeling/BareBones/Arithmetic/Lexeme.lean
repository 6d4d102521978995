/-
The lexemes of an expression.

Blanks part lexemes and are otherwise dropped; here a blank is a space, a tab or a line break.
Every other character belongs to exactly one lexeme, the longest that starts where the one
before it ended.  A character that no lexeme can start with is a lexeme of its own, so that the
parser finds it in its place.
-/

namespace BareBones.Arithmetic

/-- The kinds of lexemes. -/
inductive Token where
  | number (text : String)
  | name (text : String)
  | plus
  | minus
  | times
  | divide
  | modulo
  | power
  | leftParen
  | rightParen
  | comma
  | stray (c : Char)
  deriving DecidableEq, Repr

/-- A lexeme and how many characters stand before it. -/
structure Lexeme where
  token : Token
  offset : Nat
  deriving DecidableEq, Repr

/-- The blanks of expressions. -/
def isBlank (c : Char) : Bool :=
  c == ' ' || c == '\t' || c == '\r' || c == '\n'

/-- Can a name start with the character? -/
def startsName (c : Char) : Bool :=
  c.isAlpha || c == '_'

/-- Can the character go on a name? -/
def continuesName (c : Char) : Bool :=
  c.isAlphanum || c == '_'

/-- The digits and point at the start of a text: digits with an optional point behind or among
them, or a point with digits behind it.  Empty if there are none. -/
def mantissa (cs : List Char) : List Char :=
  let (whole, rest) := cs.span Char.isDigit
  match whole, rest with
  | [], '.' :: rest =>
    match rest.takeWhile Char.isDigit with
    | [] => []
    | part => '.' :: part
  | [], _ => []
  | whole, '.' :: rest => whole ++ '.' :: rest.takeWhile Char.isDigit
  | whole, _ => whole

/-- The sign at the start of a text, or nothing, and what is behind it. -/
def signPart : List Char → List Char × List Char
  | '+' :: rest => (['+'], rest)
  | '-' :: rest => (['-'], rest)
  | rest => ([], rest)

/-- The power of ten at the start of a text: `e` or `E`, a sign or none, and digits.  Empty if
the text starts with none. -/
def exponentPart : List Char → List Char
  | e :: cs =>
    if e == 'e' || e == 'E' then
      let (sign, rest) := signPart cs
      match rest.takeWhile Char.isDigit with
      | [] => []
      | ds => e :: (sign ++ ds)
    else []
  | [] => []

/-- The number at the start of a text.  Empty if the text starts with none. -/
def numberPart (cs : List Char) : List Char :=
  match mantissa cs with
  | [] => []
  | m => m ++ exponentPart (cs.drop m.length)

/-- The sign that the character is. -/
def sign? : Char → Option Token
  | '+' => some .plus
  | '-' => some .minus
  | '*' => some .times
  | '×' => some .times
  | '·' => some .times
  | '/' => some .divide
  | '÷' => some .divide
  | '%' => some .modulo
  | '^' => some .power
  | '(' => some .leftParen
  | ')' => some .rightParen
  | ',' => some .comma
  | _ => none

/-- The longest lexeme at the start of the text `c :: cs`, and how many characters of `cs` it
takes. -/
def front (c : Char) (cs : List Char) : Token × Nat :=
  if startsName c then
    let more := cs.takeWhile continuesName
    (.name (String.ofList (c :: more)), more.length)
  else
    match numberPart (c :: cs) with
    | d :: ds => (.number (String.ofList (d :: ds)), ds.length)
    | [] => ((sign? c).getD (.stray c), 0)

/-- The lexemes of a text that starts at `offset` and whose first `skip` characters belong to the
lexeme before. -/
def lexFrom (offset : Nat) : Nat → List Char → List Lexeme
  | _, [] => []
  | skip + 1, _ :: cs => lexFrom (offset + 1) skip cs
  | 0, c :: cs =>
    if isBlank c then lexFrom (offset + 1) 0 cs
    else
      let (token, more) := front c cs
      ⟨token, offset⟩ :: lexFrom (offset + 1) more cs

/-- The lexemes of a text. -/
def lex (cs : List Char) : List Lexeme :=
  lexFrom 0 0 cs

end BareBones.Arithmetic
