/-
Writing JSON.

`compact` writes a document without blanks, `pretty` one item or member a line, two spaces in for
each level.  Both write every character as it is, except quotes, backslashes and controls.
-/
import BareBones.Decimal.Shortest
import BareBones.Json.Basic

namespace BareBones.Json

/-- How a character is written inside a string. -/
def escapeChar (c : Char) : List Char :=
  match c with
  | '"' => ['\\', '"']
  | '\\' => ['\\', '\\']
  | '\x08' => ['\\', 'b']
  | '\x0C' => ['\\', 'f']
  | '\n' => ['\\', 'n']
  | '\r' => ['\\', 'r']
  | '\t' => ['\\', 't']
  | c =>
    if c.toNat < 0x20 then
      ['\\', 'u', '0', '0', Nat.digitChar (c.toNat / 16), Nat.digitChar (c.toNat % 16)]
    else [c]

/-- A string between quotes. -/
def quote (s : String) : String :=
  "\"" ++ String.ofList (s.toList.flatMap escapeChar) ++ "\""

/-- The text of a double: the shortest decimal that reads back, and of two equally near the even
one.  Numbers from 10^-5 up to 10^16 have no power of ten, and at least one digit behind the
point. -/
def doubleText (x : Float) : String :=
  let bits := Binary64.sizeBits x
  let size :=
    if bits = 0 then "0.0"
    else
      let d := Decimal.shortest .even bits
      let ds := digitsOfNat d.digits
      let power : Int := d.exponent + ds.length - 1
      if -5 ≤ power ∧ power ≤ 15 then
        String.ofList d.positional ++ (if 0 ≤ d.exponent then ".0" else "")
      else
        let (lead, part) := (ds.take 1, ds.drop 1)
        let number := String.ofList (if part.isEmpty then lead else lead ++ '.' :: part)
        number ++ (if 0 ≤ power then "e+" else "e-") ++ toString power.natAbs
  if Binary64.isNegative x then "-" ++ size else size

/-- A double as a document.  Infinities and NaN are `null`. -/
def ofFloat (x : Float) : Json :=
  if Binary64.isFinite x then .number (doubleText x) else .null

mutual

/-- Writes the document without blanks behind a text.  What is illegible is written as `null`. -/
def write (out : String) : Json → String
  | .null | .illegible => out ++ "null"
  | .bool true => out ++ "true"
  | .bool false => out ++ "false"
  | .number text => out ++ text
  | .string s => out ++ quote s
  | .array items => writeItems (out ++ "[") items ++ "]"
  | .object ms => writeMembers (out ++ "\x7b") ms ++ "\x7d"

/-- Writes items with commas between them. -/
def writeItems (out : String) : List Json → String
  | [] => out
  | [item] => write out item
  | item :: items => writeItems (write out item ++ ",") items

/-- Writes members with commas between them. -/
def writeMembers (out : String) : List (String × Json) → String
  | [] => out
  | [(name, item)] => write (out ++ quote name ++ ":") item
  | (name, item) :: ms => writeMembers (write (out ++ quote name ++ ":") item ++ ",") ms

end

/-- The document without blanks. -/
def compact (doc : Json) : String :=
  write "" doc

/-- A line break and two spaces for each level. -/
def newline (level : Nat) : String :=
  "\n" ++ String.ofList (List.replicate (2 * level) ' ')

mutual

/-- Writes the document behind a text, with a line for each item and member.  What is empty takes
no line. -/
def writeLines (level : Nat) (out : String) : Json → String
  | .array [] => out ++ "[]"
  | .array (item :: items) =>
    writeItemLines (level + 1) (out ++ "[") (item :: items) ++ newline level ++ "]"
  | .object [] => out ++ "\x7b\x7d"
  | .object (m :: ms) =>
    writeMemberLines (level + 1) (out ++ "\x7b") (m :: ms) ++ newline level ++ "\x7d"
  | doc => write out doc

/-- Writes items on lines of their own. -/
def writeItemLines (level : Nat) (out : String) : List Json → String
  | [] => out
  | [item] => writeLines level (out ++ newline level) item
  | item :: items =>
    writeItemLines level (writeLines level (out ++ newline level) item ++ ",") items

/-- Writes members on lines of their own. -/
def writeMemberLines (level : Nat) (out : String) : List (String × Json) → String
  | [] => out
  | [(name, item)] => writeLines level (out ++ newline level ++ quote name ++ ": ") item
  | (name, item) :: ms =>
    writeMemberLines level
      (writeLines level (out ++ newline level ++ quote name ++ ": ") item ++ ",") ms

end

/-- The document with a line for each item and member. -/
def pretty (doc : Json) : String :=
  writeLines 0 "" doc

end BareBones.Json
