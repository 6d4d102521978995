/-
Values.

A value is a whole number of 64 bits without a sign, a double, a truth value or a string.  A
double that is a whole number and not negative is written down as a whole number, so arithmetic
and literals agree on which of the two a number is.

A literal is read in a fixed order: first the quotes around it go, then it is a whole number, a
double, a truth value or a string, whichever it can be first.
-/
import BareBones.Decimal.Double

namespace BareBones

/-- A value of a variable. -/
inductive Value where
  | int (n : UInt64)
  | float (x : Float)
  | bool (b : Bool)
  | str (s : String)
  deriving DecidableEq

/-- The four kinds of values. -/
inductive Value.Kind where
  | int
  | float
  | bool
  | str
  deriving DecidableEq, Repr

/-- The name of the kind. -/
def Value.Kind.name : Value.Kind → String
  | int => "int"
  | float => "double"
  | bool => "bool"
  | str => "str"

/-- Why a value cannot be changed. -/
inductive MutationError where
  | notNumeric (kind : Value.Kind)
  | overflow
  deriving DecidableEq, Repr

/-- The message for the user. -/
def MutationError.message : MutationError → String
  | .notNumeric kind => kind.name ++ " values are not numeric"
  | .overflow => "integer overflow"

namespace Literal

/-- The text between a quote at the start and another at the end, or the text itself. -/
def stripQuotes (cs : List Char) : List Char :=
  match cs with
  | '"' :: rest =>
    match rest.reverse with
    | '"' :: inner => inner.reverse
    | _ => cs
  | _ => cs

/-- Writes a quote for each backslash followed by a quote. -/
def unescape : List Char → List Char
  | [] => []
  | '\\' :: '"' :: cs => '"' :: unescape cs
  | c :: cs => c :: unescape cs

/-- The text that a string literal stands for. -/
def unquote (s : String) : String :=
  String.ofList (unescape (stripQuotes s.toList))

/-- Reads a whole number: digits, with or without one `+` in front. -/
def readNat? (cs : List Char) : Option Nat :=
  let ds := match cs with
    | '+' :: ds => ds
    | ds => ds
  if ds.isEmpty || !ds.all Char.isDigit then none else some (natOfDigits ds)

/-- Reads a whole number of 64 bits. -/
def readUInt64? (cs : List Char) : Option UInt64 :=
  match readNat? cs with
  | some n => if n < UInt64.size then some (UInt64.ofNat n) else none
  | none => none

end Literal

namespace Value

/-- The numeric value that a double stands for: a whole number where it is one that is not
negative and not above 2^64, and the double itself otherwise.  The largest whole number also
stands for 2^64. -/
def ofFloat (x : Float) : Value :=
  match Binary64.toNat? x with
  | some n => if n ≤ UInt64.size then .int (UInt64.ofNat (min n (UInt64.size - 1))) else .float x
  | none => .float x

/-- Reads the text of a literal after its quotes are gone. -/
def ofText (s : String) : Value :=
  match Literal.readUInt64? s.toList with
  | some n => .int n
  | none =>
    match (if s.toList.any Char.isDigit then Double.read? s.toList else none) with
    | some x => ofFloat x
    | none =>
      if s = "true" then .bool true
      else if s = "false" then .bool false
      else .str s

/-- Reads a literal. -/
def parse (s : String) : Value :=
  ofText (Literal.unquote s)

/-- The kind of the value. -/
def kind : Value → Kind
  | int _ => .int
  | float _ => .float
  | bool _ => .bool
  | str _ => .str

/-- Is the value a number? -/
def isNumeric : Value → Bool
  | int _ | float _ => true
  | _ => false

/-- The text of the value. -/
def text : Value → String
  | int n => toString n.toNat
  | float x => Double.text x
  | bool true => "true"
  | bool false => "false"
  | str s => s

/-- Are the two values the same?  Values of different kinds never are, and doubles compare as
numbers: the two zeros are the same, and NaN is not the same as itself. -/
def same : Value → Value → Bool
  | int m, int n => m == n
  | float x, float y => x == y
  | bool a, bool b => a == b
  | str s, str t => s == t
  | _, _ => false

/-- One more.  The largest whole number has no successor. -/
def increment : Value → Except MutationError Value
  | int n => if n.toNat + 1 < UInt64.size then .ok (int (n + 1)) else .error .overflow
  | float x => .ok (float (x + 1.0))
  | v => .error (.notNumeric v.kind)

/-- One less.  Whole numbers stop at zero. -/
def decrement : Value → Except MutationError Value
  | int n => .ok (int (if n = 0 then 0 else n - 1))
  | float x => .ok (float (x - 1.0))
  | v => .error (.notNumeric v.kind)

/-- Zero of the same kind. -/
def clear : Value → Except MutationError Value
  | int _ => .ok (int 0)
  | float _ => .ok (float 0.0)
  | v => .error (.notNumeric v.kind)

end Value

end BareBones
