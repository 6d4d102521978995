/-
Doubles as text.

`Double.text` is the form in which programs see a double: the shortest decimal that reads back,
without a power of ten.  `Double.read?` reads a text as the nearest double.
-/
import BareBones.Decimal.Shortest

namespace BareBones.Double

/-- The text of a double.  Whole numbers have no point, and of two equally near decimals the
larger is written. -/
def text (x : Float) : String :=
  if x.isNaN then "NaN"
  else
    let size :=
      if !Binary64.isFinite x then "inf"
      else if Binary64.sizeBits x = 0 then "0"
      else String.ofList (Decimal.shortest .up (Binary64.sizeBits x)).positional
    if Binary64.isNegative x then "-" ++ size else size

/-- The doubles that have a name, in small letters. -/
def named? : String → Option Float
  | "inf" => some (Binary64.ofSizeBits false Binary64.infinityBits)
  | "infinity" => some (Binary64.ofSizeBits false Binary64.infinityBits)
  | "nan" => some (0.0 / 0.0)
  | _ => none

/-- Reads a double: a sign or none, then a decimal or a name in letters of either case. -/
def read? (cs : List Char) : Option Float :=
  let (negative, rest) := match cs with
    | '-' :: rest => (true, rest)
    | '+' :: rest => (false, rest)
    | rest => (false, rest)
  match named? (String.ofList (rest.map Char.toLower)) with
  | some x => some (if negative then -x else x)
  | none => (Decimal.parse? rest).map (Decimal.toFloat negative)

end BareBones.Double
