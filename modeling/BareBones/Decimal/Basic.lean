/-
Decimal numbers and the doubles nearest to them.

A decimal is a whole number of some power of ten.  `Decimal.sizeBits` rounds it to the nearest
double, and `Decimal.parse?` reads one from a text: digits with an optional point among or
around them, and an optional power of ten behind `e` or `E`.
-/
import BareBones.Binary64

namespace BareBones

/-- The number `digits * 10 ^ exponent`. -/
structure Decimal where
  digits : Nat
  exponent : Int
  deriving DecidableEq, Repr

/-- The number that a text of digits writes in base ten. -/
def natOfDigits (cs : List Char) : Nat :=
  cs.foldl (fun n c => 10 * n + (c.toNat - '0'.toNat)) 0

/-- The digits of a number in base ten. -/
def digitsOfNat (n : Nat) : List Char :=
  Nat.toDigits 10 n

namespace Decimal

/-- The bits of the double nearest to the number.

A number of at least 10^311 is past every double and one below 10^-330 is under half the
smallest, so neither needs its power of ten worked out. -/
def sizeBits (d : Decimal) : Nat :=
  let top := (digitsOfNat d.digits).length + d.exponent
  if d.digits = 0 || top < -330 then 0
  else if 311 < top then Binary64.infinityBits
  else if 0 ≤ d.exponent then
    Binary64.nearest (d.digits * Nat.pow 10 d.exponent.toNat * Binary64.unitsPerOne) 1
  else Binary64.nearest (d.digits * Binary64.unitsPerOne) (Nat.pow 10 (-d.exponent).toNat)

/-- The double nearest to the number, with the given sign. -/
def toFloat (negative : Bool) (d : Decimal) : Float :=
  Binary64.ofSizeBits negative d.sizeBits

/-- Reads what may follow the digits: nothing, or `e` or `E`, a sign or none, and digits. -/
def parseExponent? : List Char → Option Int
  | [] => some 0
  | e :: cs =>
    if e != 'e' && e != 'E' then none
    else
      let (negative, ds) := match cs with
        | '-' :: ds => (true, ds)
        | '+' :: ds => (false, ds)
        | ds => (false, ds)
      if ds.isEmpty || !ds.all Char.isDigit then none
      else if negative then some (-(natOfDigits ds : Int))
      else some (natOfDigits ds : Int)

/-- Reads a decimal without a sign.  At least one digit stands before the power of ten. -/
def parse? (cs : List Char) : Option Decimal :=
  let (whole, rest) := cs.span Char.isDigit
  let (part, rest) := match rest with
    | '.' :: rest => rest.span Char.isDigit
    | rest => ([], rest)
  if whole.isEmpty && part.isEmpty then none
  else match parseExponent? rest with
    | none => none
    | some e => some ⟨natOfDigits (whole ++ part), e - part.length⟩

end Decimal

end BareBones
