/-
What JSON numbers are worth.

A number written with digits only is a natural number.  As a double, a number is the product or
quotient of its digits and a power of ten, both doubles; of the digits only as many count as fit
in 64 bits.  That is not always the nearest double, but it is the same one for everybody who
follows the rule.  A number too large for a double has no worth.
-/
import BareBones.Decimal.Basic
import BareBones.Json.Basic

namespace BareBones.Json

/-- The natural number below 2^64 that the text writes. -/
def natural? (text : String) : Option Nat :=
  let cs := text.toList
  if cs.isEmpty || !cs.all Char.isDigit then none
  else
    let n := natOfDigits cs
    if n < UInt64.size then some n else none

/-- Digits that fit in 64 bits, and the power of ten that goes with them. -/
structure Parts where
  digits : Nat
  exponent : Int
  /-- A digit did not fit, so no more are taken. -/
  full : Bool
  deriving DecidableEq, Repr

namespace Parts

/-- Takes a digit of the whole part.  One that does not fit still makes the number ten times
larger. -/
def whole (p : Parts) (c : Char) : Parts :=
  let digits := 10 * p.digits + (c.toNat - '0'.toNat)
  if p.full || UInt64.size ≤ digits then { p with exponent := p.exponent + 1, full := true }
  else { p with digits := digits }

/-- Takes a digit behind the point.  One that does not fit is dropped. -/
def part (p : Parts) (c : Char) : Parts :=
  let digits := 10 * p.digits + (c.toNat - '0'.toNat)
  if p.full || UInt64.size ≤ digits then { p with full := true }
  else { p with digits := digits, exponent := p.exponent - 1 }

end Parts

/-- Multiplies a double by a power of ten, or divides it by one.  Powers past 10^308 are no
doubles: dividing by them goes in steps, and multiplying by them has no result unless the double
is zero. -/
def scale? : Nat → Float → Int → Option Float
  | 0, x, _ => some x
  | steps + 1, x, e =>
    if e.natAbs ≤ 308 then
      let power := (Decimal.mk 1 e.natAbs).toFloat false
      if 0 ≤ e then
        let y := x * power
        if y.isInf then none else some y
      else some (x / power)
    else if x == 0.0 then some x
    else if 0 < e then none
    else scale? steps (x / (Decimal.mk 1 308).toFloat false) (e + 308)

/-- The double that a number is worth. -/
def double? (text : String) : Option Float :=
  let (negative, cs) := match text.toList with
    | '-' :: cs => (true, cs)
    | cs => (false, cs)
  let (ds, rest) := cs.span Char.isDigit
  let p := ds.foldl Parts.whole ⟨0, 0, false⟩
  let (p, rest) := match rest with
    | '.' :: rest =>
      let (ds, rest) := rest.span Char.isDigit
      (ds.foldl Parts.part { p with full := false }, rest)
    | rest => (p, rest)
  match Decimal.parseExponent? rest with
  | none => none
  | some e =>
    match scale? 8 (UInt64.ofNat p.digits).toFloat (p.exponent + e) with
    | none => none
    | some x => some (if negative then -x else x)

end BareBones.Json
