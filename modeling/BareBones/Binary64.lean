/-
Doubles as exact numbers.

Every finite double is a whole multiple of the smallest positive one, 2^-1074.  Counted in that
unit its size is a natural number, its `magnitude`, and nothing is lost.  In the other direction
`nearest` rounds a quotient of naturals, again in that unit, to the bits of the nearest double:
half way between two of them it takes the one with the even fraction, and past the largest
finite one it gives infinity.
-/

namespace BareBones.Binary64

/-- How many of the smallest positive doubles make one. -/
def unitsPerOne : Nat := Nat.pow 2 1074

/-- How many doubles lie from each power of two up to the next: 2^52. -/
def stepsPerBinade : Nat := 0x10000000000000

/-- The sign bit: 2^63. -/
def signBit : Nat := 0x8000000000000000

/-- The bits of infinity.  The bits below it are those of the finite doubles, in order. -/
def infinityBits : Nat := 0x7FF0000000000000

/-- The size of a finite double, from its bits without the sign, in units of 2^-1074. -/
def magnitude (bits : Nat) : Nat :=
  let exponent := bits / stepsPerBinade
  let fraction := bits % stepsPerBinade
  if exponent = 0 then fraction else (stepsPerBinade + fraction) * Nat.pow 2 (exponent - 1)

/-- The whole number nearest to `n / d`; half way between two, the even one. -/
def divNearest (n d : Nat) : Nat :=
  let q := n / d
  let r := n % d
  if 2 * r < d then q
  else if d < 2 * r then q + 1
  else if q % 2 = 0 then q
  else q + 1

/-- The bits of the double nearest to `n / d` units of 2^-1074.

The number is cut to 53 binary places by dropping `s` of them; since the bits of doubles follow
their size, the count of places dropped and what is left add up to the bits. -/
def nearest (n d : Nat) : Nat :=
  let s := (n / d).log2 - 52
  min (s * stepsPerBinade + divNearest n (d * Nat.pow 2 s)) infinityBits

/-- Is the sign bit set? -/
def isNegative (x : Float) : Bool :=
  signBit ≤ x.toBits.toNat

/-- The bits of a double without its sign. -/
def sizeBits (x : Float) : Nat :=
  x.toBits.toNat % signBit

/-- A double that is neither infinite nor NaN. -/
def isFinite (x : Float) : Bool :=
  sizeBits x < infinityBits

/-- The double with the given sign and, below the sign, the given bits. -/
def ofSizeBits (negative : Bool) (bits : Nat) : Float :=
  Float.ofBits (UInt64.ofNat (if negative then signBit + bits else bits))

/-- The whole number that a double without a negative value denotes, if it denotes one. -/
def toNat? (x : Float) : Option Nat :=
  let units := magnitude (sizeBits x)
  if isFinite x && (!isNegative x || units == 0) && units % unitsPerOne == 0 then
    some (units / unitsPerOne)
  else none

end BareBones.Binary64
