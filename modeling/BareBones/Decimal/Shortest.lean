/-
The shortest decimal that reads back.

The multiples of a power of ten form a grid, and coarser grids need fewer digits.  Of all the
grids that hold a decimal which reads back as the given double, the coarsest is taken.  Only the
two grid points around the double need a look: if any point of the grid reads back, one of them
does.  If both do, the nearer is the answer, and a rule of the format settles an exact tie.

Seventeen digits always suffice.  The search still ends in the exact expansion of the double, so
that what it finds reads back whatever is known about the number of digits.
-/
import BareBones.Decimal.Basic

namespace BareBones.Decimal

/-- Which of two equally near decimals is taken. -/
inductive Tie where
  | up
  | even
  deriving DecidableEq, Repr

/-- The double of the given magnitude as a quotient, in units of `10 ^ e`. -/
def onGrid (units : Nat) (e : Int) : Nat × Nat :=
  if 0 ≤ e then (units, Binary64.unitsPerOne * Nat.pow 10 e.toNat)
  else (units * Nat.pow 10 (-e).toNat, Binary64.unitsPerOne)

/-- The multiple of `10 ^ e` to write for the double with these bits, if one reads back. -/
def gridPoint? (tie : Tie) (bits : Nat) (e : Int) : Option Nat :=
  let (n, d) := onGrid (Binary64.magnitude bits) e
  let low := n / d
  let r := n % d
  match sizeBits ⟨low, e⟩ == bits, sizeBits ⟨low + 1, e⟩ == bits with
  | false, false => none
  | true, false => some low
  | false, true => some (low + 1)
  | true, true =>
    if 2 * r < d then some low
    else if d < 2 * r then some (low + 1)
    else match tie with
      | .up => some (low + 1)
      | .even => some (if low % 2 = 0 then low else low + 1)

/-- The double of the given magnitude, digit for digit. -/
def exact (units : Nat) : Decimal :=
  ⟨units * Nat.pow 5 1074, -1074⟩

/-- Looks for a grid point that reads back, on ever finer grids. -/
def search (tie : Tie) (bits : Nat) : Nat → Int → Decimal
  | 0, _ => exact (Binary64.magnitude bits)
  | steps + 1, e =>
    match gridPoint? tie bits e with
    | some digits => ⟨digits, e⟩
    | none => search tie bits steps (e - 1)

/-- The shortest decimal that reads back as the double with these bits, and of those the nearest.

The search starts on a grid at least as coarse as the double is large: 30103 / 100000 is just
above the decimal logarithm of two. -/
def shortest (tie : Tie) (bits : Nat) : Decimal :=
  let top : Int := (Binary64.magnitude bits).log2 - 1073
  search tie bits 24 (top * 30103 / 100000 + 1)

/-- The number written out with a point where one is needed, and no power of ten. -/
def positional (d : Decimal) : List Char :=
  let ds := digitsOfNat d.digits
  if 0 ≤ d.exponent then ds ++ List.replicate d.exponent.toNat '0'
  else
    let places := (-d.exponent).toNat
    if places < ds.length then
      ds.take (ds.length - places) ++ '.' :: ds.drop (ds.length - places)
    else '0' :: '.' :: (List.replicate (places - ds.length) '0' ++ ds)

end BareBones.Decimal
