/-
Digits in any base up to 36.

The letters `a` to `z`, of either case, come after the digits `0` to `9`.  A number is written by
at least one digit.
-/

namespace BareBones.Text

/-- The value of a digit. -/
def digitValue? (c : Char) : Option Nat :=
  if '0' ≤ c ∧ c ≤ '9' then some (c.toNat - '0'.toNat)
  else if 'a' ≤ c ∧ c ≤ 'z' then some (c.toNat - 'a'.toNat + 10)
  else if 'A' ≤ c ∧ c ≤ 'Z' then some (c.toNat - 'A'.toNat + 10)
  else none

/-- The value of a digit of the base. -/
def digit? (base : Nat) (c : Char) : Option Nat :=
  (digitValue? c).filter (· < base)

/-- Is the character a digit of the base? -/
def isDigitIn (base : Nat) (c : Char) : Bool :=
  (digit? base c).isSome

/-- The number that digits of the base write. -/
def numberIn? (base : Nat) (cs : List Char) : Option Nat :=
  if cs.isEmpty then none
  else cs.foldl (fun n c => n.bind fun n => (digit? base c).map (base * n + ·)) (some 0)

/-- The character whose number stands in the first `size` hexadecimal digits, and what is behind
them. -/
def readCode? (size : Nat) (cs : List Char) : Option (Char × List Char) :=
  let ds := cs.take size
  if ds.length ≠ size then none
  else
    match numberIn? 16 ds with
    | some n => if n.isValidChar then some (Char.ofNat n, cs.drop size) else none
    | none => none

end BareBones.Text
