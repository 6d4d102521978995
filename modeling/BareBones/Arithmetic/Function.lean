/-
What the constants, operators and functions of expressions stand for.

All of them work on doubles.  A function is called with as many numbers as it takes; `random`
takes none and draws from a source that the evaluation hands on.  What that source is, is left open.
-/
import BareBones.Arithmetic.Expr
import BareBones.Arithmetic.NearZero
import BareBones.Arithmetic.Vocabulary
import BareBones.Binary64

namespace BareBones.Arithmetic

/-- The double that the constant stands for. -/
def Constant.value : Constant → Float
  | e => 2.718281828459045
  | euler => 0.5772156649015329
  | ln2 => 0.6931471805599453
  | ln10 => 2.302585092994046
  | log2e => 1.4426950408889634
  | log10e => 0.4342944819032518
  | phi => 1.618033988749895
  | pi => 3.141592653589793

/-- What is left of `x` after whole multiples of `y`, with the sign of `x`.  It is exact. -/
def remainder (x y : Float) : Float :=
  let divisor := Binary64.magnitude (Binary64.sizeBits y)
  if x.isNaN || y.isNaN || !Binary64.isFinite x then 0.0 / 0.0
  else if !Binary64.isFinite y then x
  else if divisor = 0 then 0.0 / 0.0
  else
    let left := Binary64.magnitude (Binary64.sizeBits x) % divisor
    Binary64.ofSizeBits (Binary64.isNegative x) (Binary64.nearest left 1)

/-- What the operator makes of two numbers. -/
def Operator.apply : Operator → Float → Float → Float
  | add, x, y => x + y
  | subtract, x, y => x - y
  | multiply, x, y => x * y
  | divide, x, y => x / y
  | modulo, x, y => remainder x y
  | power, x, y => x.pow y

/-- The whole number next to `x` on the side of zero. -/
def truncate (x : Float) : Float :=
  if x < 0.0 then x.ceil else x.floor

/-- The nearest whole number; half way between two, the larger. -/
def roundHalfUp (x : Float) : Float :=
  (x + 0.5).floor

/-- The nearest whole number; half way between two, the even one. -/
def roundHalfEven (x : Float) : Float :=
  if (x - truncate x).abs == 0.5 then 2.0 * (x / 2.0).round else x.round

/-- One with the sign of `x`; the zeros and NaN are their own sign. -/
def signum (x : Float) : Float :=
  if x == 0.0 || x.isNaN then x
  else if Binary64.isNegative x then -1.0
  else 1.0

/-- How far the next larger double is from the size of `x`. -/
def ulp (x : Float) : Float :=
  let size := x.abs
  if Binary64.isFinite size then Float.ofBits (size.toBits + 1) - size else size

/-- Newton's steps down to the whole part of a cube root, from a number that is not below it. -/
def cubeRootFrom (n : Nat) : Nat → Nat → Nat
  | 0, r => r
  | steps + 1, r =>
    let next := (2 * r + n / (r * r)) / 3
    if next < r then cubeRootFrom n steps next else r

/-- The whole part of a cube root. -/
def cubeRoot (n : Nat) : Nat :=
  cubeRootFrom n (n.log2 + 2) (Nat.pow 2 (n.log2 / 3 + 1))

/-- The double nearest to a cube root.

The magnitude is widened until its root is a magnitude again: 1074 is three times 358.  The root
then has hundreds of binary places to spare, and a half for the part that is cut off keeps it off
the middle between two doubles. -/
def nearestCubeRoot (x : Float) : Float :=
  if x.isNaN || !Binary64.isFinite x || x == 0.0 then x
  else
    let wide := Binary64.magnitude (Binary64.sizeBits x) * Nat.pow 2 (3 * 716)
    let root := cubeRoot wide
    let half := if root * root * root = wide then 0 else 1
    Binary64.ofSizeBits (Binary64.isNegative x) (Binary64.nearest (2 * root + half) 2)

/-- What the function makes of a number. -/
def Unary.apply : Unary → Float → Float
  | abs, x => x.abs
  | acos, x => x.acos
  | asin, x => x.asin
  | atan, x => x.atan
  | cbrt, x => nearestCubeRoot x
  | ceil, x => x.ceil
  | cos, x => x.cos
  | cosh, x => x.cosh
  | exp, x => x.exp
  | expm1, x => Arithmetic.expm1 x
  | floor, x => x.floor
  | log, x => x.log
  | log10, x => x.log10
  | log1p, x => Arithmetic.log1p x
  | round, x => roundHalfUp x
  | roundHalfEven, x => Arithmetic.roundHalfEven x
  | signum, x => Arithmetic.signum x
  | sin, x => x.sin
  | sinh, x => x.sinh
  | sqrt, x => x.sqrt
  | tan, x => x.tan
  | tanh, x => x.tanh
  | toDegrees, x => x * (180.0 / Constant.pi.value)
  | toRadians, x => x * (Constant.pi.value / 180.0)
  | ulp, x => Arithmetic.ulp x

/-- The larger of two numbers.  If one is NaN, it is the other; of two zeros it is the second. -/
def larger (x y : Float) : Float :=
  if x.isNaN || x ≤ y then y else x

/-- The smaller of two numbers.  If one is NaN, it is the other; of two zeros it is the second. -/
def smaller (x y : Float) : Float :=
  if x.isNaN || y ≤ x then y else x

/-- A source of random numbers. -/
class RandomSource (γ : Type) where
  /-- The next number, at least zero and below one, and the source behind it. -/
  draw : γ → Float × γ

variable {γ : Type} [RandomSource γ]

/-- Calls the function.  There is no result if the number of arguments is wrong. -/
def Builtin.call? : Builtin → List Float → γ → Option (Float × γ)
  | random, [], g => some (RandomSource.draw g)
  | max, [x, y], g => some (larger x y, g)
  | min, [x, y], g => some (smaller x y, g)
  | unary f, [x], g => some (f.apply x, g)
  | _, _, _ => none

/-- A call has a result exactly if it has as many arguments as the function takes. -/
theorem Builtin.isSome_call? (b : Builtin) (args : List Float) (g : γ) :
    (b.call? args g).isSome = (args.length == b.arity) := by
  rcases b with _ | _ | _ | f <;> rcases args with _ | ⟨x, _ | ⟨y, _ | ⟨z, rest⟩⟩⟩ <;>
    simp [call?, arity]

end BareBones.Arithmetic
