/-
The words of arithmetic.

Expressions know a few constants and functions by name.  These names, and the signs of the
operators, cannot name variables or functions of a program.
-/

namespace BareBones.Arithmetic

/-- The named constants. -/
inductive Constant where
  | e
  | euler
  | ln2
  | ln10
  | log2e
  | log10e
  | phi
  | pi
  deriving DecidableEq, Repr

/-- The functions of one number. -/
inductive Unary where
  | abs
  | acos
  | asin
  | atan
  | cbrt
  | ceil
  | cos
  | cosh
  | exp
  | expm1
  | floor
  | log
  | log10
  | log1p
  | round
  | roundHalfEven
  | signum
  | sin
  | sinh
  | sqrt
  | tan
  | tanh
  | toDegrees
  | toRadians
  | ulp
  deriving DecidableEq, Repr

/-- All functions that expressions can call. -/
inductive Builtin where
  | random
  | max
  | min
  | unary (f : Unary)
  deriving DecidableEq, Repr

/-- How the constant is written. -/
def Constant.name : Constant → String
  | e => "E"
  | euler => "Euler"
  | ln2 => "LN2"
  | ln10 => "LN10"
  | log2e => "LOG2E"
  | log10e => "LOG10E"
  | phi => "PHI"
  | pi => "PI"

/-- All constants. -/
def Constant.all : List Constant :=
  [e, euler, ln2, ln10, log2e, log10e, phi, pi]

/-- How the function is written. -/
def Unary.name : Unary → String
  | abs => "abs"
  | acos => "acos"
  | asin => "asin"
  | atan => "atan"
  | cbrt => "cbrt"
  | ceil => "ceil"
  | cos => "cos"
  | cosh => "cosh"
  | exp => "exp"
  | expm1 => "expm1"
  | floor => "floor"
  | log => "log"
  | log10 => "log10"
  | log1p => "log1p"
  | round => "round"
  | roundHalfEven => "roundHE"
  | signum => "signum"
  | sin => "sin"
  | sinh => "sinh"
  | sqrt => "sqrt"
  | tan => "tan"
  | tanh => "tanh"
  | toDegrees => "toDegrees"
  | toRadians => "toRadians"
  | ulp => "ulp"

/-- All functions of one number. -/
def Unary.all : List Unary :=
  [abs, acos, asin, atan, cbrt, ceil, cos, cosh, exp, expm1, floor, log, log10, log1p, round,
    roundHalfEven, signum, sin, sinh, sqrt, tan, tanh, toDegrees, toRadians, ulp]

/-- How the function is written. -/
def Builtin.name : Builtin → String
  | random => "random"
  | max => "max"
  | min => "min"
  | unary f => f.name

/-- All functions. -/
def Builtin.all : List Builtin :=
  random :: max :: min :: Unary.all.map unary

/-- How many numbers the function takes. -/
def Builtin.arity : Builtin → Nat
  | random => 0
  | max | min => 2
  | unary _ => 1

/-- The constant of that name. -/
def Constant.ofName? (name : String) : Option Constant :=
  all.find? (·.name == name)

/-- The function of that name. -/
def Builtin.ofName? (name : String) : Option Builtin :=
  all.find? (·.name == name)

/-- The operator signs that no name may be. -/
def operatorSigns : List String :=
  ["+", "-", "*", "/", "^", "%", "×", "·", "±"]

/-- Is the word an operator sign, a constant or a function? -/
def isReserved (word : String) : Bool :=
  operatorSigns.contains word || (Constant.ofName? word).isSome || (Builtin.ofName? word).isSome

end BareBones.Arithmetic
