/-
Evaluation of expressions.

The value of an expression is made from the values of its parts, from left to right, and the
first part without a value settles the error.  The arguments of a call come before the question
whether the function exists and takes that many.
-/
import BareBones.Arithmetic.Function
import BareBones.Arithmetic.Parser
import BareBones.Decimal.Basic

namespace BareBones.Arithmetic

/-- Why an expression has no value. -/
inductive Error where
  /-- The text is no expression from the position on. -/
  | malformed (position : Position)
  | unknownFunction (name : String)
  | unknownConstant (name : String)
  | arity (name : String) (expected found : Nat)
  | invalidNumber (text : String)
  deriving DecidableEq, Repr

/-- The message for the user. -/
def Error.message : Error → String
  | .malformed p => "syntax error: " ++ toString p.line ++ ":" ++ toString p.column
  | .unknownFunction name => "unknown function '" ++ name ++ "'"
  | .unknownConstant name => "unknown constant '" ++ name ++ "'"
  | .arity name expected found =>
    name ++ " expects " ++ toString expected ++ " argument(s), got " ++ toString found
  | .invalidNumber text => "invalid number '" ++ text ++ "'"

/-- The value of a number as it is written. -/
def numberValue (text : String) : Except Error Float :=
  match Decimal.parse? text.toList with
  | some d => .ok (d.toFloat false)
  | none => .error (.invalidNumber text)

/-- The value of a name. -/
def nameValue (name : String) : Except Error Float :=
  match Constant.ofName? name with
  | some c => .ok c.value
  | none => .error (.unknownConstant name)

variable {γ : Type} [RandomSource γ]

/-- The value of a call. -/
def callValue (name : String) (args : List Float) (g : γ) :
    Except Error Float × γ :=
  match Builtin.ofName? name with
  | none => (.error (.unknownFunction name), g)
  | some b =>
    match b.call? args g with
    | some (x, g) => (.ok x, g)
    | none => (.error (.arity name b.arity args.length), g)

mutual

/-- The value of an expression, and the source after it. -/
def Expr.eval : Expr → γ → Except Error Float × γ
  | .number text, g => (numberValue text, g)
  | .name name, g => (nameValue name, g)
  | .call f args, g =>
    match evalAll args g with
    | (.error e, g) => (.error e, g)
    | (.ok xs, g) => callValue f xs g
  | .negate e, g =>
    match e.eval g with
    | (.error err, g) => (.error err, g)
    | (.ok x, g) => (.ok (-x), g)
  | .keep e, g => e.eval g
  | .binary op a b, g =>
    match a.eval g with
    | (.error e, g) => (.error e, g)
    | (.ok x, g) =>
      match b.eval g with
      | (.error e, g) => (.error e, g)
      | (.ok y, g) => (.ok (op.apply x y), g)

/-- The values of expressions, in order. -/
def evalAll : List Expr → γ → Except Error (List Float) × γ
  | [], g => (.ok [], g)
  | e :: es, g =>
    match e.eval g with
    | (.error err, g) => (.error err, g)
    | (.ok x, g) =>
      match evalAll es g with
      | (.error err, g) => (.error err, g)
      | (.ok xs, g) => (.ok (x :: xs), g)

end

/-- The value of the expression that a text writes. -/
def evaluate (text : String) (g : γ) : Except Error Float × γ :=
  match parse text.toList with
  | .error position => (.error (.malformed position), g)
  | .ok e => e.eval g

end BareBones.Arithmetic
