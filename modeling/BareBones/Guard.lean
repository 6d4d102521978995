/-
Guards of loops and conditionals.

A guard compares two operands.  It holds when they are the same or, with the word `not` between
them, when they differ.  An operand that names a variable when the guard is resolved stands for
that variable from then on and is read anew at each check; any other operand is a literal.
-/
import BareBones.Environment

namespace BareBones

/-- Which way a guard compares. -/
inductive Polarity where
  | equals
  | differs
  deriving DecidableEq, Repr

/-- The way that the word between the operands asks for. -/
def Polarity.ofWord (word : String) : Polarity :=
  if word = Keyword.notMark.word then .differs else .equals

/-- One side of a guard. -/
inductive Operand where
  | named (name : String)
  | literal (v : Value)
  deriving DecidableEq

namespace Operand

/-- Fixes what a token stands for. -/
def resolve (token : String) (env : Environment) : Operand :=
  if env.contains token then .named token else .literal (Value.parse token)

/-- The value that the operand has at the moment. -/
def value? (o : Operand) (env : Environment) : Option Value :=
  match o with
  | named name => env.get? name
  | literal v => some v

end Operand

/-- Are two operands the same, where one without a value is the same as another without one? -/
def sameValue : Option Value → Option Value → Bool
  | none, none => true
  | some v, some w => v.same w
  | _, _ => false

/-- A guard whose operands are fixed. -/
structure Guard where
  subject : Operand
  target : Operand
  polarity : Polarity
  deriving DecidableEq

namespace Guard

/-- Resolves `subject word target`; further arguments do not matter. -/
def resolve (operation : String) (args : List String) (env : Environment) :
    Except RuntimeError Guard :=
  match args with
  | subject :: word :: target :: _ =>
    .ok ⟨Operand.resolve subject env, Operand.resolve target env, Polarity.ofWord word⟩
  | _ => .error (.missingArgument operation "<variable> <polarity> <value>")

/-- Does the guard hold at the moment? -/
def holds (g : Guard) (env : Environment) : Bool :=
  let same := sameValue (g.subject.value? env) (g.target.value? env)
  match g.polarity with
  | .equals => same
  | .differs => !same

end Guard

/-- A loop that is running. -/
structure LoopFrame where
  guard : Guard
  /-- The address of its `while`. -/
  start : Nat
  /-- The address of the `end` that closes it. -/
  stop : Nat
  deriving DecidableEq

/-- A loop is finished once its guard holds. -/
def LoopFrame.finished (f : LoopFrame) (env : Environment) : Bool :=
  f.guard.holds env

end BareBones
