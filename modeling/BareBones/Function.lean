/-
Functions that a program defines.

A function is the part of the program between a `func` and the `end` that closes it, as a program
of its own.  It keeps the text of that part, which is taken when the function is defined.  What a
body is made of does not matter to the statements that call it, so it is left open here.
-/
import BareBones.Error
import BareBones.Program

namespace BareBones

/-- A function of the program. -/
structure Function (β : Type) where
  name : String
  params : List String
  body : β
  /-- The address of the first statement of the body in the program. -/
  start : Nat
  /-- The address of the `end` behind the body. -/
  stop : Nat
  /-- The text of the body. -/
  source : String

namespace Function

variable {β : Type}

/-- How many arguments a call has. -/
def arity (f : Function β) : Nat :=
  f.params.length

/-- The arguments without the `do` that may end them. -/
def dropDo (args : List String) : List String :=
  if args.getLast? = some Keyword.doMark.word then args.dropLast else args

/-- Checks the names of parameters, from left to right. -/
def checkParams : List String → Except NameError Unit
  | [] => .ok ()
  | p :: ps =>
    match Name.checkVariable p with
    | .error e => .error e
    | .ok () => checkParams ps

/-- The function that the statement at `address` is the head of, where `stop` closes the block and
the body with the text lies between. -/
def ofHead (s : Statement) (body : β) (source : String) (address stop : Nat) :
    Except RuntimeError (Function β) :=
  match dropDo s.arguments with
  | [] => .error (.missingArgument s.operation "<Name> <params...>")
  | name :: params =>
    match Name.checkFunction name with
    | .error e => .error (.invalidName e)
    | .ok () =>
      match checkParams params with
      | .error e => .error (.invalidName e)
      | .ok () => .ok ⟨name, params, body, address + 1, stop, source⟩

/-- The function that the statement at `address` of the program defines, where `stop` closes the
block. -/
def define (s : Statement) (p : Program) (address stop : Nat) :
    Except RuntimeError (Function Program) :=
  let body := p.slice (address + 1) stop
  ofHead s body body.sourceText address stop

end Function

end BareBones
