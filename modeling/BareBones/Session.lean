/-
Sessions: a program and the variables it starts with.

Each run of a session starts anew.  An error that ends a run is reported before it is handed on.
-/
import BareBones.Machine.Run

namespace BareBones

/-- A program and the variables it starts with. -/
structure Session where
  program : Program
  globals : Environment := ∅

/-- Why a session cannot go on. -/
inductive SessionError where
  | parse (e : ParseError)
  | malformedAssignment (text : String)
  | global (name : String) (e : RuntimeError)
  | runtime (e : StatementError)
  deriving DecidableEq, Repr

/-- The message for the user. -/
def SessionError.message : SessionError → String
  | .parse e => e.message
  | .malformedAssignment text =>
    "invalid variable assignment '" ++ text ++ "', expected NAME=VALUE"
  | .global name e => "cannot define global '" ++ name ++ "': " ++ e.message
  | .runtime e => e.message

/-- Cuts `NAME=VALUE` at its last `=`, without the blanks around the two sides. -/
def parseAssignment (text : String) : Option (String × String) :=
  let back := text.toList.reverse
  match back.dropWhile (· != '=') with
  | [] => none
  | _ :: name =>
    let value := back.takeWhile (· != '=')
    some (String.ofList (Text.trim name.reverse), String.ofList (Text.trim value.reverse))

namespace Session

variable {σ : Type}

/-- A session with the program of a text and no variables. -/
def ofSource (source : String) : Except SessionError Session :=
  match Program.parse source with
  | .ok p => .ok { program := p }
  | .error e => .error (.parse e)

/-- Adds a variable. -/
def defineGlobal (s : Session) (name value : String) : Except SessionError Session :=
  match s.globals.bind name (Value.parse value) with
  | .ok globals => .ok { s with globals := globals }
  | .error e => .error (.global name e)

/-- Adds the variable of a text `NAME=VALUE`. -/
def defineAssignment (s : Session) (text : String) : Except SessionError Session :=
  match parseAssignment text with
  | none => .error (.malformedAssignment text)
  | some (name, value) => s.defineGlobal name value

/-- The machine that a run starts with. -/
def machine (s : Session) : Machine where
  program := s.program
  env := s.globals

/-- Runs the program from its start. -/
def run (h : Host σ) (fuel : Nat) (s : Session) (w : World σ) :
    Outcome StatementError Bool × World σ :=
  match s.machine.runUntilDone h fuel w with
  | (.ok ok, _, w) => (.ok ok, w)
  | (.failed e, _, w) => (.failed e, w.record (.diagnostic e))
  | (.outOfFuel, _, w) => (.outOfFuel, w)

end Session

end BareBones
