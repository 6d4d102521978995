/-
Writing values for the variables of an expression.

A token is cut into maximal runs of the characters that names are made of.  A run that names a
variable is replaced by the text of its value, unless the run is a word of arithmetic; all else
stays.  Text that was written is not looked at again.
-/
import BareBones.Environment

namespace BareBones

/-- What is written for a run of name characters. -/
def substituteRun (env : Environment) (run : List Char) : List Char :=
  let name := String.ofList run
  match env.get? name with
  | some v => if Arithmetic.isReserved name then run else v.text.toList
  | none => run

/-- Replaces the runs of a text.  `run` holds the characters of the run being read, newest
first. -/
def substituteFrom (env : Environment) (run : List Char) : List Char → List Char
  | [] => if run.isEmpty then [] else substituteRun env run.reverse
  | c :: cs =>
    if Name.isNameChar c then substituteFrom env (c :: run) cs
    else
      (if run.isEmpty then [] else substituteRun env run.reverse) ++ c :: substituteFrom env [] cs

/-- Replaces every variable in a token by its value. -/
def substitute (env : Environment) (token : String) : String :=
  String.ofList (substituteFrom env [] token.toList)

end BareBones
