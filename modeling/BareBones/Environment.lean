/-
Environments: the variables and their values.

There are three ways to write a variable.  `declare` needs a new name, `assign` a name that is
there, and `bind` takes either.  A name is checked when it may be new, so a variable keeps a valid
name for as long as it lives.
-/
import BareBones.Error
import BareBones.NameMap

namespace BareBones

/-- The variables and their values. -/
abbrev Environment := NameMap Value

namespace Environment

/-- Gives a variable a value, whether it is there or not. -/
def bind (env : Environment) (name : String) (v : Value) : Except RuntimeError Environment :=
  match Name.checkVariable name with
  | .error e => .error (.invalidName e)
  | .ok () => .ok (env.insert name v)

/-- Makes a new variable. -/
def declare (env : Environment) (name : String) (v : Value) : Except RuntimeError Environment :=
  if env.contains name then .error (.alreadyDefined name) else bind env name v

/-- Gives a variable that is there a new value. -/
def assign (env : Environment) (name : String) (v : Value) : Except RuntimeError Environment :=
  if env.contains name then .ok (env.insert name v) else .error (.undeclared name)

/-- The variables with their kinds and values, in the order of their names. -/
def text (env : Environment) : String :=
  let shown := env.entries.map fun (name, v) => name ++ "=" ++ v.kind.name ++ ": " ++ v.text
  "\x7b" ++ ", ".intercalate shown ++ "\x7d"

end Environment

end BareBones
