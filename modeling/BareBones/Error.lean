/-
What can go wrong while a program runs.

A `RuntimeError` is a cause.  Where it was raised is added once, by the statement that raised it,
and makes it a `StatementError`; from there on it is handed up unchanged.  Only a missing variable
lets the program go on.
-/
import BareBones.Arithmetic.Eval
import BareBones.Name
import BareBones.Value

namespace BareBones

/-- Why a statement fails. -/
inductive RuntimeError where
  | unknownOperation (operation : String)
  | missingArgument (operation expected : String)
  | arityMismatch (name : String) (expected found : Nat)
  | alreadyDefined (name : String)
  | undeclared (name : String)
  | missing (name : String)
  | invalidName (cause : NameError)
  | mutation (name operation : String) (cause : MutationError)
  | invalidExpression (expression : String) (cause : Arithmetic.Error)
  | unresolvedExpression (text : String)
  | unmatchedBlock (operation : String)
  | orphanBranch (operation : String)
  | returnOutsideFunction
  | nestedFunction
  | conditionalInFunction
  | noReturnValue (name : String)
  | callDepthExceeded (limit : Nat)
  deriving DecidableEq, Repr

/-- The message for the user. -/
def RuntimeError.message : RuntimeError → String
  | .unknownOperation operation => "no such operation '" ++ operation ++ "'"
  | .missingArgument operation expected => "'" ++ operation ++ "' expects " ++ expected
  | .arityMismatch name expected found =>
    "function " ++ name ++ " takes " ++ toString expected ++ " argument(s), " ++ toString found ++
      " given"
  | .alreadyDefined name => "trying to initialise an existing variable " ++ name
  | .undeclared name => "trying to access an inexisting variable " ++ name
  | .missing name => "variable not found: " ++ name
  | .invalidName cause => cause.message
  | .mutation name operation cause =>
    "cannot " ++ operation ++ " " ++ name ++ ": " ++ cause.message
  | .invalidExpression expression cause =>
    "invalid math expression '" ++ expression ++ "': " ++ cause.message
  | .unresolvedExpression text =>
    "'" ++ text ++ "' is not a literal, variable, function call or eval expression"
  | .unmatchedBlock operation => "'" ++ operation ++ "' block has no matching end"
  | .orphanBranch operation => "'" ++ operation ++ "' without a preceding if block"
  | .returnOutsideFunction => "return outside of a function"
  | .nestedFunction => "functions can only be defined at top level"
  | .conditionalInFunction => "conditionals are not allowed inside function bodies"
  | .noReturnValue name => "function " ++ name ++ " did not return a value"
  | .callDepthExceeded limit => "maximum call depth of " ++ toString limit ++ " exceeded"

/-- Does the program go on after the error? -/
def RuntimeError.isRecoverable : RuntimeError → Bool
  | .missing _ => true
  | _ => false

/-- What a machine runs: the program itself, or the body of a function.  The depth counts the
calls from the program down to this one. -/
inductive Scope where
  | main
  | function (name : String) (depth : Nat)
  deriving DecidableEq, Repr

namespace Scope

/-- How many calls lie between the program and what runs. -/
def depth : Scope → Nat
  | main => 0
  | function _ depth => depth

/-- Is it the program itself? -/
def isMain : Scope → Bool
  | main => true
  | function _ _ => false

/-- The scope in words. -/
def text : Scope → String
  | main => "main"
  | function name depth => "function " ++ name ++ " (depth " ++ toString depth ++ ")"

end Scope

/-- An error and the statement that raised it. -/
structure StatementError where
  address : Nat
  line : Nat
  scope : Scope
  text : String
  error : RuntimeError
  deriving DecidableEq, Repr

/-- The message for the user. -/
def StatementError.message (e : StatementError) : String :=
  "Error: " ++ e.error.message ++ "\n  at line " ++ toString e.line ++ ", address " ++
    toString e.address ++ " in " ++ e.scope.text ++ ": " ++ e.text

/-- How a statement fails: by an error of its own, or by one that a statement inside it raised
and that already has its place. -/
inductive Failure where
  | raised (error : RuntimeError)
  | nested (error : StatementError)
  deriving DecidableEq, Repr

namespace Failure

/-- The message for the user. -/
def message : Failure → String
  | raised e => e.message
  | nested e => e.message

/-- Does the program go on after the failure? -/
def isRecoverable : Failure → Bool
  | raised e => e.isRecoverable
  | nested _ => false

end Failure

end BareBones
