/-
Values of tokens.

The tokens to the right of `to` in a `set`, and those of a `return`, stand for a value.  The first
token settles how the rest is read: `eval` and a call take all of them, anything else must stand
alone.  A variable goes before a function of the same name.
-/
import BareBones.Machine.Basic
import BareBones.Substitute

namespace BareBones

variable {σ β : Type}

namespace Machine

/-- The value of the expression that tokens make once variables are replaced. -/
def evaluate (h : Host σ) (env : Environment) (tokens : List String) (w : World σ) :
    Except RuntimeError Value × World σ :=
  match tokens with
  | [] => (.error (.missingArgument Keyword.eval.word "an arithmetic expression"), w)
  | tokens =>
    let expression := " ".intercalate (tokens.map (substitute env))
    match h.evaluate expression w.state with
    | (.ok x, s) => (.ok (.ofFloat x), { w with state := s })
    | (.error e, s) => (.error (.invalidExpression expression e), { w with state := s })

/-- What a call hands back: the value of the last `return`, and whether all statements of the
body succeeded. -/
structure CallResult where
  value : Option Value
  ok : Bool
  deriving DecidableEq

/-- The value of an argument of a call: that of the variable it names, or of the literal it is. -/
def argument (env : Environment) (token : String) : Value :=
  (env.get? token).getD (Value.parse token)

/-- Binds parameters to the arguments of a call, in order. -/
def bindParams (caller : Environment) :
    List (String × String) → Environment → Except RuntimeError Environment
  | [], env => .ok env
  | (param, arg) :: rest, env =>
    match env.bind param (argument caller arg) with
    | .error e => .error e
    | .ok env => bindParams caller rest env

/-- The value of a token that stands alone: a truth value, a string, a variable or a number. -/
def resolveToken (env : Environment) (token : String) : Option Value :=
  if token = "true" || token = "false" || token.toList.head? = some '"' then
    some (Value.parse token)
  else
    match env.get? token with
    | some v => some v
    | none =>
      let v := Value.parse token
      if v.isNumeric then some v else none

/-- The parts that a `print` writes: strings without their quotes and the values of variables.
`eval` takes all tokens behind it. -/
def printParts (h : Host σ) (env : Environment) :
    List String → World σ → Except RuntimeError (List String) × World σ
  | [], w => (.ok [], w)
  | arg :: args, w =>
    if arg = Keyword.eval.word then
      match evaluate h env args w with
      | (.ok v, w) => (.ok [v.text], w)
      | (.error e, w) => (.error e, w)
    else
      let part := if arg.toList.head? = some '"' then some (Literal.unquote arg)
        else (env.get? arg).map Value.text
      match part with
      | none => (.error (.missing arg), w)
      | some part =>
        match printParts h env args w with
        | (.ok parts, w) => (.ok (part :: parts), w)
        | (.error e, w) => (.error e, w)

end Machine

namespace Context

open Machine

/-- The context for one call of a function.  It starts with the variables of the caller. -/
def forCall (c : Context β) (f : Function β) (env : Environment) : Context β where
  env := env
  functions := c.functions
  scope := .function f.name (c.scope.depth + 1)

/-- Calls a function.  Nothing of the caller changes. -/
def call (h : Host σ) (run : BodyRunner σ β) (c : Context β) (name : String) (args : List String)
    (w : World σ) : Outcome Failure CallResult × World σ :=
  match c.functions.get? name with
  | none => (.raise (.unknownOperation name), w)
  | some f =>
    if args.length ≠ f.arity then
      (.raise (.arityMismatch f.name f.arity args.length), w)
    else if h.settings.maxCallDepth ≤ c.scope.depth then
      (.raise (.callDepthExceeded h.settings.maxCallDepth), w)
    else
      match bindParams c.env (f.params.zip args) c.env with
      | .error e => (.raise e, w)
      | .ok env =>
        match run f.body (c.forCall f env) w with
        | (.ok ok, callee, w) => (.ok ⟨callee.returned, ok⟩, w)
        | (.failed e, _, w) => (.failed (.nested e), w)
        | (.outOfFuel, _, w) => (.outOfFuel, w)

/-- The value of tokens.  The flag is false if a call that gave the value reported a failure. -/
def resolve (h : Host σ) (run : BodyRunner σ β) (c : Context β) (tokens : List String)
    (w : World σ) : Outcome Failure (Value × Bool) × World σ :=
  match tokens with
  | [] => (.raise (.missingArgument Keyword.toMark.word "a value"), w)
  | first :: rest =>
    if first = Keyword.eval.word then
      match evaluate h c.env rest w with
      | (.ok v, w) => (.ok (v, true), w)
      | (.error e, w) => (.raise e, w)
    else if c.functions.contains first && !c.env.contains first then
      match call h run c first rest w with
      | (.ok ⟨some v, ok⟩, w) => (.ok (v, ok), w)
      | (.ok ⟨none, _⟩, w) => (.raise (.noReturnValue first), w)
      | (.failed e, w) => (.failed e, w)
      | (.outOfFuel, w) => (.outOfFuel, w)
    else
      match rest, resolveToken c.env first with
      | [], some v => (.ok (v, true), w)
      | _, _ => (.raise (.unresolvedExpression (" ".intercalate tokens)), w)

end Context

namespace Machine

/-- Calls a function, as a statement of the machine does. -/
def call (h : Host σ) (run : Runner σ) (m : Machine) (name : String) (args : List String)
    (w : World σ) : Outcome Failure CallResult × World σ :=
  m.toContext.call h run.body name args w

/-- The value of tokens to a statement of the machine. -/
def resolve (h : Host σ) (run : Runner σ) (m : Machine) (tokens : List String) (w : World σ) :
    Outcome Failure (Value × Bool) × World σ :=
  m.toContext.resolve h run.body tokens w

end Machine

end BareBones
