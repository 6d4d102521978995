/-
What each statement does.

The statements that only write variables work on an environment.  Those that print or call work on a
context, and so on all contexts, whatever the bodies of functions are made of.  The statements of
blocks move the machine or define a function.  All of them say what they leave behind, also where
they fail.  Every result is a flag: true if all that the statement ran succeeded.
-/
import BareBones.Machine.Chain
import BareBones.Machine.Resolve

namespace BareBones

variable {σ β : Type}

namespace Machine

/-- The variable that a statement is about. -/
def variableArgument (operation : String) : List String → Except RuntimeError String
  | [] => .error (.missingArgument operation "<variable>")
  | name :: _ => .ok name

/-- The two sides of `left to right`. -/
def assignmentArguments (operation expected : String) :
    List String → Except RuntimeError (String × String)
  | left :: mark :: right :: _ =>
    if mark = Keyword.toMark.word then .ok (left, right)
    else .error (.missingArgument operation expected)
  | _ => .error (.missingArgument operation expected)

/-- Changes the value of a variable that is there. -/
def mutate (operation : String) (change : Value → Except MutationError Value)
    (args : List String) (env : Environment) : Except RuntimeError Unit × Environment :=
  match variableArgument operation args with
  | .error e => (.error e, env)
  | .ok name =>
    match env.get? name with
    | none => (.error (.undeclared name), env)
    | some v =>
      match change v with
      | .error e => (.error (.mutation name operation e), env)
      | .ok v => (.ok (), env.insert name v)

/-- `clear x` makes a number zero; a new variable starts as zero. -/
def clear (args : List String) (env : Environment) : Except RuntimeError Unit × Environment :=
  match variableArgument Keyword.clear.word args with
  | .error e => (.error e, env)
  | .ok name =>
    if env.contains name then mutate Keyword.clear.word Value.clear args env
    else
      match env.declare name (.int 0) with
      | .error e => (.error e, env)
      | .ok env => (.ok (), env)

/-- `init x to literal` -/
def init (args : List String) (env : Environment) : Except RuntimeError Unit × Environment :=
  match assignmentArguments Keyword.init.word "<variable> to <literal>" args with
  | .error e => (.error e, env)
  | .ok (name, literal) =>
    match env.declare name (Value.parse literal) with
    | .error e => (.error e, env)
    | .ok env => (.ok (), env)

/-- `copy x to y` -/
def copy (args : List String) (env : Environment) : Except RuntimeError Unit × Environment :=
  match assignmentArguments Keyword.copy.word "<variable> to <variable>" args with
  | .error e => (.error e, env)
  | .ok (source, target) =>
    match env.get? source with
    | none => (.error (.missing source), env)
    | some v =>
      match env.bind target v with
      | .error e => (.error e, env)
      | .ok env => (.ok (), env)

end Machine

namespace Context

open Machine

/-- The context with the variables that a statement leaves behind. -/
def withEnv (c : Context β) (w : World σ) :
    Except RuntimeError Unit × Environment → Outcome Failure Bool × Context β × World σ
  | (.ok (), env) => (.ok true, { c with env := env }, w)
  | (.error e, env) => (.raise e, { c with env := env }, w)

/-- `print parts…` -/
def print (h : Host σ) (c : Context β) (args : List String) (w : World σ) :
    Outcome Failure Bool × Context β × World σ :=
  match printParts h c.env args w with
  | (.ok parts, w) => (.ok true, c, w.record (.line (" ".intercalate parts)))
  | (.error e, w) => (.raise e, c, w)

/-- `set x to value` -/
def set (h : Host σ) (run : BodyRunner σ β) (c : Context β) (args : List String) (w : World σ) :
    Outcome Failure Bool × Context β × World σ :=
  match assignmentArguments Keyword.set.word "<variable> to <value>" args with
  | .error e => (.raise e, c, w)
  | .ok (name, _) =>
    if c.env.contains name then
      match resolve h run c (args.drop 2) w with
      | (.ok (v, ok), w) =>
        match c.env.assign name v with
        | .ok env => (.ok ok, { c with env := env }, w)
        | .error e => (.raise e, c, w)
      | (.failed e, w) => (.failed e, c, w)
      | (.outOfFuel, w) => (.outOfFuel, c, w)
    else (.raise (.undeclared name), c, w)

/-- `return value` keeps the value; the body goes on. -/
def returnValue (h : Host σ) (run : BodyRunner σ β) (c : Context β) (args : List String)
    (w : World σ) : Outcome Failure Bool × Context β × World σ :=
  if c.scope.isMain then (.raise .returnOutsideFunction, c, w)
  else if args.isEmpty then
    (.raise (.missingArgument Keyword.returnValue.word "a value"), c, w)
  else
    match resolve h run c args w with
    | (.ok (v, ok), w) => (.ok ok, { c with returned := some v }, w)
    | (.failed e, w) => (.failed e, c, w)
    | (.outOfFuel, w) => (.outOfFuel, c, w)

/-- A statement that starts with the name of a function calls it. -/
def callStatement (h : Host σ) (run : BodyRunner σ β) (c : Context β) (s : Statement)
    (w : World σ) : Outcome Failure Bool × Context β × World σ :=
  match call h run c s.operation s.arguments w with
  | (.ok result, w) => (.ok result.ok, c, w)
  | (.failed e, w) => (.failed e, c, w)
  | (.outOfFuel, w) => (.outOfFuel, c, w)

/-- Executes a statement that belongs to no block. -/
def execute (h : Host σ) (run : BodyRunner σ β) (c : Context β) (s : Statement) (w : World σ) :
    Outcome Failure Bool × Context β × World σ :=
  let args := s.arguments
  match s.keyword? with
  | some .print => print h c args w
  | some .incr => withEnv c w (mutate Keyword.incr.word Value.increment args c.env)
  | some .decr => withEnv c w (mutate Keyword.decr.word Value.decrement args c.env)
  | some .clear => withEnv c w (clear args c.env)
  | some .init => withEnv c w (init args c.env)
  | some .copy => withEnv c w (copy args c.env)
  | some .set => set h run c args w
  | some .returnValue => returnValue h run c args w
  | _ => callStatement h run c s w

end Context

namespace Machine

/-- `while guard` goes past the loop if its guard holds, and into it otherwise. -/
def enterLoop (m : Machine) (address : Nat) (args : List String) :
    Except RuntimeError Unit × Machine :=
  match m.program.blockEnd? address with
  | none => (.error (.unmatchedBlock Keyword.whileLoop.word), m)
  | some stop =>
    match Guard.resolve Keyword.whileLoop.word args m.env with
    | .error e => (.error e, m)
    | .ok g =>
      if g.holds m.env then (.ok (), m.goto (stop + 1))
      else (.ok (), { m with loops := ⟨g, address, stop⟩ :: m.loops })

/-- `end` of the innermost loop leaves the loop, and goes back to its start unless the loop is
finished.  Any other `end` does nothing. -/
def closeBlock (m : Machine) (address : Nat) : Machine :=
  match m.loops with
  | [] => m
  | frame :: loops =>
    if frame.stop = address then
      let m := { m with loops := loops }
      if frame.finished m.env then m else m.goto frame.start
    else m

/-- `if guard` runs the chain that it starts. -/
def branch (h : Host σ) (run : Runner σ) (m : Machine) (address : Nat) (s : Statement)
    (w : World σ) : Outcome Failure Bool × Machine × World σ :=
  if m.scope.isMain || h.settings.conditionalsInFunctions then
    runChain run (chain m.program address s) m w
  else (.raise .conditionalInFunction, m, w)

/-- `func Name params…` defines a function and goes past its body. -/
def defineFunction (m : Machine) (address : Nat) (s : Statement) :
    Except RuntimeError Unit × Machine :=
  if m.scope.isMain then
    match m.program.blockEnd? address with
    | none => (.error (.unmatchedBlock Keyword.func.word), m)
    | some stop =>
      match Function.define s m.program address stop with
      | .error e => (.error e, m)
      | .ok f => (.ok (), { m with functions := m.functions.insert f.name f, pc := stop + 1 })
  else (.error .nestedFunction, m)

/-- The machine that a statement without a result leaves behind. -/
def moved (w : World σ) :
    Except RuntimeError Unit × Machine → Outcome Failure Bool × Machine × World σ
  | (.ok (), m) => (.ok true, m, w)
  | (.error e, m) => (.raise e, m, w)

/-- The machine in the context that a statement leaves behind. -/
def inContext (m : Machine) :
    Outcome Failure Bool × Context Program × World σ → Outcome Failure Bool × Machine × World σ
  | (r, c, w) => (r, { m with toContext := c }, w)

/-- Executes the statement at the address. -/
def execute (h : Host σ) (run : Runner σ) (m : Machine) (address : Nat) (s : Statement)
    (w : World σ) : Outcome Failure Bool × Machine × World σ :=
  match s.keyword? with
  | some .whileLoop => moved w (enterLoop m address s.arguments)
  | some .endBlock => (.ok true, closeBlock m address, w)
  | some .ifBranch => branch h run m address s w
  | some .elifBranch => (.raise (.orphanBranch Keyword.elifBranch.word), m, w)
  | some .elseBranch => (.raise (.orphanBranch Keyword.elseBranch.word), m, w)
  | some .func => moved w (defineFunction m address s)
  | _ => m.inContext (m.toContext.execute h run.body s w)

end Machine

end BareBones
