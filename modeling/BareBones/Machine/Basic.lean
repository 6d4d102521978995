/-
The machine and the world around it.

A machine runs one program: the main one, or the body of a function for one call.  It has a
context, which is all that a statement without a block can see or change: the variables, the
functions known so far and the value of the last `return`.  Beside it are the loops that are
running and the address of the next statement.  What leaves a machine goes into the journal of the
world, in order: printed lines, diagnostics and snapshots.  The world also carries the state of the
evaluator, which works out arithmetic.
-/
import BareBones.Function
import BareBones.Guard
import BareBones.Settings.Basic

namespace BareBones

/-- What statements see, where functions have bodies in `β`. -/
structure Context (β : Type) where
  env : Environment := ∅
  functions : NameMap (Function β) := ∅
  /-- The value of the last `return`. -/
  returned : Option Value := none
  scope : Scope := .main

/-- A machine. -/
structure Machine extends Context Program where
  program : Program
  /-- The address of the next statement. -/
  pc : Nat := 0
  /-- The loops that are running, the innermost first. -/
  loops : List LoopFrame := []

/-- A point at which the variables are published. -/
inductive Moment where
  | initial
  | afterStatement (address : Nat)
  | final
  deriving DecidableEq, Repr

/-- Something that a run lets the outside see. -/
inductive Event where
  | line (text : String)
  | diagnostic (e : StatementError)
  | snapshot (moment : Moment) (env : Environment)

namespace Event

/-- The printed line. -/
def line? : Event → Option String
  | line text => some text
  | _ => none

/-- The diagnostic. -/
def diagnostic? : Event → Option StatementError
  | diagnostic e => some e
  | _ => none

/-- The snapshot. -/
def snapshot? : Event → Option (Moment × Environment)
  | snapshot moment env => some (moment, env)
  | _ => none

end Event

/-- The journal and the state of the evaluator. -/
structure World (σ : Type) where
  /-- All events so far, the oldest first. -/
  journal : Array Event := #[]
  state : σ

/-- Adds an event to the journal. -/
def World.record {σ : Type} (w : World σ) (e : Event) : World σ :=
  { w with journal := w.journal.push e }

/-- What all machines of a run share: the settings and the evaluator of arithmetic. -/
structure Host (σ : Type) where
  settings : Settings
  evaluate : String → σ → Except Arithmetic.Error Float × σ

/-- The host that works out arithmetic, with random numbers from the source that is its state. -/
def Host.arithmetic {γ : Type} [Arithmetic.RandomSource γ] (settings : Settings) : Host γ where
  settings := settings
  evaluate := Arithmetic.evaluate

/-- How something ends: with a result, with an error, or not before the fuel is gone. -/
inductive Outcome (ε α : Type) where
  | ok (a : α)
  | failed (e : ε)
  | outOfFuel
  deriving DecidableEq, Repr

namespace Outcome

/-- Fails by an error of the statement's own. -/
def raise {α : Type} (e : RuntimeError) : Outcome Failure α :=
  .failed (.raised e)

end Outcome

/-- How the body of a function is run in the context of a call.  Calls get it as a parameter. -/
abbrev BodyRunner (σ β : Type) :=
  β → Context β → World σ → Outcome StatementError Bool × Context β × World σ

/-- How the statements from the next one on are run until the address is reached.  Conditionals
get it as a parameter. -/
abbrev Runner (σ : Type) :=
  Nat → Machine → World σ → Outcome StatementError Bool × Machine × World σ

/-- A body that is a program is run to its end by a machine of its own. -/
def Runner.body {σ : Type} (run : Runner σ) : BodyRunner σ Program :=
  fun body c w =>
    match run body.size { toContext := c, program := body } w with
    | (r, m, w) => (r, m.toContext, w)

namespace Context

variable {σ β : Type}

/-- Publishes the variables, if the settings ask for it and it is the main program that runs. -/
def publish (c : Context β) (h : Host σ) (moment : Moment) (w : World σ) : World σ :=
  if c.scope.isMain && h.settings.verbose then w.record (.snapshot moment c.env) else w

/-- Publishes the variables after a statement that neither opens nor closes a block. -/
def publishAfter (c : Context β) (h : Host σ) (address : Nat) (s : Statement) (w : World σ) :
    World σ :=
  if s.opensBlock || s.closesBlock then w else c.publish h (.afterStatement address) w

/-- The error at the statement that raised it. -/
def locate (c : Context β) (address : Nat) (s : Statement) (e : RuntimeError) : StatementError :=
  ⟨address, s.line, c.scope, s.text, e⟩

/-- What the outcome of the statement at an address means for the run.  An error that already has
its place is handed on.  Of the statement's own, a recoverable one is reported and the run goes
on, any other ends the run here. -/
def settle (c : Context β) (h : Host σ) (address : Nat) (s : Statement) :
    Outcome Failure Bool → World σ → Outcome StatementError Bool × World σ
  | .ok ok, w => (.ok ok, c.publishAfter h address s w)
  | .failed (.nested e), w => (.failed e, w)
  | .failed (.raised e), w =>
    let located := c.locate address s e
    if e.isRecoverable then
      (.ok false, c.publishAfter h address s (w.record (.diagnostic located)))
    else (.failed located, w)
  | .outOfFuel, w => (.outOfFuel, w)

end Context

namespace Machine

/-- The machine goes on at the address. -/
def goto (m : Machine) (address : Nat) : Machine :=
  { m with pc := address }

/-- The statement that comes next. -/
def next? (m : Machine) : Option Statement :=
  m.program.get? m.pc

end Machine

end BareBones
