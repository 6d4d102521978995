/-
Running a machine.

A step takes the next statement, executes it and settles what the outcome means.  `run` takes steps
until an address is reached.  It is the only function here that needs fuel, one unit a step; calls
and conditionals run with what is left.
-/
import BareBones.Machine.Execute

namespace BareBones.Machine

variable {σ : Type}

/-- What a step did. -/
inductive Step where
  | continued (ok : Bool)
  | done
  deriving DecidableEq, Repr

/-- Takes one step. -/
def step (h : Host σ) (run : Runner σ) (m : Machine) (w : World σ) :
    Outcome StatementError Step × Machine × World σ :=
  match m.next? with
  | none => (.ok .done, m, w)
  | some s =>
    match execute h run (m.goto (m.pc + 1)) m.pc s w with
    | (r, m', w) =>
      match m'.settle h m.pc s r w with
      | (.ok ok, w) => (.ok (.continued ok), m', w)
      | (.failed e, w) => (.failed e, m', w)
      | (.outOfFuel, w) => (.outOfFuel, m', w)

/-- Takes steps until the address is reached or no statement is left.  `ok` tells whether all
statements before succeeded. -/
def runFrom (h : Host σ) : Nat → Bool → Runner σ
  | 0, _, _, m, w => (.outOfFuel, m, w)
  | fuel + 1, ok, stop, m, w =>
    if m.pc < stop then
      match step h (fun stop m w => runFrom h fuel true stop m w) m w with
      | (.ok (.continued ok'), m, w) => runFrom h fuel (ok && ok') stop m w
      | (.ok .done, m, w) => (.ok ok, m, w)
      | (.failed e, m, w) => (.failed e, m, w)
      | (.outOfFuel, m, w) => (.outOfFuel, m, w)
    else (.ok ok, m, w)

/-- Runs the statements from the next one up to the address. -/
def run (h : Host σ) (fuel : Nat) : Runner σ :=
  runFrom h fuel true

/-- Runs the block between two addresses. -/
def runBlock (h : Host σ) (fuel start stop : Nat) (m : Machine) (w : World σ) :
    Outcome StatementError Bool × Machine × World σ :=
  run h fuel stop (m.goto start) w

/-- Runs the machine to the end of its program. -/
def runUntilDone (h : Host σ) (fuel : Nat) (m : Machine) (w : World σ) :
    Outcome StatementError Bool × Machine × World σ :=
  match run h fuel m.program.size m (m.publish h .initial w) with
  | (.ok ok, m, w) => (.ok ok, m, m.publish h .final w)
  | (.failed e, m, w) => (.failed e, m, w)
  | (.outOfFuel, m, w) => (.outOfFuel, m, w)

end BareBones.Machine
