/-
Chains of conditionals.

An `if` block, the `elif` blocks right behind it and an `else` block at the end make a chain.  The
links of a chain are known from the program alone.  Which of them runs is settled by the guards,
from left to right, with the variables as they are when the chain is entered.
-/
import BareBones.Machine.Basic

namespace BareBones.Machine

variable {σ : Type}

/-- One block of a chain. -/
structure Link where
  /-- The address of the statement that opens the block. -/
  opener : Nat
  statement : Statement
  /-- The address of the `end` that closes it, if one does. -/
  stop : Option Nat

/-- The links of the chain from a statement on.  There are no more of them than statements. -/
def links (p : Program) : Nat → Nat → Statement → List Link
  | 0, _, _ => []
  | n + 1, opener, s =>
    ⟨opener, s, p.blockEnd? opener⟩ ::
      match p.blockEnd? opener with
      | none => []
      | some stop =>
        if s.keyword? = some .elseBranch then []
        else
          match p.get? (stop + 1) with
          | none => []
          | some s => if s.continuesChain then links p n (stop + 1) s else []

/-- The chain that starts with the statement. -/
def chain (p : Program) (address : Nat) (s : Statement) : List Link :=
  links p (p.size + 1) address s

/-- Should the block run, given that none before it did? -/
def Link.taken (l : Link) (env : Environment) : Except RuntimeError Bool :=
  if l.statement.keyword? = some .elseBranch then .ok true
  else
    match Guard.resolve l.statement.operation l.statement.arguments env with
    | .error e => .error e
    | .ok g => .ok (g.holds env)

/-- Behind a block: at the statement after its `end`, or past the one that opens the next link. -/
def leave (m : Machine) (stop : Nat) (rest : List Link) : Machine :=
  m.goto (if rest.isEmpty then stop + 1 else stop + 2)

/-- Goes past the links behind the one that ran. -/
def passOver : List Link → Machine → Except RuntimeError Unit × Machine
  | [], m => (.ok (), m)
  | l :: rest, m =>
    match l.stop with
    | none => (.error (.unmatchedBlock l.statement.operation), m)
    | some stop => passOver rest (m.leave stop rest)

/-- Runs the first block of the chain whose guard holds, and goes past the others. -/
def runChain (run : Runner σ) : List Link → Machine → World σ →
    Outcome Failure Bool × Machine × World σ
  | [], m, w => (.ok true, m, w)
  | l :: rest, m, w =>
    match l.stop with
    | none => (.raise (.unmatchedBlock l.statement.operation), m, w)
    | some stop =>
      match l.taken m.env with
      | .error e => (.raise e, m, w)
      | .ok false => runChain run rest (m.leave stop rest) w
      | .ok true =>
        match run stop (m.goto (l.opener + 1)) w with
        | (.failed e, m, w) => (.failed (.nested e), m, w)
        | (.outOfFuel, m, w) => (.outOfFuel, m, w)
        | (.ok ok, m, w) =>
          match passOver rest (m.leave stop rest) with
          | (.ok (), m) => (.ok ok, m, w)
          | (.error e, m) => (.raise e, m, w)

end BareBones.Machine
