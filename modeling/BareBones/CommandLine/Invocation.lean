/-
The arguments of a call from the command line.

Flags and options may stand anywhere before `--`; what is neither is a plain argument.  The value
of an option may stand behind `=` or as the argument after it.  In the second case the option waits
until the next argument that means something, so an unknown flag is noticed before a bad value.
-/
import BareBones.Value

namespace BareBones.CommandLine

/-- Why arguments cannot be used. -/
inductive UsageError where
  | missingRequiredArgument
  | unknownArgument
  | argumentConflict
  | tooManyValues
  | valueValidation
  | invalidValue
  | displayHelp
  deriving DecidableEq, Repr

/-- What the arguments ask for. -/
structure Invocation where
  verbose : Bool := false
  json : Bool := false
  dump : Bool := false
  config : Option String := none
  maxCallDepth : Option Nat := none
  /-- The plain arguments, in order. -/
  arguments : List String := []
  deriving DecidableEq, Repr

/-- The flags. -/
inductive Flag where
  | verbose
  | json
  | dump
  | help
  deriving DecidableEq, Repr

/-- The options that take a value. -/
inductive OptionName where
  | config
  | maxCallDepth
  deriving DecidableEq, Repr

/-- What a long name stands for. -/
def longName? : String → Option (Flag ⊕ OptionName)
  | "verbose" => some (.inl .verbose)
  | "json" => some (.inl .json)
  | "dump" => some (.inl .dump)
  | "help" => some (.inl .help)
  | "config" => some (.inr .config)
  | "max-call-depth" => some (.inr .maxCallDepth)
  | _ => none

/-- What a letter stands for. -/
def shortName? : Char → Option Flag
  | 'v' => some .verbose
  | 'h' => some .help
  | _ => none

/-- The reader of arguments: what is settled, and the option that waits, with its value if it has
one. -/
structure Reader where
  settled : Invocation := {}
  waiting : Option (OptionName × Option String) := none

namespace Reader

/-- Settles an option with its value. -/
def setOption (i : Invocation) (o : OptionName) (value : String) :
    Except UsageError Invocation :=
  match o with
  | .config =>
    if i.config.isSome then .error .argumentConflict else .ok { i with config := some value }
  | .maxCallDepth =>
    if i.maxCallDepth.isSome then .error .argumentConflict
    else
      match Literal.readUInt64? value.toList with
      | some n => .ok { i with maxCallDepth := some n.toNat }
      | none => .error .valueValidation

/-- Settles the option that waits. -/
def settle (r : Reader) : Except UsageError Invocation :=
  match r.waiting with
  | none => .ok r.settled
  | some (_, none) => .error .invalidValue
  | some (o, some value) => setOption r.settled o value

/-- Settles a flag. -/
def setFlag (i : Invocation) : Flag → Except UsageError Invocation
  | .verbose => if i.verbose then .error .argumentConflict else .ok { i with verbose := true }
  | .json => if i.json then .error .argumentConflict else .ok { i with json := true }
  | .dump => if i.dump then .error .argumentConflict else .ok { i with dump := true }
  | .help => .error .displayHelp

/-- Takes a flag. -/
def flag (r : Reader) (f : Flag) : Except UsageError Reader :=
  match r.settle with
  | .error e => .error e
  | .ok i =>
    match setFlag i f with
    | .error e => .error e
    | .ok i => .ok { settled := i }

/-- Takes an argument `--name` or `--name=value`, without its dashes. -/
def long (r : Reader) (cs : List Char) : Except UsageError Reader :=
  let (name, rest) := cs.span (· != '=')
  match longName? (String.ofList name), rest with
  | none, _ => .error .unknownArgument
  | some (.inl f), [] => r.flag f
  | some (.inl _), _ :: _ => .error .tooManyValues
  | some (.inr o), rest =>
    match r.settle, rest with
    | .error e, _ => .error e
    | .ok i, [] => .ok { settled := i, waiting := some (o, none) }
    | .ok i, _ :: value =>
      match setOption i o (String.ofList value) with
      | .error e => .error e
      | .ok i => .ok { settled := i }

/-- Takes an argument of letters behind one dash. -/
def short (r : Reader) : List Char → Except UsageError Reader
  | [] => .ok r
  | c :: cs =>
    match shortName? c with
    | none => .error .unknownArgument
    | some f =>
      match r.flag f with
      | .error e => .error e
      | .ok r => r.short cs

/-- Takes a plain argument. -/
def plain (r : Reader) (arg : String) : Except UsageError Reader :=
  match r.settle with
  | .error e => .error e
  | .ok i => .ok { settled := { i with arguments := i.arguments ++ [arg] } }

/-- Takes an argument that is no flag and no option: the value of the option that waits for one,
or a plain argument. -/
def value (r : Reader) (arg : String) : Except UsageError Reader :=
  match r.waiting with
  | some (o, none) => .ok { r with waiting := some (o, some arg) }
  | _ => r.plain arg

/-- Takes an argument before `--`. -/
def argument (r : Reader) (arg : String) : Except UsageError Reader :=
  match arg.toList with
  | '-' :: '-' :: cs => r.long cs
  | '-' :: c :: cs => r.short (c :: cs)
  | _ => r.value arg

/-- Takes all arguments. -/
def all (r : Reader) : List String → Except UsageError Reader
  | [] => .ok r
  | arg :: args =>
    if arg = "--" then args.foldlM plain r
    else
      match r.argument arg with
      | .error e => .error e
      | .ok r => r.all args

end Reader

/-- Reads the arguments.  There must be a plain one. -/
def Invocation.parse (args : List String) : Except UsageError Invocation :=
  match Reader.all {} args with
  | .error e => .error e
  | .ok r =>
    match r.settle with
    | .error e => .error e
    | .ok i => if i.arguments.isEmpty then .error .missingRequiredArgument else .ok i

namespace Invocation

/-- The source file: the last plain argument. -/
def file (i : Invocation) : String :=
  i.arguments.getLast?.getD ""

/-- The assignments: the plain arguments before the last. -/
def assignments (i : Invocation) : List String :=
  i.arguments.dropLast

end Invocation

end BareBones.CommandLine
