/-
The numbers, dates and times of TOML.

Digits may be parted by single underscores.  A whole number has 64 bits and no needless zeros in
front; in base 16, 8 or 2 it has no sign.  A double has digits on both sides of its point.

Dates and times must exist.  No setting is one, so a date or time is kept as the text that writes
it.
-/
import BareBones.Settings.Setting
import BareBones.Settings.Toml.Text

namespace BareBones.Toml

/-- Do the underscores stand alone between two digits? -/
def wellParted : List Char → Bool
  | [] => true
  | ['_'] => false
  | '_' :: '_' :: _ => false
  | _ :: cs => wellParted cs

/-- Reads digits of the base and drops the underscores between them. -/
def readDigits? (base : Nat) (cs : List Char) : Option (List Char × List Char) :=
  let (run, rest) := cs.span fun c => c == '_' || Text.isDigitIn base c
  if run.isEmpty || run.head? == some '_' || !wellParted run then none
  else some (run.filter (· != '_'), rest)

/-- Reads the power of ten behind a number, if there is one. -/
def readPower? : List Char → Option (List Char × List Char)
  | e :: cs =>
    if e == 'e' || e == 'E' then
      let (sign, cs) := match cs with
        | '+' :: cs => ([], cs)
        | '-' :: cs => (['-'], cs)
        | cs => ([], cs)
      (readDigits? 10 cs).map fun (ds, rest) => ('e' :: sign ++ ds, rest)
    else some ([], e :: cs)
  | [] => some ([], [])

/-- Reads the point of a number and the digits behind it, if there is one. -/
def readPoint? : List Char → Option (List Char × List Char)
  | '.' :: cs => (readDigits? 10 cs).map fun (ds, rest) => ('.' :: ds, rest)
  | cs => some ([], cs)

/-- Reads a number in base ten behind its sign.  A double past all others is none, unless it is
negative. -/
def readDecimal? (sign cs : List Char) : Option (Setting × List Char) := do
  let (whole, cs) ← readDigits? 10 cs
  if whole.head? == some '0' && whole.length != 1 then none
  let (point, cs) ← readPoint? cs
  let (power, rest) ← readPower? cs
  if point.isEmpty && power.isEmpty then
    let n ← Setting.readInt64? 10 (sign ++ whole)
    return (.int n, rest)
  else
    let x ← Double.read? (sign ++ whole ++ point ++ power)
    if x.isInf && sign.isEmpty then none
    return (.float x, rest)

/-- Reads a number of another base. -/
def readInBase? (base : Nat) (cs : List Char) : Option (Setting × List Char) := do
  let (ds, rest) ← readDigits? base cs
  let n ← Setting.readInt64? base ds
  return (.int n, rest)

/-- Reads a number. -/
def readNumber? (cs : List Char) : Option (Setting × List Char) :=
  match cs with
  | '0' :: 'x' :: cs => readInBase? 16 cs
  | '0' :: 'o' :: cs => readInBase? 8 cs
  | '0' :: 'b' :: cs => readInBase? 2 cs
  | cs =>
    let (sign, size) := match cs with
      | '-' :: cs => (['-'], cs)
      | '+' :: cs => ([], cs)
      | cs => ([], cs)
    match size with
    | 'i' :: 'n' :: 'f' :: rest => (Double.read? (sign ++ ['i', 'n', 'f'])).map (.float ·, rest)
    | 'n' :: 'a' :: 'n' :: rest => (Double.read? (sign ++ ['n', 'a', 'n'])).map (.float ·, rest)
    | size => readDecimal? sign size

/-- Reads a number of `size` digits between the two bounds. -/
def readField? (size least most : Nat) (cs : List Char) : Option (Nat × List Char) :=
  let ds := cs.take size
  if ds.length ≠ size || !ds.all Char.isDigit then none
  else
    let n := natOfDigits ds
    if least ≤ n ∧ n ≤ most then some (n, cs.drop size) else none

/-- What is behind the character, if the text starts with it. -/
def after? (c : Char) : List Char → Option (List Char)
  | d :: cs => if d == c then some cs else none
  | [] => none

/-- What is behind a time of the day, with or without parts of a second. -/
def afterTime? (cs : List Char) : Option (List Char) := do
  let (_, cs) ← readField? 2 0 23 cs
  let cs ← after? ':' cs
  let (_, cs) ← readField? 2 0 59 cs
  let cs ← after? ':' cs
  let (_, cs) ← readField? 2 0 60 cs
  match cs with
  | '.' :: rest =>
    if (rest.takeWhile Char.isDigit).isEmpty then none else some (rest.dropWhile Char.isDigit)
  | cs => some cs

/-- What is behind the distance to universal time, if it is given. -/
def afterOffset? (cs : List Char) : Option (List Char) :=
  match cs with
  | c :: rest =>
    if c == 'Z' || c == 'z' then some rest
    else if c == '+' || c == '-' then do
      let (_, cs) ← readField? 2 0 23 rest
      let cs ← after? ':' cs
      let (_, cs) ← readField? 2 0 59 cs
      return cs
    else some cs
  | [] => some []

/-- The number of days of a month. -/
def daysOf (year month : Nat) : Nat :=
  if month = 2 then if year % 4 = 0 ∧ (year % 100 ≠ 0 ∨ year % 400 = 0) then 29 else 28
  else if [4, 6, 9, 11].contains month then 30
  else 31

/-- What is behind a date. -/
def afterDate? (cs : List Char) : Option (List Char) := do
  let (year, cs) ← readField? 4 0 9999 cs
  let cs ← after? '-' cs
  let (month, cs) ← readField? 2 1 12 cs
  let cs ← after? '-' cs
  let (_, cs) ← readField? 2 1 (daysOf year month) cs
  return cs

/-- Does the text start with `size` digits and the mark behind them? -/
def startsField (size : Nat) (mark : Char) (cs : List Char) : Bool :=
  (cs.takeWhile Char.isDigit).length == size && (cs.drop size).head? == some mark

/-- What is behind a date or a time or both. -/
def afterMoment? (cs : List Char) : Option (List Char) :=
  if startsField 2 ':' cs then afterTime? cs
  else
    match afterDate? cs with
    | none => none
    | some [] => some []
    | some (c :: cs) =>
      if c == 'T' || c == 't' || (c == ' ' && startsField 2 ':' cs) then
        (afterTime? cs).bind afterOffset?
      else some (c :: cs)

/-- Reads a number, a date or a time. -/
def readQuantity? (cs : List Char) : Option (Setting × List Char) :=
  if startsField 4 '-' cs || startsField 2 ':' cs then
    (afterMoment? cs).map fun rest =>
      (.text (String.ofList (cs.take (cs.length - rest.length))), rest)
  else readNumber? cs

end BareBones.Toml
