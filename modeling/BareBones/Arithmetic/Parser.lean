/-
From lexemes to expressions.

An expression is made of operands with operators between them.  An operand is a number, a name, a
call, an expression in parentheses, or an operand behind a sign.  How tightly operators and signs
bind is given by numbers, and an expression is read by climbing: behind an operand the operators
are taken that bind more tightly than what stands before it.  So the tree is settled by the table
of these numbers alone.

One lexeme of look ahead settles every choice, so a text that is no expression is refused at the
first lexeme that cannot go on.  Each function takes fuel, one unit a call; no more than two calls
in a row take no lexeme, so four units a lexeme are enough.
-/
import BareBones.Arithmetic.Expr
import BareBones.Arithmetic.Lexeme

namespace BareBones.Arithmetic

/-- What a rule makes of lexemes: a result and the lexemes behind it, or the lexemes from the
first one on that cannot go on. -/
abbrev Parsed (α : Type) := Except (List Lexeme) (α × List Lexeme)

/-- The operator that the lexeme is behind an operand. -/
def Token.operator? : Token → Option Operator
  | .plus => some .add
  | .minus => some .subtract
  | .times => some .multiply
  | .divide => some .divide
  | .modulo => some .modulo
  | .power => some .power
  | _ => none

/-- How tightly the operator binds. -/
def Operator.precedence : Operator → Nat
  | .add | .subtract => 10
  | .multiply | .divide | .modulo => 20
  | .power => 40

/-- How tightly a sign binds: more tightly than a product, less tightly than a power. -/
def signPrecedence : Nat := 30

/-- On its right side an operator takes what binds more tightly than this.  Powers lean to the
right, so they take one another there; all others lean to the left. -/
def Operator.rightBound : Operator → Nat
  | .power => Operator.power.precedence - 1
  | op => op.precedence

mutual

/-- Reads an operand and all operators behind it that bind more tightly than the bound. -/
def climb : Nat → Nat → List Lexeme → Parsed Expr
  | 0, _, ts => .error ts
  | fuel + 1, bound, ts =>
    match operand fuel ts with
    | .error stuck => .error stuck
    | .ok (e, rest) => climbOn fuel bound e rest

/-- Reads on behind an expression, as long as operators bind more tightly than the bound. -/
def climbOn : Nat → Nat → Expr → List Lexeme → Parsed Expr
  | 0, _, _, ts => .error ts
  | _ + 1, _, e, [] => .ok (e, [])
  | fuel + 1, bound, e, t :: ts =>
    match t.token.operator? with
    | none => .ok (e, t :: ts)
    | some op =>
      if bound < op.precedence then
        match climb fuel op.rightBound ts with
        | .error stuck => .error stuck
        | .ok (f, rest) => climbOn fuel bound (.binary op e f) rest
      else .ok (e, t :: ts)

/-- Reads an operand.  What a sign stands before is read with the bound of signs. -/
def operand : Nat → List Lexeme → Parsed Expr
  | 0, ts => .error ts
  | _ + 1, [] => .error []
  | fuel + 1, t :: ts =>
    match t.token with
    | .minus =>
      match climb fuel (signPrecedence - 1) ts with
      | .error stuck => .error stuck
      | .ok (e, rest) => .ok (.negate e, rest)
    | .plus =>
      match climb fuel (signPrecedence - 1) ts with
      | .error stuck => .error stuck
      | .ok (e, rest) => .ok (.keep e, rest)
    | .number text => .ok (.number text, ts)
    | .name f =>
      match ts with
      | ⟨.leftParen, _⟩ :: ⟨.rightParen, _⟩ :: ts => .ok (.call f [], ts)
      | ⟨.leftParen, _⟩ :: ts =>
        match arguments fuel ts with
        | .error stuck => .error stuck
        | .ok (es, rest) => .ok (.call f es, rest)
      | ts => .ok (.name f, ts)
    | .leftParen =>
      match climb fuel 0 ts with
      | .error stuck => .error stuck
      | .ok (e, ⟨.rightParen, _⟩ :: rest) => .ok (e, rest)
      | .ok (_, stuck) => .error stuck
    | _ => .error (t :: ts)

/-- Reads the arguments of a call, with the parenthesis that closes them. -/
def arguments : Nat → List Lexeme → Parsed (List Expr)
  | 0, ts => .error ts
  | fuel + 1, ts =>
    match climb fuel 0 ts with
    | .error stuck => .error stuck
    | .ok (e, ⟨.rightParen, _⟩ :: rest) => .ok ([e], rest)
    | .ok (e, ⟨.comma, _⟩ :: rest) =>
      match arguments fuel rest with
      | .error stuck => .error stuck
      | .ok (es, rest) => .ok (e :: es, rest)
    | .ok (_, stuck) => .error stuck

end

/-- A place in a text: its line and its character on that line, both from one. -/
structure Position where
  line : Nat
  column : Nat
  deriving DecidableEq, Repr

/-- The place behind the given characters. -/
def Position.after (cs : List Char) : Position :=
  cs.foldl (fun p c => if c = '\n' then ⟨p.line + 1, 1⟩ else ⟨p.line, p.column + 1⟩) ⟨1, 1⟩

/-- Reads a text as one expression, or finds the place from which on it is none. -/
def parse (cs : List Char) : Except Position Expr :=
  let lexemes := lex cs
  let refuse (stuck : List Lexeme) : Position :=
    match stuck with
    | [] => .after cs
    | t :: _ => .after (cs.take t.offset)
  match climb (4 * lexemes.length + 4) 0 lexemes with
  | .ok (e, []) => .ok e
  | .ok (_, stuck) => .error (refuse stuck)
  | .error stuck => .error (refuse stuck)

end BareBones.Arithmetic
