/-
Statements.

A statement is an operation and its arguments, all of them tokens of the source.  It keeps its
text, the tokens with one space between them, and the line it starts on.
-/
import BareBones.Keyword

namespace BareBones

/-- One statement of a program. -/
structure Statement where
  operation : String
  arguments : List String
  text : String
  line : Nat
  deriving DecidableEq, Repr

namespace Statement

/-- The statement made of the tokens.  No tokens make no statement. -/
def ofTokens? (tokens : List String) (line : Nat) : Option Statement :=
  match tokens with
  | [] => none
  | operation :: arguments => some ⟨operation, arguments, " ".intercalate tokens, line⟩

/-- The keyword that the statement starts with, if it starts with one. -/
def keyword? (s : Statement) : Option Keyword :=
  Keyword.ofWord? s.operation

/-- Does the statement open a block? -/
def opensBlock (s : Statement) : Bool :=
  s.keyword?.any Keyword.opensBlock

/-- Does the statement close a block? -/
def closesBlock (s : Statement) : Bool :=
  s.keyword? == some .endBlock

/-- Does the statement carry on a chain that an `if` started? -/
def continuesChain (s : Statement) : Bool :=
  s.keyword? == some .elifBranch || s.keyword? == some .elseBranch

/-- No statement both opens and closes a block. -/
theorem closesBlock_eq_false_of_opensBlock {s : Statement} (h : s.opensBlock = true) :
    s.closesBlock = false := by
  unfold opensBlock at h
  unfold closesBlock
  cases hk : s.keyword? with
  | none => simp
  | some k =>
    rw [hk] at h
    cases k <;> simp_all [Keyword.opensBlock]

end Statement

end BareBones
