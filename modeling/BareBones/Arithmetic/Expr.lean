/-
Expressions.

Numbers and names stay as they are written; what they stand for is settled when the expression is
evaluated.  Parentheses leave no trace in the tree.
-/

namespace BareBones.Arithmetic

/-- The operators between two expressions. -/
inductive Operator where
  | add
  | subtract
  | multiply
  | divide
  | modulo
  | power
  deriving DecidableEq, Repr

/-- An arithmetic expression. -/
inductive Expr where
  | number (text : String)
  | name (name : String)
  | call (function : String) (arguments : List Expr)
  | negate (e : Expr)
  | keep (e : Expr)
  | binary (op : Operator) (left right : Expr)
  deriving Repr

end BareBones.Arithmetic
