/-
The words that have a meaning of their own.

Some name an operation, some only mark a place inside a statement.  The five that open a block
are closed by `end`.
-/

namespace BareBones

/-- The keywords. -/
inductive Keyword where
  | print
  | incr
  | decr
  | copy
  | set
  | clear
  | init
  | whileLoop
  | ifBranch
  | elifBranch
  | elseBranch
  | endBlock
  | func
  | returnValue
  | eval
  | toMark
  | notMark
  | doMark
  deriving DecidableEq, Repr

namespace Keyword

/-- How the keyword is written. -/
def word : Keyword → String
  | print => "print"
  | incr => "incr"
  | decr => "decr"
  | copy => "copy"
  | set => "set"
  | clear => "clear"
  | init => "init"
  | whileLoop => "while"
  | ifBranch => "if"
  | elifBranch => "elif"
  | elseBranch => "else"
  | endBlock => "end"
  | func => "func"
  | returnValue => "return"
  | eval => "eval"
  | toMark => "to"
  | notMark => "not"
  | doMark => "do"

/-- All keywords. -/
def all : List Keyword :=
  [print, incr, decr, copy, set, clear, init, whileLoop, ifBranch, elifBranch, elseBranch,
    endBlock, func, returnValue, eval, toMark, notMark, doMark]

/-- The keyword that the text writes. -/
def ofWord? (w : String) : Option Keyword :=
  all.find? (·.word == w)

/-- Does the keyword open a block? -/
def opensBlock : Keyword → Bool
  | whileLoop | ifBranch | elifBranch | elseBranch | func => true
  | _ => false

/-- A keyword is read off exactly the text that writes it. -/
theorem word_of_ofWord? {w : String} {k : Keyword} (h : ofWord? w = some k) : k.word = w := by
  simpa using List.find?_some h

theorem ofWord?_word (k : Keyword) : ofWord? k.word = some k := by
  cases k <;> decide

end Keyword

end BareBones
