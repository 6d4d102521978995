/-
Programs.

A program is a list of statements together with its block table: the address of the `end` that
closes each block.  The table is made in one pass from left to right, with the blocks that are open
on a stack.  An opener puts its address there, and an `end` closes the innermost open block.  An
`end` with no open block closes none, and a block that is still open behind the last statement has
no `end`.
-/
import BareBones.Source.Token
import BareBones.Statement

namespace BareBones

/-- The table after the statements from address `a` on, where `opened` are the addresses of the open
blocks, the innermost first, and `ends` is the table so far. -/
def closeBlocks (a : Nat) (opened : List Nat) (ends : Array (Option Nat)) :
    List Statement → Array (Option Nat)
  | [] => ends
  | s :: ss =>
    if s.opensBlock then closeBlocks (a + 1) (a :: opened) ends ss
    else if s.closesBlock then
      let ends := match opened.head? with
        | some opener => ends.setIfInBounds opener (some a)
        | none => ends
      closeBlocks (a + 1) opened.tail ends ss
    else closeBlocks (a + 1) opened ends ss

/-- The block table of the statements. -/
def matchBlocks (ss : List Statement) : Array (Option Nat) :=
  closeBlocks 0 [] (Array.replicate ss.length none) ss

/-- A program: statements, found by their address, and the block table. -/
structure Program where
  statements : Array Statement
  blockEnds : Array (Option Nat)
  blockEnds_eq : blockEnds = matchBlocks statements.toList

/-- Why a text is no program. -/
inductive ParseError where
  /-- The fragment that starts on the line ends inside a string. -/
  | unterminatedString (line : Nat) (fragment : String)
  deriving DecidableEq, Repr

/-- The message for the user. -/
def ParseError.message : ParseError → String
  | .unterminatedString line fragment =>
    "unterminated string literal on line " ++ toString line ++ ": " ++ fragment

/-- The statements of the fragments, or the first fragment that ends inside a string. -/
def Source.statements : List Source.Fragment → Except ParseError (List Statement)
  | [] => .ok []
  | f :: fs =>
    match f.tokens? with
    | none => .error (.unterminatedString f.line (String.ofList (Text.trim f.text)))
    | some tokens =>
      match statements fs with
      | .error e => .error e
      | .ok ss => .ok ((Statement.ofTokens? tokens f.line).toList ++ ss)

namespace Program

/-- The program made of the statements. -/
def ofStatements (ss : List Statement) : Program where
  statements := ss.toArray
  blockEnds := matchBlocks ss
  blockEnds_eq := rfl

instance : Inhabited Program := ⟨ofStatements []⟩

/-- Reads a program from its source text. -/
def parse (source : String) : Except ParseError Program :=
  match Source.statements (Source.fragments source.toList) with
  | .error e => .error e
  | .ok ss => .ok (ofStatements ss)

/-- The number of statements. -/
def size (p : Program) : Nat :=
  p.statements.size

/-- The statement at the address. -/
def get? (p : Program) (address : Nat) : Option Statement :=
  p.statements[address]?

/-- The address of the `end` that closes the block opened at the address. -/
def blockEnd? (p : Program) (address : Nat) : Option Nat :=
  p.blockEnds[address]?.join

/-- The program made of the statements from `start` up to and without `stop`. -/
def slice (p : Program) (start stop : Nat) : Program :=
  ofStatements ((p.statements.toList.drop start).take (stop - start))

/-- The slice, if the two addresses are in order and within the program. -/
def slice? (p : Program) (start stop : Nat) : Option Program :=
  if start ≤ stop ∧ stop ≤ p.size then some (p.slice start stop) else none

/-- The text of the program, one statement a line. -/
def sourceText (p : Program) : String :=
  String.join (p.statements.toList.map (·.text ++ ";\n"))

end Program

end BareBones
