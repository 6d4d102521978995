import BareBones.Text.Words
import BareBones.Text.Letter
import BareBones.Text.Numeral
import BareBones.Text.Capital
import BareBones.Decimal.Double
import BareBones.Program
import BareBones.Value
import BareBones.Name
import BareBones.NameMap
import BareBones.Arithmetic.Eval
import BareBones.Json.Number
import BareBones.Json.Reader
import BareBones.Json.Printer
import BareBones.Session
import BareBones.Json.Forms
import BareBones.Main
import BareBones.Proofs.Blocks
import BareBones.Proofs.Contexts
import BareBones.Proofs.Fuel
import BareBones.Proofs.Structured.Tree
import BareBones.Proofs.Structured.Interpret
import BareBones.Proofs.Structured.Steps
import BareBones.Proofs.Structured.Forward
import BareBones.Proofs.Structured.Backward
import BareBones.Proofs.Loops
import BareBones.Proofs.Diagnostics
import BareBones.Proofs.Arithmetic.Grammar
import BareBones.Proofs.Arithmetic.Climbing
import BareBones.Proofs.Arithmetic.Lexing
import BareBones.Proofs.Arithmetic.Evaluation
import BareBones.Proofs.Source.Words
import BareBones.Proofs.Source.Scanning
import BareBones.Proofs.Source.Fragments
import BareBones.Proofs.Source.Statements
import BareBones.Proofs.Source.Rendering
import BareBones.Proofs.Source.Reparsing
import BareBones.Proofs.Source.Lines
import BareBones.Proofs.Source.Separators
import BareBones.Proofs.Source.Comments
import BareBones.Proofs.Source.Strings
import BareBones.Proofs.Outside
import BareBones.Proofs.Frame
import BareBones.Proofs.Locations
import BareBones.Proofs.Nested
import BareBones.Proofs.Points
import BareBones.Proofs.Dispatch
import BareBones.Proofs.Limits
import BareBones.Proofs.Termination
import BareBones.Proofs.Names
import BareBones.Proofs.Tokens
import BareBones.Proofs.Clearing
import BareBones.Proofs.Depth
import BareBones.Proofs.Slices
import BareBones.Proofs.Capture
import BareBones.Proofs.Journal
import BareBones.Proofs.Snapshots
import BareBones.Proofs.Literals
import BareBones.Proofs.Branches
import BareBones.Proofs.Failures
import BareBones.Proofs.Substitution
import BareBones.Proofs.Arithmetic.Pasting
import BareBones.Proofs.Doubles.Bits
import BareBones.Proofs.Doubles.Decimals
import BareBones.Proofs.Arithmetic.Values
import BareBones.Proofs.Doubles.WholeNumbers
import BareBones.Proofs.Arithmetic.Joining
import BareBones.Proofs.Arithmetic.Parentheses
import BareBones.Proofs.Arithmetic.Enclosing
import BareBones.Proofs.Pieces
import BareBones.Proofs.Iterations
import BareBones.Proofs.Integers
