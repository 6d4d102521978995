/-
From fragments to tokens.

The tokens of a fragment are its words, but a word that opens a string and does not close it is
joined with the words after it, one space between each two, up to the one that closes it.
-/
import BareBones.Source.Scanner
import BareBones.Text.Words

namespace BareBones.Source

open BareBones.Text

/-- Does the word end in a quote that no backslash stands before? -/
def closesString (w : List Char) : Bool :=
  match w.reverse with
  | '"' :: '\\' :: _ => false
  | '"' :: _ => true
  | _ => false

/-- Does the word start with a quote and leave it open?  The quote alone does. -/
def opensString : List Char → Bool
  | '"' :: w => w.isEmpty || !closesString ('"' :: w)
  | _ => false

/-- Groups words into tokens.  `pending` is the part of a string read so far; there are no
tokens if the words end inside a string. -/
def group : Option (List Char) → List (List Char) → Option (List (List Char))
  | none, [] => some []
  | some _, [] => none
  | none, w :: ws =>
    if opensString w then group (some w) ws else (group none ws).map (w :: ·)
  | some p, w :: ws =>
    let p := p ++ ' ' :: w
    if closesString w then (group none ws).map (p :: ·) else group (some p) ws

/-- The tokens of the fragment, unless it ends inside a string. -/
def Fragment.tokens? (f : Fragment) : Option (List String) :=
  (group none (words f.text)).map (·.map String.ofList)

end BareBones.Source
