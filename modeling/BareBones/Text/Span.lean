/-
Spans of characters.

A property of characters that has no short rule is given as a table of spans: the characters
from a first to a last one, taken in equal steps.
-/

namespace BareBones.Text

/-- The characters `first`, `first + step`, … up to `last`, by their code points. -/
structure Span where
  first : Nat
  last : Nat
  step : Nat

/-- Does the span hold the code point? -/
def Span.holds (s : Span) (n : Nat) : Bool :=
  s.first ≤ n && n ≤ s.last && (n - s.first) % s.step == 0

/-- Is the character in one of the spans? -/
def inSpans (spans : List Span) (c : Char) : Bool :=
  spans.any (·.holds c.toNat)

end BareBones.Text
