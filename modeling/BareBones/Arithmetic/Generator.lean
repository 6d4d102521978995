/-
The source of random numbers that programs are run with.

It mixes the bits of a counter.  Only the outside of the program uses it: expressions draw from any
source.
-/
import BareBones.Arithmetic.Function

namespace BareBones.Arithmetic

/-- A counter that random numbers are made of. -/
structure Generator where
  seed : UInt64

/-- The next number, and the generator behind it. -/
def Generator.next (g : Generator) : Float × Generator :=
  let seed := g.seed + 0x9E3779B97F4A7C15
  let z := (seed ^^^ (seed >>> 30)) * 0xBF58476D1CE4E5B9
  let z := (z ^^^ (z >>> 27)) * 0x94D049BB133111EB
  let z := z ^^^ (z >>> 31)
  ((z >>> 11).toFloat / 9007199254740992.0, ⟨seed⟩)

@[default_instance]
instance : RandomSource Generator where
  draw := Generator.next

end BareBones.Arithmetic
