/-!
# Dice

A source of numbers that look random: the number of each draw follows from a seed and the number of
draws before. A counter is mixed into 64 bits, of which the upper 53 give a fraction.
-/

namespace Flowgraph.Dice

/-- Mixes the bits of a word, so that neighbouring words give unlike results. -/
def mix (z : UInt64) : UInt64 :=
  let z := (z ^^^ (z >>> 30)) * 0xBF58476D1CE4E5B9
  let z := (z ^^^ (z >>> 27)) * 0x94D049BB133111EB
  z ^^^ (z >>> 31)

/-- The fraction of a draw, from zero up to but not including one. -/
def fraction (seed : UInt64) (draw : Nat) : Float :=
  let word := mix (seed + (draw + 1).toUInt64 * 0x9E3779B97F4A7C15)
  (word >>> 11).toFloat / 9007199254740992

/-- A number from a range, the same each time for one seed and one number of draws. -/
def uniform (seed : UInt64) (draw : Nat) (low high : Float) : Float :=
  let x := low + (high - low) * fraction seed draw
  if x < high then x else low

end Flowgraph.Dice
