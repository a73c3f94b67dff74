/-!
# Binary values and decimals

A finite floating-point number is a natural number times a power of two, and what is written of it
is a natural number times a power of ten. Both are compared exactly, in naturals, by bringing them
to a common denominator.

* `Binary.ofFloat` decodes the bits of a finite number.
* `Binary.floorAt` is the decimal just below a value on a given decimal grid.
* `Binary.readsBack` says that a decimal lies among the reals that round to a value.
-/

namespace Flowgraph.Decimal

/-- A decimal `digits * 10 ^ exponent`. -/
structure Dec where
  digits : Nat
  exponent : Int
deriving DecidableEq

/-- A finite non-negative binary value `significand * 2 ^ exponent`. -/
structure Binary where
  significand : Nat
  exponent : Int
  /-- The gap to the value below is half the gap to the value above. -/
  narrowBelow : Bool
deriving DecidableEq

namespace Binary

/-- The magnitude of a finite number, read off its bits: a zero exponent field marks the subnormal
numbers, every other one adds the leading bit. The sign is dropped. -/
def ofFloat (x : Float) : Binary :=
  let bits := x.toBits.toNat
  let field : Nat := bits / Nat.pow 2 52 % Nat.pow 2 11
  let fraction : Nat := bits % Nat.pow 2 52
  if field = 0 then ⟨fraction, -1074, false⟩
  else ⟨Nat.pow 2 52 + fraction, (field : Int) - 1075, fraction = 0 && 1 < field⟩

/-- Compares `a * 10 ^ i` with `b * 2 ^ j`. -/
def compareScaled (a : Nat) (i : Int) (b : Nat) (j : Int) : Ordering :=
  compare (a * Nat.pow 10 i.toNat * Nat.pow 2 (-j).toNat)
    (b * Nat.pow 2 j.toNat * Nat.pow 10 (-i).toNat)

/-- The greatest natural `n` with `n * 10 ^ g` at most the value. -/
def floorAt (x : Binary) (g : Int) : Nat :=
  x.significand * Nat.pow 2 x.exponent.toNat * Nat.pow 10 (-g).toNat /
    (Nat.pow 2 (-x.exponent).toNat * Nat.pow 10 g.toNat)

/-- Whether the decimal lies among the reals that round to the value: between the two midpoints to
its neighbours, which belong to it exactly when its significand is even. -/
def readsBack (x : Binary) (d : Dec) : Bool :=
  -- the midpoints, in quarters of the last place
  let low := 4 * x.significand - (if x.narrowBelow then 1 else 2)
  let high := 4 * x.significand + 2
  let closed := x.significand % 2 = 0
  let fromLow := compareScaled d.digits d.exponent low (x.exponent - 2)
  let fromHigh := compareScaled d.digits d.exponent high (x.exponent - 2)
  (fromLow == .gt || (closed && fromLow == .eq)) && (fromHigh == .lt || (closed && fromHigh == .eq))

/-- The least `k` with the value below `10 ^ k`. Every positive double is at least `10 ^ (-340)`, so
the number of digits before the point, after the point has moved 340 places, tells. -/
def magnitude (x : Binary) : Int :=
  ((Nat.toDigits 10 (x.floorAt (-340))).length : Int) - 340

end Binary

end Flowgraph.Decimal
