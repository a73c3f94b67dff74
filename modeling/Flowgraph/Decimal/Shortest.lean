import Flowgraph.Decimal.Binary

/-!
# The fewest digits that read back

A number is written with the fewest significant digits that read back to it, and of two such
decimals with the nearer one. Only the exact tie between two decimals of the same length is left to
the format: `Tie` names the two ways out.

`shortest` tries grids from coarse to fine. On each grid the only candidates are the neighbours of
the value, for if any point of a grid reads back then so does one of the two next to the value.
-/

namespace Flowgraph.Decimal

/-- Which of two equally near decimals is written. -/
inductive Tie where
  | toEven
  | away
deriving DecidableEq

/-- The decimal without the zeros its digits end with; `room` bounds their number. -/
def Dec.strip (d : Dec) : Nat → Dec
  | 0 => d
  | room + 1 =>
    if d.digits ≠ 0 ∧ d.digits % 10 = 0 then Dec.strip ⟨d.digits / 10, d.exponent + 1⟩ room else d

namespace Binary

/-- The decimal that stands for the value on the grid of multiples of `10 ^ g`, if one reads back:
the nearer of the value's two neighbours, or the only one of them that reads back. -/
def candidate (x : Binary) (tie : Tie) (g : Int) : Option Dec :=
  let low := x.floorAt g
  let below : Dec := ⟨low, g⟩
  let above : Dec := ⟨low + 1, g⟩
  match x.readsBack below, x.readsBack above with
  | false, false => none
  | true, false => some below
  | false, true => some above
  | true, true =>
    -- both read back: the midpoint between them tells which is nearer
    match compareScaled (2 * low + 1) g (2 * x.significand) x.exponent with
    | .gt => some below
    | .lt => some above
    | .eq =>
      match tie with
      | .away => some above
      | .toEven => some (if low % 2 = 0 then below else above)

/-- The decimal with all digits. -/
def exact (x : Binary) : Dec :=
  if 0 ≤ x.exponent then ⟨x.significand * Nat.pow 2 x.exponent.toNat, 0⟩
  else ⟨x.significand * Nat.pow 5 (-x.exponent).toNat, x.exponent⟩

/-- The shortest decimal that reads back to a positive value. Seventeen digits always suffice. -/
def shortest (x : Binary) (tie : Tie) : Dec :=
  let k := x.magnitude
  -- the grid of `n + 1` significant digits, for each `n`
  let found := (List.range 17).findSome? fun n : Nat => x.candidate tie (k - 1 - (n : Int))
  let d := found.getD x.exact
  d.strip (Nat.toDigits 10 d.digits).length

end Binary

end Flowgraph.Decimal
