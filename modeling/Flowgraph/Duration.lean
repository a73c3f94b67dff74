import Flowgraph.Decimal.Format
import Flowgraph.Decimal.Reader

/-!
# Durations

Lengths of time in whole nanoseconds. A duration is shown in the greatest of seconds, milliseconds,
microseconds and nanoseconds that it holds at least one of, with as many decimals as it needs.

* `Duration.ofSeconds?` rounds a number of seconds to the nearest nanosecond.
-/

namespace Flowgraph

/-- A length of time, in nanoseconds. -/
structure Duration where
  nanos : Nat
deriving DecidableEq, Inhabited

namespace Duration

/-- No time. -/
def zero : Duration := ⟨0⟩

/-- So many milliseconds. -/
def ofMillis (ms : Nat) : Duration := ⟨ms * 1000000⟩

/-- The longest duration: one nanosecond short of `2 ^ 64` seconds. -/
def longest : Duration := ⟨Nat.pow 2 64 * 1000000000 - 1⟩

/-- The milliseconds after which the duration has passed. -/
def ceilMillis (d : Duration) : Nat := (d.nanos + 999999) / 1000000

@[simp] theorem ceilMillis_ofMillis (ms : Nat) : (ofMillis ms).ceilMillis = ms := by
  simp only [ofMillis, ceilMillis]
  rw [Nat.mul_comm, Nat.mul_add_div (Nat.succ_pos _), Nat.div_eq_of_lt (Nat.lt_succ_self _)]
  exact Nat.add_zero ms

/-- A quantity in units of `unit` nanoseconds: the whole units, and behind a point the rest without
the zeros it ends with. -/
def inUnits (nanos unit : Nat) : List Char :=
  let whole := Decimal.natDigits (nanos / unit)
  let rest := nanos % unit
  if rest = 0 then whole
  else
    let places := (Decimal.natDigits unit).length - 1
    let digits := Decimal.natDigits rest
    let padded := List.replicate (places - digits.length) '0' ++ digits
    whole ++ '.' :: (padded.reverse.dropWhile (· = '0')).reverse

/-- A length of time in the largest unit that it fills, without zeros at the end. -/
def text (d : Duration) : String :=
  if 1000000000 ≤ d.nanos then String.ofList (inUnits d.nanos 1000000000) ++ "s"
  else if 1000000 ≤ d.nanos then String.ofList (inUnits d.nanos 1000000) ++ "ms"
  else if 1000 ≤ d.nanos then String.ofList (inUnits d.nanos 1000) ++ "µs"
  else String.ofList (inUnits d.nanos 1) ++ "ns"

/-- A quotient rounded to the nearest natural, a tie to the even one. -/
def roundDiv (a b : Nat) : Nat :=
  let q := a / b
  match compare (2 * (a % b)) b with
  | .lt => q
  | .gt => q + 1
  | .eq => if q % 2 = 0 then q else q + 1

/-- A number of seconds, rounded to the nearest nanosecond; only finite numbers from zero up to the
longest duration have one. -/
def ofSeconds? (x : Float) : Option Duration :=
  if x.isNaN || x.isInf || x < 0 then none
  else
    let b := Decimal.Binary.ofFloat x
    let nanos := roundDiv (b.significand * 1000000000 * Nat.pow 2 b.exponent.toNat)
      (Nat.pow 2 (-b.exponent).toNat)
    if nanos ≤ longest.nanos then some ⟨nanos⟩ else none

end Duration

end Flowgraph
