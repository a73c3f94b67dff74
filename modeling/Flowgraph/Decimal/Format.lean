import Flowgraph.Decimal.Shortest

/-!
# Number formats

What is left of writing a number once its digits are chosen: where the point stands, when an
exponent is written, and how. A `Format` holds these decisions, and `Format.render` follows them.
-/

namespace Flowgraph.Decimal

/-- The decisions of a number format. -/
structure Format where
  /-- Whether a number is written without an exponent, by the exponent of its leading digit. -/
  positional : Int → Bool
  /-- Whether an integral number ends in `.0`. -/
  pointZero : Bool
  exponentPlus : Bool
  tie : Tie

/-- The decimal digits of a natural number. -/
def natDigits (n : Nat) : List Char := Nat.toDigits 10 n

/-- The decimal digits of an integer, with a sign if it is negative. -/
def intDigits (n : Int) : List Char :=
  if n < 0 then '-' :: natDigits n.natAbs else natDigits n.natAbs

namespace Format

/-- The digits with the point `places` after the first of them; a negative count puts zeros in
front, and a count beyond the digits puts zeros behind. -/
def pointed (f : Format) (digits : List Char) (places : Int) : List Char :=
  if places ≤ 0 then
    '0' :: '.' :: List.replicate (-places).toNat '0' ++ digits
  else if digits.length ≤ places.toNat then
    digits ++ List.replicate (places.toNat - digits.length) '0' ++
      (if f.pointZero then ['.', '0'] else [])
  else
    digits.take places.toNat ++ '.' :: digits.drop places.toNat

/-- One digit, the others behind a point, and the exponent of the leading digit. -/
def scientific (f : Format) (digits : List Char) (leading : Int) : List Char :=
  digits.take 1
    ++ (if digits.length ≤ 1 then [] else '.' :: digits.drop 1)
    ++ 'e' :: (if f.exponentPlus && 0 < leading then ['+'] else [])
    ++ intDigits leading

/-- A decimal whose digits are not zero. -/
def layout (f : Format) (d : Dec) : List Char :=
  let digits := natDigits d.digits
  let leading := d.exponent + (digits.length : Int) - 1
  if f.positional leading then f.pointed digits (leading + 1) else f.scientific digits leading

/-- The text of a number: its sign (zero has one), then its name or its shortest digits. -/
def render (f : Format) (x : Float) : String :=
  if x.isNaN then "NaN"
  else
    let sign := if Nat.pow 2 63 ≤ x.toBits.toNat then ['-'] else []
    let body :=
      if x.isInf then ['i', 'n', 'f']
      else
        let b := Binary.ofFloat x
        if b.significand = 0 then '0' :: (if f.pointZero then ['.', '0'] else [])
        else f.layout (b.shortest f.tie)
    String.ofList (sign ++ body)

end Format

/-- Numbers shown to a reader: never an exponent, no `.0`. -/
def plain : Format where
  positional _ := true
  pointZero := false
  exponentPlus := false
  tie := .away

/-- Numbers shown as data in a message: an exponent from `10 ^ 16` on and below `10 ^ (-4)`. -/
def explicit : Format where
  positional e := decide (-4 ≤ e) && decide (e < 16)
  pointZero := true
  exponentPlus := false
  tie := .away

end Flowgraph.Decimal
