import Flowgraph.Decimal.Binary
import Flowgraph.Decimal.Word

/-!
# Reading numbers

The grammar of a number text is an optional sign, then `inf`, `infinity` or `nan` in any case, or
digits with at most one point among or around them and an optional exponent. The value is the number
nearest to the decimal, ties going to the even one. Integers are an optional sign and digits, and
have to fit the bounds they are read for.
-/

namespace Flowgraph.Decimal

/-- A decimal digit. -/
def isDigit (c : Char) : Bool := '0' ≤ c && c ≤ '9'

/-- The value of a digit. -/
def digitValue (c : Char) : Nat := c.toNat - '0'.toNat

/-- The number that a list of digits denotes, most significant first. -/
def digitsValue (ds : List Char) : Nat := ds.foldl (fun n c => 10 * n + digitValue c) 0

/-- The number nearest to `digits * 10 ^ exponent`; beyond the range of numbers it is infinite, and
far below the least positive number it is zero. -/
def toFloat (d : Dec) : Float :=
  if d.digits = 0 then 0
  else
    -- far out of range the power of ten is never computed
    let leading := d.exponent + ((Nat.toDigits 10 d.digits).length : Int)
    if 400 < leading then 1.0 / 0.0
    else if leading < -400 then 0
    else Float.ofScientific d.digits (decide (d.exponent < 0)) d.exponent.natAbs

/-- The double nearest to an integer. -/
def ofInt (n : Int) : Float :=
  let x := toFloat ⟨n.natAbs, 0⟩
  if n < 0 then -x else x

/-- Takes a sign off a text; `true` stands for minus. -/
def takeSign : List Char → Bool × List Char
  | '-' :: rest => (true, rest)
  | '+' :: rest => (false, rest)
  | rest => (false, rest)

/-- Reads an exponent: nothing at all, or `e` in either case, an optional sign and digits. -/
def readExponent : List Char → Option Int
  | [] => some 0
  | c :: rest =>
    if c = 'e' ∨ c = 'E' then
      let (negative, ds) := takeSign rest
      if ds ≠ [] ∧ ds.all isDigit then
        let n : Int := digitsValue ds
        some (if negative then -n else n)
      else none
    else none

/-- Reads an unsigned decimal: digits with at most one point, at least one digit, and an optional
exponent. -/
def readDec (s : List Char) : Option Dec :=
  let whole := s.takeWhile isDigit
  let rest := s.dropWhile isDigit
  let (fraction, rest) :=
    match rest with
    | '.' :: rest => (rest.takeWhile isDigit, rest.dropWhile isDigit)
    | rest => ([], rest)
  if whole = [] ∧ fraction = [] then none
  else (readExponent rest).map fun e =>
    ⟨digitsValue (whole ++ fraction), e - (fraction.length : Int)⟩

/-- Whether a text is a given lower-case word, in any mixture of cases of ASCII letters. -/
def isWord (word : String) (s : List Char) : Bool := s.map Char.toLower == word.toList

/-- Reads a double: digits with a point or an exponent, or the word for infinity or for no
number. -/
def readNumber (s : List Char) : Option Float :=
  let (negative, body) := takeSign s
  let magnitude :=
    if isWord "inf" body || isWord "infinity" body then some (1.0 / 0.0)
    else if isWord "nan" body then some (0.0 / 0.0)
    else (readDec body).map toFloat
  magnitude.map fun x => if negative then -x else x

/-- Reads an integer with an optional sign that lies within the bounds. -/
def readInt (low high : Int) (s : List Char) : Option Int :=
  let (negative, ds) := takeSign s
  if ds ≠ [] ∧ ds.all isDigit then
    let n : Int := if negative then -(digitsValue ds : Int) else digitsValue ds
    if low ≤ n ∧ n ≤ high then some n else none
  else none

/-- Reads a natural number, after an optional plus sign, that is at most the bound. -/
def readNat (high : Nat) (s : List Char) : Option Nat :=
  let ds := match s with
    | '+' :: rest => rest
    | _ => s
  if ds ≠ [] ∧ ds.all isDigit ∧ digitsValue ds ≤ high then some (digitsValue ds) else none

/-- Reads an integer in 64 bits. -/
def readInt64 : List Char → Option Int := readInt minInt64 maxInt64

/-- Reads a natural number in 64 bits. -/
def readNat64 : List Char → Option Nat := readNat maxNat64

end Flowgraph.Decimal
