import Flowgraph.StringMap
import Flowgraph.Decimal.Format
import Flowgraph.Decimal.Reader

/-!
# JSON values

The values that free JSON denotes: integers of 64 bits stay integers, every other number is a finite
floating-point number, and the members of an object ascend by key. `Json.toCompact` writes a value
without blanks and `Json.toPretty` with a line for each element and two blanks of indentation a
level.

* `Json.Ordered` : every object inside has ascending keys, as those have that were read.
-/

namespace Flowgraph

/-- A JSON number: an integer that fits 64 bits, signed or not, or a finite number. -/
inductive Json.Number where
  | integer (n : Int) (fits : Decimal.minInt64 ≤ n ∧ n ≤ Decimal.maxNat64)
  | real (x : Float) (finite : x.isFinite = true)

/-- A JSON value. An object lists its members, the keys ascending. -/
inductive Json where
  | null
  | bool (b : Bool)
  | number (n : Json.Number)
  | text (s : String)
  | array (items : List Json)
  | object (members : List (String × Json))
deriving Inhabited

namespace Json

/-! ### Numbers -/

namespace Number

/-- An integer, if it fits into 64 bits with or without a sign. -/
def ofInt? (n : Int) : Option Number :=
  if h : Decimal.minInt64 ≤ n ∧ n ≤ Decimal.maxNat64 then some (.integer n h) else none

/-- A number that is finite. -/
def ofFloat? (x : Float) : Option Number :=
  if h : x.isFinite = true then some (.real x h) else none

/-- The number as a double. -/
def toFloat : Number → Float
  | .integer n _ => Decimal.ofInt n
  | .real x _ => x

/-- Numbers in JSON have a point or an exponent unless they are integers; the exponent is written
from `10 ^ 16` on and below `10 ^ (-5)`, always with its sign. -/
def format : Decimal.Format where
  positional e := decide (-5 ≤ e) && decide (e < 16)
  pointZero := true
  exponentPlus := true
  tie := .toEven

/-- The number as it is written. -/
def chars : Number → List Char
  | .integer n _ => Decimal.intDigits n
  | .real x _ => (format.render x).toList

end Number

/-- A natural number as a JSON value; one beyond 64 bits has none and is written as null. -/
def ofNat (n : Nat) : Json := ((Number.ofInt? n).map Json.number).getD .null

/-- What is absent is written as null. -/
def ofOption {α : Type} (f : α → Json) : Option α → Json
  | none => .null
  | some a => f a

/-- A text that may be absent. -/
def ofText? (s : Option String) : Json := ofOption .text s

/-- An object from members in any order; of two with one key the later counts. -/
def ofMembers (members : List (String × Json)) : Json := .object (Entries.ofList members)

/-! ### Order -/

mutual

/-- Every object inside has strictly ascending keys. -/
def Ordered : Json → Prop
  | .array items => AllOrdered items
  | .object members => Entries.Ascending members ∧ MembersOrdered members
  | _ => True

/-- Ordered items. -/
def AllOrdered : List Json → Prop
  | [] => True
  | item :: rest => Ordered item ∧ AllOrdered rest

/-- Members with ordered values. -/
def MembersOrdered : List (String × Json) → Prop
  | [] => True
  | (_, value) :: rest => Ordered value ∧ MembersOrdered rest

end

/-! ### Depth -/

mutual

/-- How many arrays and objects lie around the innermost value. -/
def depth : Json → Nat
  | .array items => itemsDepth items + 1
  | .object members => membersDepth members + 1
  | _ => 0

/-- The depth of the deepest item. -/
def itemsDepth : List Json → Nat
  | [] => 0
  | item :: rest => max (depth item) (itemsDepth rest)

/-- The depth of the deepest member. -/
def membersDepth : List (String × Json) → Nat
  | [] => 0
  | (_, value) :: rest => max (depth value) (membersDepth rest)

end

end Json

end Flowgraph
