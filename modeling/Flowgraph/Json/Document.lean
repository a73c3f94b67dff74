import Flowgraph.Json.Token
import Flowgraph.Json.Basic

/-!
# JSON documents

A document is a JSON text as it was written: members in their order and with repetitions, numbers
as decimals, arrays and objects of any depth. What a document denotes depends on the reader.

* `Document.toJson?` reads free JSON, where the last of several members with one key counts, numbers
  have to be in range and at most `maxDepth` arrays and objects may be nested.
* `Document.record?` reads the members of a record, which may also be written as an array.
-/

namespace Flowgraph

/-- A JSON text as it was written. -/
inductive Json.Document where
  | null
  | bool (b : Bool)
  | number (n : Json.Numeral)
  /-- A string; one with half a surrogate pair is no text. -/
  | text (s : Option String)
  | array (items : List Json.Document)
  | object (members : List (Option String × Json.Document))
deriving Inhabited

namespace Json.Document

/-! ### Reading a document

Every call is made on fewer tokens than the one that makes it, so the number of tokens is fuel
enough. -/

mutual

/-- Reads one value off a list of tokens. -/
def value : Nat → List Token → Option (Document × List Token)
  | 0, _ => none
  | fuel + 1, ts =>
    match ts with
    | .null :: rest => some (.null, rest)
    | .bool b :: rest => some (.bool b, rest)
    | .number n :: rest => some (.number n, rest)
    | .text s :: rest => some (.text s, rest)
    | .openArray :: .closeArray :: rest => some (.array [], rest)
    | .openArray :: rest => do
      let (first, rest) ← value fuel rest
      let (others, rest) ← items fuel rest
      return (.array (first :: others), rest)
    | .openObject :: .closeObject :: rest => some (.object [], rest)
    | .openObject :: .text key :: .colon :: rest => do
      let (first, rest) ← value fuel rest
      let (others, rest) ← members fuel rest
      return (.object ((key, first) :: others), rest)
    | _ => none

/-- The items of an array, up to its end. -/
def items : Nat → List Token → Option (List Document × List Token)
  | 0, _ => none
  | fuel + 1, ts =>
    match ts with
    | .closeArray :: rest => some ([], rest)
    | .comma :: rest => do
      let (next, rest) ← value fuel rest
      let (others, rest) ← items fuel rest
      return (next :: others, rest)
    | _ => none

/-- The members of an object, up to its end. -/
def members : Nat → List Token → Option (List (Option String × Document) × List Token)
  | 0, _ => none
  | fuel + 1, ts =>
    match ts with
    | .closeObject :: rest => some ([], rest)
    | .comma :: .text key :: .colon :: rest => do
      let (next, rest) ← value fuel rest
      let (others, rest) ← members fuel rest
      return ((key, next) :: others, rest)
    | _ => none

end

/-- Reads a text that holds one document and nothing else. -/
def parse? (s : String) : Option Document := do
  let ts ← tokens s.toList
  let (d, rest) ← value (ts.length + 1) ts
  if rest = [] then some d else none

end Json.Document

/-! ### Free JSON -/

namespace Json

/-- How many arrays and objects free JSON may nest. -/
def maxDepth : Nat := 127

/-- The number that a numeral denotes: an integer if it was written as one, is not a negative zero
and fits, else the nearest number unless that is infinite. -/
def Numeral.toNumber? (n : Numeral) : Option Number :=
  let magnitude := n.value.digits
  let whole := if n.negative && magnitude ≠ 0 then Number.ofInt? (-(magnitude : Int))
    else if n.negative then none
    else Number.ofInt? magnitude
  let real :=
    let x := Decimal.toFloat n.value
    Number.ofFloat? (if n.negative then -x else x)
  if n.integral then whole <|> real else real

namespace Document

mutual

/-- The free JSON that a document denotes, with `room` levels of nesting left. -/
def toJson? (room : Nat) : Document → Option Json
  | .null => some .null
  | .bool b => some (.bool b)
  | .number n => n.toNumber?.map .number
  | .text s => s.map .text
  | .array items =>
    match room with
    | 0 => none
    | room + 1 => (itemsToJson? room items).map .array
  | .object members =>
    match room with
    | 0 => none
    | room + 1 => (membersToJson? room members).map Json.ofMembers

/-- What items denote. -/
def itemsToJson? (room : Nat) : List Document → Option (List Json)
  | [] => some []
  | item :: rest => do
    let item ← toJson? room item
    let rest ← itemsToJson? room rest
    return item :: rest

/-- What members denote. -/
def membersToJson? (room : Nat) : List (Option String × Document) → Option (List (String × Json))
  | [] => some []
  | (key, value) :: rest => do
    let key ← key
    let value ← toJson? room value
    let rest ← membersToJson? room rest
    return (key, value) :: rest

end

end Document

/-- Reads a value that is not nested too deeply. -/
def parse? (s : String) : Option Json := do
  let d ← Document.parse? s
  d.toJson? maxDepth

namespace Document

/-! ### Records -/

/-- A string. -/
def text? : Document → Option String
  | .text s => s
  | _ => none

/-- A text, or nothing for null. -/
def nullable? {α : Type} (read : Document → Option α) : Document → Option (Option α)
  | .null => some none
  | d => (read d).map some

/-- A natural number up to a bound, written without point, exponent and sign. -/
def nat? (high : Nat) : Document → Option Nat
  | .number n =>
    if n.integral && !n.negative && n.value.digits ≤ high then some n.value.digits else none
  | _ => none

/-- The position of a member in a record whose members go by the given names. -/
def memberIndex? (names : List (List String)) (key : String) : Option Nat :=
  names.findIdx? (·.contains key)

/-- Puts the members of an object into the places of a record. A key may occur once, under whichever
of its names; members of other names are passed over. -/
def placeMembers (names : List (List String)) :
    List (Option String × Document) → List (Option Document) → Option (List (Option Document))
  | [], places => some places
  | (key, value) :: rest, places => do
    let key ← key
    match memberIndex? names key with
    | none => placeMembers names rest places
    | some i =>
      match places[i]? with
      | some none => placeMembers names rest (places.set i (some value))
      | _ => none

/-- The members of a record with the given names, each with its value if there is one. A record is
written as an object, or as an array of the leading members in order. -/
def record? (names : List (List String)) : Document → Option (List (Option Document))
  | .object members => placeMembers names members (names.map fun _ => none)
  | .array items =>
    if items.length ≤ names.length then
      some (items.map some ++ List.replicate (names.length - items.length) none)
    else none
  | _ => none

/-- Reads a member, or takes the default where it is left out. -/
def orDefault {α : Type} (read : Document → Option α) (default : α) : Option Document → Option α
  | none => some default
  | some d => read d

/-- The entries of a map with the given reading of values; the last of several with one key counts,
but all have to be readable. -/
def map? {α : Type} (read : Document → Option α) : Document → Option (StringMap α)
  | .object members => do
    let entries ← members.mapM fun (key, value) => do return (← key, ← read value)
    return StringMap.ofList entries
  | _ => none

/-- Reads the items of an array. -/
def list? {α : Type} (read : Document → Option α) : Document → Option (List α)
  | .array items => items.mapM read
  | _ => none

end Document

end Json

end Flowgraph
