import Flowgraph.Event

/-!
# Values

What a walk carries from node to node: booleans, numbers, texts, and structured values, whose fields
can be looked up by name. A structured value is an event, or a JSON array or object.

* `Value.ofJson?` turns JSON into a value; null has none.
* `Value.field?` looks a field up.
-/

namespace Flowgraph

/-- The kinds of value that a reading can ask for. -/
inductive ValueKind where
  /-- Whatever is there. -/
  | any
  | boolean
  | number
  | text
deriving DecidableEq

/-- The name of a kind, as messages give it. -/
def ValueKind.name : ValueKind → String
  | .any => "any"
  | .boolean => "boolean"
  | .number => "number"
  | .text => "text"

/-- The tag of a kind, as stored data gives it. -/
def ValueKind.tag : ValueKind → String
  | .any => "any"
  | .boolean => "bool"
  | .number => "number"
  | .text => "text"

/-- The kind of a tag. -/
def ValueKind.ofTag? (tag : String) : Option ValueKind :=
  [ValueKind.any, .boolean, .number, .text].find? (·.tag = tag)

/-- A value with fields. -/
inductive Structured where
  | event (e : Event)
  | json (j : Json)

/-- A value of a variable. -/
inductive Value where
  | boolean (b : Bool)
  | number (x : Float)
  | text (s : String)
  | structured (s : Structured)
deriving Inhabited

/-- A value with fields, as a text. -/
def Structured.display : Structured → String
  | .event e => e.text
  | .json j => j.toCompact

/-- A boolean as a text. -/
def boolText (b : Bool) : String := if b then "true" else "false"

namespace Value

/-- An integer as a value. -/
def ofInt (n : Int) : Value := .number (Decimal.ofInt n)

/-- The value of JSON: arrays and objects are structured, null has no value. -/
def ofJson? : Json → Option Value
  | .null => none
  | .bool b => some (.boolean b)
  | .number n => some (.number n.toFloat)
  | .text s => some (.text s)
  | j => some (.structured (.json j))

/-- The kind of a value. One with fields has none of its own. -/
def kind : Value → ValueKind
  | .boolean _ => .boolean
  | .number _ => .number
  | .text _ => .text
  | .structured _ => .any

/-- A value as a text. -/
def display : Value → String
  | .boolean b => boolText b
  | .number x => Decimal.plain.render x
  | .text s => s
  | .structured s => s.display

/-- The text of a value shown as data, with its kind; structured values have none. -/
def explicit? : Value → Option String
  | .boolean b => some ("Bool(" ++ boolText b ++ ")")
  | .number x => some ("Number(" ++ Decimal.explicit.render x ++ ")")
  | .text s => some ("Text(" ++ Text.quoted s ++ ")")
  | .structured _ => none

/-- A value as a number: numbers are, texts may read as one. -/
def asNumber? : Value → Option Float
  | .number x => some x
  | .text s => Decimal.readNumber (Text.trim s.toList)
  | _ => none

/-- Reads a boolean, in upper or lower case. -/
def readBool (s : List Char) : Option Bool :=
  if Decimal.isWord "true" s then some true
  else if Decimal.isWord "false" s then some false
  else none

/-- A value as a boolean, if it can be read as one. -/
def asBool? : Value → Option Bool
  | .boolean b => some b
  | .text s => readBool s.toList
  | _ => none

/-- Whether two values are equal. Structured values are compared by identity, which the values do
not show: `shared` tells whether both are the same object. -/
def equal (shared : Bool) : Value → Value → Bool
  | .boolean a, .boolean b => a == b
  | .number a, .number b => a == b
  | .text a, .text b => a == b
  | .structured _, .structured _ => shared
  | _, _ => false

end Value

/-! ### Fields -/

/-- The JSON value inside an array or object: an element by its position, a member by its key. -/
def Json.child? : Json → String → Option Json
  | .object members, name => members.lookup name
  | .array items, name => (Decimal.readNat64 name.toList).bind (items[·]?)
  | _, _ => none

/-- A field of an event. -/
def Event.field? : Event → String → Option Value
  | .playerJoin name, f => if f = "name" then some (.text name) else none
  | .playerChat name message, f =>
    if f = "name" then some (.text name)
    else if f = "message" then some (.text message)
    else none
  | .server phase, f => if f = "name" then some (.text phase.name) else none
  | .described _ data, f => (data.child? f).bind Value.ofJson?

/-- A field of a value that has fields. -/
def Structured.field? : Structured → String → Option Value
  | .event e, name => e.field? name
  | .json j, name => (j.child? name).bind Value.ofJson?

/-- The field of a value; only structured values have fields. -/
def Value.field? : Value → String → Option Value
  | .structured s, name => s.field? name
  | _, _ => none

end Flowgraph
