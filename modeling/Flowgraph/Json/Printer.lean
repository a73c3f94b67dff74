import Flowgraph.Json.Basic
import Flowgraph.Text.Quoted

/-!
# Writing JSON

Strings are written as they are, except that quotes and backslashes get a backslash, five control
characters a letter, and the other control characters below the blank four hexadecimal digits.
`Json.toCompact` puts nothing between the tokens. `Json.toPretty` gives every element and member a
line of its own and writes an empty array or object as a pair of brackets.
-/

namespace Flowgraph.Json

/-- Four hexadecimal digits. -/
def fourHex (n : Nat) : List Char :=
  let ds := Text.hexDigits n
  List.replicate (4 - ds.length) '0' ++ ds

/-- How a character stands in a JSON string. -/
def escape (c : Char) : List Char :=
  match c with
  | '"' => ['\\', '"']
  | '\\' => ['\\', '\\']
  | '\x08' => ['\\', 'b']
  | '\x0c' => ['\\', 'f']
  | '\n' => ['\\', 'n']
  | '\r' => ['\\', 'r']
  | '\t' => ['\\', 't']
  | _ => if c.toNat < 0x20 then '\\' :: 'u' :: fourHex c.toNat else [c]

/-- A string in double quotes. -/
def stringChars (s : String) : List Char := '"' :: s.toList.flatMap escape ++ ['"']

/-- What is neither an array nor an object, as it is written. -/
def scalarChars : Json → List Char
  | .bool true => ['t', 'r', 'u', 'e']
  | .bool false => ['f', 'a', 'l', 's', 'e']
  | .number n => n.chars
  | .text s => stringChars s
  | _ => ['n', 'u', 'l', 'l']

/-! ### Compact -/

mutual

/-- A value without blanks. -/
def compactChars : Json → List Char
  | .array [] => ['[', ']']
  | .array (item :: rest) => '[' :: compactChars item ++ compactItems rest ++ [']']
  | .object [] => ['\x7b', '\x7d']
  | .object ((key, value) :: rest) =>
    '\x7b' :: stringChars key ++ ':' :: compactChars value ++ compactMembers rest ++ ['\x7d']
  | scalar => scalarChars scalar

/-- The items behind the first one, each with the comma before it. -/
def compactItems : List Json → List Char
  | [] => []
  | item :: rest => ',' :: compactChars item ++ compactItems rest

/-- The members behind the first one, each with the comma before it. -/
def compactMembers : List (String × Json) → List Char
  | [] => []
  | (key, value) :: rest =>
    ',' :: stringChars key ++ ':' :: compactChars value ++ compactMembers rest

end

/-- The text without white space. -/
def toCompact (j : Json) : String := String.ofList (compactChars j)

/-! ### Pretty -/

/-- A new line, indented by two blanks for each level. -/
def newLine (level : Nat) : List Char := '\n' :: List.replicate (2 * level) ' '

mutual

/-- A value whose elements stand on lines of their own, one level deeper. -/
def prettyChars (level : Nat) : Json → List Char
  | .array [] => ['[', ']']
  | .array (item :: rest) =>
    '[' :: newLine (level + 1) ++ prettyChars (level + 1) item ++ prettyItems (level + 1) rest
      ++ newLine level ++ [']']
  | .object [] => ['\x7b', '\x7d']
  | .object ((key, value) :: rest) =>
    '\x7b' :: newLine (level + 1) ++ stringChars key ++ ':' :: ' ' :: prettyChars (level + 1) value
      ++ prettyMembers (level + 1) rest ++ newLine level ++ ['\x7d']
  | scalar => scalarChars scalar

/-- The items behind the first one, each on a line of its own. -/
def prettyItems (level : Nat) : List Json → List Char
  | [] => []
  | item :: rest => ',' :: newLine level ++ prettyChars level item ++ prettyItems level rest

/-- The members behind the first one, each on a line of its own. -/
def prettyMembers (level : Nat) : List (String × Json) → List Char
  | [] => []
  | (key, value) :: rest =>
    ',' :: newLine level ++ stringChars key ++ ':' :: ' ' :: prettyChars level value
      ++ prettyMembers level rest

end

/-- The text with one item or member to a line. -/
def toPretty (j : Json) : String := String.ofList (prettyChars 0 j)

end Flowgraph.Json
