import Flowgraph.Decimal.Format
import Flowgraph.Decimal.Reader
import Flowgraph.Text.Quoted

/-!
# The tokens of an expression

An expression consists of numbers, variables between double braces, the four operators and round
brackets; spaces, tabs and line ends between them do not count. Every token carries the position at
which it starts, in bytes of UTF-8.

* `Lexeme.scan` cuts a text into tokens or finds the first place that starts none.
-/

namespace Flowgraph.Expression

/-- The lexical elements of an expression. -/
inductive Token where
  | number (x : Float)
  /-- A dotted path between double braces. -/
  | path (path : String)
  | plus
  | minus
  | star
  | slash
  | openParen
  | closeParen

namespace Token

/-- A token as an error shows it. -/
def text : Token → String
  | number x => "Number(" ++ Decimal.explicit.render x ++ ")"
  | path p => "Variable(" ++ Text.quoted p ++ ")"
  | plus => "Plus"
  | minus => "Minus"
  | star => "Star"
  | slash => "Slash"
  | openParen => "LParen"
  | closeParen => "RParen"

/-- The token of a single character. -/
def ofChar? : Char → Option Token
  | '+' => some .plus
  | '-' => some .minus
  | '*' => some .star
  | '/' => some .slash
  | '(' => some .openParen
  | ')' => some .closeParen
  | _ => none

end Token

/-- Why a text is no expression. -/
inductive Fault where
  | empty
  /-- Two opening braces without two closing ones. -/
  | unterminated
  /-- A variable without a path, or with a brace in it. -/
  | badVariable
  /-- Digits and points that form no number. -/
  | badNumber (text : String)
  | unexpectedChar (c : Char)
  | unexpectedToken (t : Token)
  /-- The expression stops where an operand is due. -/
  | unexpectedEnd
  | expectedClose
  /-- More levels than the parser builds. -/
  | tooDeep

/-- The greatest number of levels that are open at once while an expression is parsed. -/
def maxDepth : Nat := 256

/-- What is wrong with an expression. -/
def Fault.message : Fault → String
  | .empty => "empty expression"
  | .unterminated => "unterminated '\x7b\x7b'"
  | .badVariable => "empty or nested variable"
  | .badNumber text => "bad number '" ++ text ++ "'"
  | .unexpectedChar c => "unexpected character '" ++ String.ofList [c] ++ "'"
  | .unexpectedToken t => "unexpected " ++ t.text
  | .unexpectedEnd => "unexpected end of expression"
  | .expectedClose => "expected ')'"
  | .tooDeep => "expression nested deeper than " ++ toString maxDepth

/-- A token and the position of its first byte. -/
structure Lexeme where
  token : Token
  start : Nat

/-- The result of a step that may find a fault at a position. -/
abbrev Located (α : Type) := Except (Nat × Fault) α

/-- White space between tokens. -/
def isSpace (c : Char) : Bool := c = ' ' || c = '\t' || c = '\n' || c = '\r'

/-- A character of a number. -/
def isNumeric (c : Char) : Bool := Decimal.isDigit c || c = '.'

/-- Splits a text at its first two closing braces. -/
def cutAtClose : List Char → Option (List Char × List Char)
  | [] => none
  | '\x7d' :: '\x7d' :: rest => some ([], rest)
  | c :: rest => (cutAtClose rest).map fun (body, after) => (c :: body, after)

/-- What stands between the braces of a variable, if it is a path. -/
def pathOf? (body : List Char) : Option String :=
  let path := Text.trim body
  if path = [] ∨ '\x7b' ∈ path then none else some (String.ofList path)

theorem length_cutAtClose {s body rest : List Char} (h : cutAtClose s = some (body, rest)) :
    rest.length + body.length + 2 = s.length := by
  -- along the search for the two closing braces
  induction s using cutAtClose.induct generalizing body with
  | case1 => simp [cutAtClose] at h
  | case2 r =>
    simp only [cutAtClose, Option.some.injEq, Prod.mk.injEq] at h
    obtain ⟨rfl, rfl⟩ := h
    simp
  | case3 c r hne ih =>
    rw [cutAtClose] at h
    · simp only [Option.map_eq_some_iff, Prod.exists, Prod.mk.injEq] at h
      obtain ⟨b, r', hb, rfl, rfl⟩ := h
      have := ih hb
      simp only [List.length_cons]
      omega
    · exact hne

/-- Cuts a text into tokens, counting positions from the given one. -/
def Lexeme.scanFrom (pos : Nat) (s : List Char) : Located (List Lexeme) :=
  match s with
  | [] => .ok []
  | c :: rest =>
    if isSpace c then scanFrom (pos + 1) rest
    else match Token.ofChar? c with
      | some t => (scanFrom (pos + 1) rest).map (⟨t, pos⟩ :: ·)
      | none =>
        if isNumeric c then
          let text := (c :: rest).takeWhile isNumeric
          match Decimal.readNumber text with
          | none => .error (pos, .badNumber (String.ofList text))
          | some x =>
            (scanFrom (pos + text.length) (rest.dropWhile isNumeric)).map (⟨.number x, pos⟩ :: ·)
        else
          match c, rest with
          | '\x7b', '\x7b' :: inner =>
            match _h : cutAtClose inner with
            | none => .error (pos, .unterminated)
            | some (body, after) =>
              match pathOf? body with
              | none => .error (pos, .badVariable)
              | some path =>
                -- the four braces count besides what is between them
                (scanFrom (pos + Text.byteLength body + 4) after).map (⟨.path path, pos⟩ :: ·)
          | _, _ => .error (pos, .unexpectedChar c)
termination_by s.length
decreasing_by
  · simp
  · simp
  · have := (List.dropWhile_suffix isNumeric (l := rest)).length_le
    simp only [List.length_cons]
    omega
  · have := length_cutAtClose _h
    simp only [List.length_cons]
    omega

/-- The tokens of a text, of which there has to be one at least. -/
def Lexeme.scan (s : List Char) : Located (List Lexeme) :=
  match scanFrom 0 s with
  | .error e => .error e
  | .ok [] => .error (0, .empty)
  | .ok ts => .ok ts

end Flowgraph.Expression
