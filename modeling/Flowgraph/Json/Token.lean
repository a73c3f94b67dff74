import Flowgraph.Decimal.Reader
import Flowgraph.Text.Blank

/-!
# The tokens of a JSON text

The first half of reading JSON cuts a text into tokens. A number is kept as the decimal that was
written, and a string as the text it denotes, or as nothing when one of its escapes is half a
surrogate pair: such a string is well formed but no text.

* `length_scanString_lt`, `length_scanNumber_lt` : each scanner leaves less than it was given.
-/

namespace Flowgraph.Json

/-- A number as it was written. -/
structure Numeral where
  negative : Bool
  value : Decimal.Dec
  /-- Written without point and exponent. -/
  integral : Bool
deriving DecidableEq

/-- The lexical elements of a JSON text. -/
inductive Token where
  | openObject
  | closeObject
  | openArray
  | closeArray
  | colon
  | comma
  | null
  | bool (b : Bool)
  | number (n : Numeral)
  | text (s : Option String)
deriving DecidableEq

/-- The white space of JSON: space, tab, line feed, carriage return. -/
def isSpace (c : Char) : Bool := c = ' ' || c = '\t' || c = '\n' || c = '\r'

/-! ### Strings -/

/-- A piece of a string: a character, or a unit of 16 bits given by an escape. -/
inductive Piece where
  | char (c : Char)
  | unit (n : Nat)

/-- The value of a hexadecimal digit. -/
def hexValue? (c : Char) : Option Nat :=
  if '0' ≤ c && c ≤ '9' then some (c.toNat - '0'.toNat)
  else if 'a' ≤ c && c ≤ 'f' then some (c.toNat - 'a'.toNat + 10)
  else if 'A' ≤ c && c ≤ 'F' then some (c.toNat - 'A'.toNat + 10)
  else none

/-- The value of four hexadecimal digits. -/
def fourHexValue? (a b c d : Char) : Option Nat := do
  return (← hexValue? a) * 0x1000 + (← hexValue? b) * 0x100 + (← hexValue? c) * 0x10
    + (← hexValue? d)

/-- The character that a letter behind a backslash stands for. -/
def unescape? : Char → Option Char
  | '"' => some '"'
  | '\\' => some '\\'
  | '/' => some '/'
  | 'b' => some '\x08'
  | 'f' => some '\x0c'
  | 'n' => some '\n'
  | 'r' => some '\r'
  | 't' => some '\t'
  | _ => none

/-- Reads what follows an opening quote: the pieces up to the closing quote, and the rest of the
text. Control characters have to be escaped. -/
def scanString : List Char → Option (List Piece × List Char)
  | [] => none
  | '"' :: rest => some ([], rest)
  | '\\' :: 'u' :: a :: b :: c :: d :: rest => do
    let n ← fourHexValue? a b c d
    let (pieces, rest) ← scanString rest
    return (.unit n :: pieces, rest)
  | '\\' :: c :: rest => do
    let plain ← unescape? c
    let (pieces, rest) ← scanString rest
    return (.char plain :: pieces, rest)
  | c :: rest =>
    if c.toNat < 0x20 || c = '\\' then none
    else do
      let (pieces, rest) ← scanString rest
      return (.char c :: pieces, rest)

/-- The first half of a pair of surrogates. -/
def isHighSurrogate (n : Nat) : Bool := 0xD800 ≤ n && n < 0xDC00

/-- The second half of a pair of surrogates. -/
def isLowSurrogate (n : Nat) : Bool := 0xDC00 ≤ n && n < 0xE000

/-- The text that the pieces of a string denote: two units that form a surrogate pair are one
character, and half a pair is none. -/
def joinPieces : List Piece → Option (List Char)
  | [] => some []
  | .char c :: rest => (joinPieces rest).map (c :: ·)
  | .unit n :: .unit m :: rest =>
    if isHighSurrogate n then
      if isLowSurrogate m then
        (joinPieces rest).map (Char.ofNat (0x10000 + (n - 0xD800) * 0x400 + (m - 0xDC00)) :: ·)
      else none
    else if isLowSurrogate n then none
    else (joinPieces (.unit m :: rest)).map (Char.ofNat n :: ·)
  | .unit n :: rest =>
    if isHighSurrogate n || isLowSurrogate n then none
    else (joinPieces rest).map (Char.ofNat n :: ·)

/-! ### Numbers -/

/-- Reads the part of a number behind the point, if there is a point: at least one digit. -/
def scanFraction : List Char → Option (List Char × List Char)
  | '.' :: rest =>
    let ds := rest.takeWhile Decimal.isDigit
    if ds = [] then none else some (ds, rest.dropWhile Decimal.isDigit)
  | rest => some ([], rest)

/-- Reads the exponent of a number, if there is one: at least one digit behind the mark. -/
def scanExponent : List Char → Option (Option Int × List Char)
  | c :: rest =>
    if c = 'e' ∨ c = 'E' then
      let (negative, rest) := Decimal.takeSign rest
      let ds := rest.takeWhile Decimal.isDigit
      if ds = [] then none
      else
        let n : Int := Decimal.digitsValue ds
        some (some (if negative then -n else n), rest.dropWhile Decimal.isDigit)
    else some (none, c :: rest)
  | [] => some (none, [])

/-- Reads an unsigned number: a zero or digits that do not start with one, then the two optional
parts. -/
def scanNumber (negative : Bool) (s : List Char) : Option (Numeral × List Char) := do
  let run := s.takeWhile Decimal.isDigit
  if run = [] then none
  else
    let whole := if run.head? = some '0' then ['0'] else run
    let rest := s.drop whole.length
    let (fraction, rest) ← scanFraction rest
    let (exponent, rest) ← scanExponent rest
    let value : Decimal.Dec :=
      ⟨Decimal.digitsValue (whole ++ fraction), exponent.getD 0 - (fraction.length : Int)⟩
    return (⟨negative, value, fraction = [] && exponent.isNone⟩, rest)

/-! ### Progress -/

theorem length_dropWhile_le {α : Type} (p : α → Bool) (s : List α) :
    (s.dropWhile p).length ≤ s.length :=
  (List.dropWhile_suffix p).length_le

theorem length_scanString_lt {s rest : List Char} {pieces : List Piece}
    (h : scanString s = some (pieces, rest)) : rest.length < s.length := by
  fun_induction scanString s generalizing pieces rest with
  | case1 => simp at h
  | case2 r => simp_all
  -- each kind of piece takes at least one character
  | case3 a b c d r ih =>
    simp only [Option.bind_eq_bind, Option.bind_eq_some_iff, Option.pure_def,
      Option.some.injEq, Prod.mk.injEq] at h
    obtain ⟨_, _, ⟨ps, r'⟩, hr, _, rfl⟩ := h
    have := ih hr
    simp only [List.length_cons]
    omega
  | case4 c r _ ih =>
    simp only [Option.bind_eq_bind, Option.bind_eq_some_iff, Option.pure_def,
      Option.some.injEq, Prod.mk.injEq] at h
    obtain ⟨_, _, ⟨ps, r'⟩, hr, _, rfl⟩ := h
    have := ih hr
    simp only [List.length_cons]
    omega
  | case5 => simp at h
  | case6 c r _ _ _ _ ih =>
    simp only [Option.bind_eq_bind, Option.bind_eq_some_iff, Option.pure_def,
      Option.some.injEq, Prod.mk.injEq] at h
    obtain ⟨⟨ps, r'⟩, hr, _, rfl⟩ := h
    have := ih hr
    simp only [List.length_cons]
    omega

theorem length_takeSign_le (s : List Char) : (Decimal.takeSign s).2.length ≤ s.length := by
  unfold Decimal.takeSign
  split <;> simp

theorem length_scanFraction_le {s rest ds : List Char} (h : scanFraction s = some (ds, rest)) :
    rest.length ≤ s.length := by
  unfold scanFraction at h
  split at h
  · rename_i r
    simp only at h
    split at h
    · -- there is no digit behind the point
      simp at h
    · simp only [Option.some.injEq, Prod.mk.injEq] at h
      obtain ⟨_, rfl⟩ := h
      have := length_dropWhile_le Decimal.isDigit r
      simp only [List.length_cons]
      omega
  · simp_all

theorem length_scanExponent_le {s rest : List Char} {e : Option Int}
    (h : scanExponent s = some (e, rest)) : rest.length ≤ s.length := by
  unfold scanExponent at h
  split at h
  · rename_i c r
    split at h
    · simp only at h
      split at h
      · simp at h
      · simp only [Option.some.injEq, Prod.mk.injEq] at h
        obtain ⟨_, rfl⟩ := h
        -- neither the sign nor the digits add anything
        have h1 := length_dropWhile_le Decimal.isDigit (Decimal.takeSign r).2
        have h2 := length_takeSign_le r
        simp only [List.length_cons]
        omega
    · simp_all
  · simp_all

theorem length_scanNumber_lt {negative : Bool} {s rest : List Char} {n : Numeral}
    (h : scanNumber negative s = some (n, rest)) : rest.length < s.length := by
  unfold scanNumber at h
  simp only [Option.bind_eq_bind] at h
  split at h
  · simp at h
  · rename_i hrun
    simp only [Option.bind_eq_some_iff, Option.pure_def, Option.some.injEq, Prod.mk.injEq] at h
    obtain ⟨⟨f, r1⟩, hf, ⟨e, r2⟩, he, _, rfl⟩ := h
    have h1 := length_scanFraction_le hf
    have h2 : r2.length ≤ r1.length := length_scanExponent_le he
    simp only [List.length_drop] at h1
    -- at least one digit is taken off
    have hs : 0 < s.length := by
      cases s with
      | nil => simp at hrun
      | cons c r => simp
    have hw : 0 < (if (s.takeWhile Decimal.isDigit).head? = some '0' then ['0']
        else s.takeWhile Decimal.isDigit).length := by
      split
      · simp
      · exact List.length_pos_iff.mpr hrun
    show r2.length < s.length
    omega

/-! ### The tokens of a text -/

/-- The tokens of a text, or nothing if some part of it is no token. -/
def tokens (s : List Char) : Option (List Token) :=
  match s with
  | [] => some []
  | c :: rest =>
    if isSpace c then tokens rest
    else match c with
      | '\x7b' => (tokens rest).map (.openObject :: ·)
      | '\x7d' => (tokens rest).map (.closeObject :: ·)
      | '[' => (tokens rest).map (.openArray :: ·)
      | ']' => (tokens rest).map (.closeArray :: ·)
      | ':' => (tokens rest).map (.colon :: ·)
      | ',' => (tokens rest).map (.comma :: ·)
      | '"' =>
        match _hs : scanString rest with
        | none => none
        | some (pieces, after) =>
          (tokens after).map (.text ((joinPieces pieces).map String.ofList) :: ·)
      | 'n' => match rest with
        | 'u' :: 'l' :: 'l' :: after => (tokens after).map (.null :: ·)
        | _ => none
      | 't' => match rest with
        | 'r' :: 'u' :: 'e' :: after => (tokens after).map (.bool true :: ·)
        | _ => none
      | 'f' => match rest with
        | 'a' :: 'l' :: 's' :: 'e' :: after => (tokens after).map (.bool false :: ·)
        | _ => none
      | '-' =>
        match _hn : scanNumber true rest with
        | none => none
        | some (n, after) => (tokens after).map (.number n :: ·)
      | _ =>
        match _hn : scanNumber false (c :: rest) with
        | none => none
        | some (n, after) => (tokens after).map (.number n :: ·)
termination_by s.length
decreasing_by
  all_goals simp_wf
  all_goals try omega
  · have h : after.length < rest.length := length_scanString_lt _hs
    omega
  · have h : after.length < rest.length := length_scanNumber_lt _hn
    omega
  · have h : after.length < rest.length + 1 := length_scanNumber_lt _hn
    omega

end Flowgraph.Json
