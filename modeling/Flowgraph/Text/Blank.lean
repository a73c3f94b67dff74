/-!
# White space and cutting of texts

Texts are handled as lists of characters. A character is *blank* when it has the Unicode property
White_Space, which holds of twenty-five characters; `trim` takes the blanks off both ends of a text
and `cutAt` splits a text at every occurrence of one character.

* `cutAt_ne_nil`, `intercalate_cutAt` : a cut has at least one piece, and the pieces joined by the
  separator are the text again.
-/

namespace Flowgraph.Text

/-! ### Lengths -/

/-- The number of bytes of a text in UTF-8. -/
def byteLength : List Char → Nat
  | [] => 0
  | c :: rest => c.utf8Size + byteLength rest

/-! ### Ranges of code points -/

/-- Whether a code point lies in one of the closed ranges. -/
def inRanges (ranges : List (Nat × Nat)) (n : Nat) : Bool :=
  ranges.any fun r => r.1 ≤ n && n ≤ r.2

/-- The closed ranges of the Unicode property White_Space, ascending and apart. -/
def blankRanges : List (Nat × Nat) :=
  [(0x09, 0x0D), (0x20, 0x20), (0x85, 0x85), (0xA0, 0xA0), (0x1680, 0x1680), (0x2000, 0x200A),
   (0x2028, 0x2029), (0x202F, 0x202F), (0x205F, 0x205F), (0x3000, 0x3000)]

/-- A blank character: one of the twenty-five with the property White_Space. -/
def isBlank (c : Char) : Bool := inRanges blankRanges c.toNat

/-! ### Trimming -/

/-- A text without the blanks in front. -/
def trimStart (s : List Char) : List Char := s.dropWhile isBlank

/-- A text without the blanks behind. -/
def trimEnd (s : List Char) : List Char := (s.reverse.dropWhile isBlank).reverse

/-- A text without the blanks at both ends. -/
def trim (s : List Char) : List Char := trimEnd (trimStart s)

/-- Whether nothing but blanks is in a text. -/
def isBlankText (s : List Char) : Bool := s.all isBlank

/-! ### Cutting -/

/-- The pieces of a text between the occurrences of a separator: always one more than there are
occurrences. -/
def cutAt (sep : Char) : List Char → List (List Char)
  | [] => [[]]
  | c :: rest =>
    if c = sep then [] :: cutAt sep rest
    else match cutAt sep rest with
      | [] => [[c]]
      | piece :: pieces => (c :: piece) :: pieces

theorem cutAt_ne_nil (sep : Char) (s : List Char) : cutAt sep s ≠ [] := by
  cases s with
  | nil => simp [cutAt]
  | cons c rest =>
    simp only [cutAt]
    split
    · simp
    · split <;> simp

theorem intercalate_cutAt (sep : Char) (s : List Char) :
    [sep].intercalate (cutAt sep s) = s := by
  induction s with
  | nil => rfl
  | cons c rest ih =>
    simp only [cutAt]
    split
    · -- a separator closes an empty piece
      rename_i h
      subst h
      cases hr : cutAt c rest with
      | nil => exact absurd hr (cutAt_ne_nil c rest)
      | cons piece pieces => rw [hr] at ih; simp_all [List.intercalate, List.intersperse]
    · cases hr : cutAt sep rest with
      | nil => exact absurd hr (cutAt_ne_nil sep rest)
      | cons piece pieces =>
        rw [hr] at ih
        cases pieces <;> simp_all [List.intercalate, List.intersperse]

theorem cutAt_of_not_mem {sep : Char} {s : List Char} (h : sep ∉ s) : cutAt sep s = [s] := by
  induction s with
  | nil => rfl
  | cons c rest ih =>
    simp only [List.mem_cons, not_or] at h
    simp [cutAt, ih h.2, Ne.symm h.1]

/-! ### The same on strings -/

/-- A string without the blanks at both ends. -/
def trimmed (s : String) : String := String.ofList (trim s.toList)

@[simp] theorem toList_trimmed (s : String) : (trimmed s).toList = trim s.toList := by
  simp [trimmed]

end Flowgraph.Text
