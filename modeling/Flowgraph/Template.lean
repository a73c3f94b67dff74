import Flowgraph.Variables

/-!
# Templates

A text in which variables are interpolated. A *placeholder* is two opening braces, one or more
characters other than braces, and two closing braces; it stands for the text of the value that its
path leads to, or for nothing if it leads nowhere. Everything else stands for itself.

* `Template.parts` cuts a text into placeholders and the characters between them.
* `Template.source_parts` : the parts, written out again, are the text.
-/

namespace Flowgraph.Template

/-- A part of a template. -/
inductive Part where
  | char (c : Char)
  /-- A placeholder, with what stands between its braces. -/
  | placeholder (path : List Char)
deriving DecidableEq

/-- A character that may stand inside of a placeholder. -/
def isInner (c : Char) : Bool := c ≠ '\x7b' && c ≠ '\x7d'

/-- Reads the placeholder that a text starts with, if it starts with one. -/
def placeholder? (s : List Char) : Option (List Char × List Char) :=
  match s with
  | '\x7b' :: '\x7b' :: inner =>
    match inner.dropWhile isInner with
    | '\x7d' :: '\x7d' :: rest =>
      let path := inner.takeWhile isInner
      if path = [] then none else some (path, rest)
    | _ => none
  | _ => none

/-- The part as it stands in the text. -/
def Part.source : Part → List Char
  | .char c => [c]
  | .placeholder path => '\x7b' :: '\x7b' :: path ++ ['\x7d', '\x7d']

theorem eq_source_append_of_placeholder? {s path rest : List Char}
    (h : placeholder? s = some (path, rest)) : s = (Part.placeholder path).source ++ rest := by
  unfold placeholder? at h
  split at h
  · rename_i inner
    split at h
    · rename_i r hdrop
      simp only at h
      split at h
      · simp at h
      · simp only [Option.some.injEq, Prod.mk.injEq] at h
        obtain ⟨rfl, rfl⟩ := h
        -- what was taken and what was dropped are the text behind the opening braces
        have := List.takeWhile_append_dropWhile (p := isInner) (l := inner)
        rw [hdrop] at this
        simp [Part.source, this]
    · simp at h
  · simp at h

theorem length_placeholder? {s path rest : List Char} (h : placeholder? s = some (path, rest)) :
    rest.length < s.length := by
  rw [eq_source_append_of_placeholder? h]
  simp only [Part.source, List.cons_append, List.append_assoc, List.length_cons, List.length_append]
  omega

/-- The parts of a text, from left to right. -/
def parts (s : List Char) : List Part :=
  match s with
  | [] => []
  | c :: rest =>
    match _h : placeholder? (c :: rest) with
    | some (path, after) => .placeholder path :: parts after
    | none => .char c :: parts rest
termination_by s.length
decreasing_by
  · exact length_placeholder? _h
  · simp

/-- The parts, written out again, are the text. -/
theorem source_parts (s : List Char) : (parts s).flatMap Part.source = s := by
  fun_induction parts s with
  | case1 => rfl
  | case2 c rest path after h ih =>
    rw [List.flatMap_cons, ih]
    exact (eq_source_append_of_placeholder? h).symm
  | case3 c rest h ih =>
    rw [List.flatMap_cons, ih]
    rfl

/-- The paths in the placeholders of a text, from left to right. -/
def paths (s : List Char) : List (List Char) :=
  (parts s).filterMap fun
    | .char _ => none
    | .placeholder path => some path

/-- Whether there is any placeholder in a text. -/
def hasPlaceholder (s : String) : Bool := !(paths s.toList).isEmpty

/-- What stands for a part once its path is resolved. A path that leads nowhere leaves nothing. -/
def Part.fill (vars : Variables) : Part → List Char
  | .char c => [c]
  | .placeholder path =>
    match vars.resolve (String.ofList path) with
    | none => []
    | some v => v.display.toList

/-- A text with the values in place of its placeholders. -/
def fill (vars : Variables) (s : String) : String :=
  String.ofList ((parts s.toList).flatMap (Part.fill vars))

end Flowgraph.Template
