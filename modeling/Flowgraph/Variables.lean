import Flowgraph.Value

/-!
# Variables

The values that a walk carries, by name, and the dotted paths that reach into them: the first
segment of a path names a variable, each further one a field of the value reached so far. Blanks
around a path and around its segments do not count.

* `Variables.resolve_insert` : a name without dots and outer blanks resolves to what was put there.
-/

namespace Flowgraph

/-- The variables of a walk. -/
abbrev Variables := StringMap Value

namespace Variables

/-- Follows segments from a value, field by field. -/
def follow (v : Value) : List (List Char) → Option Value
  | [] => some v
  | segment :: rest =>
    match v.field? (String.ofList (Text.trim segment)) with
    | none => none
    | some inner => follow inner rest

/-- The names in a path. White space at its ends does not count. -/
def segments (path : List Char) : List (List Char) := Text.cutAt '.' (Text.trim path)

/-- What a path leads to: the variable that it begins with, and the fields behind it. -/
def resolve (vars : Variables) (path : String) : Option Value :=
  match segments path.toList with
  | [] => none
  | head :: rest => (vars.get? (String.ofList (Text.trim head))).bind (follow · rest)

/-- A name without dots and outer blanks resolves to what was put there. -/
theorem resolve_insert (vars : Variables) {name : String} (v : Value)
    (hdot : '.' ∉ name.toList) (htrim : Text.trim name.toList = name.toList) :
    resolve (vars.insert name v) name = some v := by
  simp [resolve, segments, htrim, Text.cutAt_of_not_mem hdot, follow]

end Variables

end Flowgraph
