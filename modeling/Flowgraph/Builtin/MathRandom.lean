import Flowgraph.Engine.Program

/-!
# The random number

A value node that publishes a number between two bounds. The bounds may come in either order. If
they leave no range, or one whose width is not finite, the lower bound itself is published.
-/

namespace Flowgraph.Builtin.MathRandom

/-- The name of the type. -/
def name : String := "MathRandom"

/-- The field that reads one bound. -/
def minField : String := "min"

/-- The field that reads the other bound. -/
def maxField : String := "max"

/-- The field that publishes the number. -/
def resultField : String := "result"

/-- The description of the type. -/
def metadata : NodeMetadata where
  name := name
  group := .value
  color := .sky
  fields := [
    { name := minField, consumer := some { kind := .double, default := some "0" } },
    { name := maxField, consumer := some { kind := .double, default := some "100" } },
    { name := resultField, producer := some { produces := some .number } }]
  outputs := [⟨"Next", "Continue with the result set"⟩]

/-- What there is to choose from between two bounds. -/
inductive Choices where
  | one (x : Float)
  /-- The numbers from `low`, up to but not including `high`. -/
  | range (low high : Float)

/-- What can be drawn between two bounds, in whichever order they are given. A range that is empty
or not finite leaves its lower end. -/
def choices (min max : Float) : Choices :=
  let low := if min ≤ max then min else max
  let high := if min ≤ max then max else min
  if low < high && (high - low).isFinite then .range low high else .one low

/-- Hands a choice on. A draw is made only if there is more than one. -/
def choose (min max : Float) (k : Float → Program) : Program :=
  match choices min max with
  | .one x => k x
  | .range low high => .act (.draw low high) k

/-- Reads both bounds, publishes a number between them, and goes on. -/
def execute (n : NodeInstance) (w : Walk) : Program :=
  .attempt (n.readDouble minField w.vars) fun min =>
  .attempt (n.readDouble maxField w.vars) fun max =>
  choose min max fun x =>
  .attempt (n.publisher resultField) fun p =>
  .attempt n.next fun next => .finish (p.publish w.vars (.number x)) next

/-- A node of the type does something only when a walk enters it. -/
def behaviour : Behaviour where
  execute := execute

end Flowgraph.Builtin.MathRandom
