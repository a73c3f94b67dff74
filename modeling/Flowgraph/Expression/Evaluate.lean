import Flowgraph.Expression.Syntax
import Flowgraph.Variables

/-!
# Evaluating expressions

An expression that is a single variable passes the variable's value through, whatever it is. Every
other expression is arithmetic. The result is then brought to the kind that is asked for.

* `evaluate` is the whole reading of a text, `evaluateNumber` the one that ends in a number.
-/

namespace Flowgraph

/-- Why an expression has no value. -/
inductive ExpressionError where
  | parse (expression : String) (position : Nat) (fault : Expression.Fault)
  /-- A variable that stands alone leads nowhere. -/
  | unresolved (path : String)
  /-- An operand leads nowhere. -/
  | absentOperand (path : String)
  | divisionByZero
  | wrongKind (expected : ValueKind) (found : String)

/-- The text of an error about an expression. -/
def ExpressionError.message : ExpressionError → String
  | .parse expression position fault =>
    "Parse error at " ++ toString position ++ " in '" ++ expression ++ "': " ++ fault.message
  | .unresolved path => "Unresolved variable: '" ++ path ++ "'"
  | .absentOperand path => "Arithmetic error: operand '" ++ path ++ "' is absent"
  | .divisionByZero => "Arithmetic error: division by zero"
  | .wrongKind expected found =>
    "Type error: expected " ++ expected.name ++ ", found '" ++ found ++ "'"

namespace Expression

/-- Applies an operator; only a division by zero fails. -/
def BinaryOp.apply : BinaryOp → Float → Float → Except ExpressionError Float
  | .add, a, b => .ok (a + b)
  | .subtract, a, b => .ok (a - b)
  | .multiply, a, b => .ok (a * b)
  | .divide, a, b => if b == 0 then .error .divisionByZero else .ok (a / b)

/-- The number that a path leads to. -/
def operand (vars : Variables) (path : String) : Except ExpressionError Float :=
  match vars.resolve path with
  | none => .error (.absentOperand path)
  | some v =>
    match v.asNumber? with
    | none => .error (.wrongKind .number v.display)
    | some x => .ok x

/-- The number that a tree denotes. The left operand comes first, so its error wins. -/
def Expr.eval (vars : Variables) : Expr → Except ExpressionError Float
  | .number x => .ok x
  | .path p => operand vars p
  | .negate e =>
    match e.eval vars with
    | .error err => .error err
    | .ok x => .ok (-x)
  | .binary op left right =>
    match left.eval vars with
    | .error err => .error err
    | .ok a =>
      match right.eval vars with
      | .error err => .error err
      | .ok b => op.apply a b

/-- Brings a value to a kind. -/
def coerce (kind : ValueKind) (v : Value) : Except ExpressionError Value :=
  let given {α : Type} (as : Option α) (make : α → Value) : Except ExpressionError Value :=
    match as with
    | none => .error (.wrongKind kind v.display)
    | some a => .ok (make a)
  match kind with
  | .any => .ok v
  | .number => given v.asNumber? .number
  | .boolean => given v.asBool? .boolean
  | .text => .ok (.text v.display)

/-- The value of a text under variables, brought to a kind. -/
def evaluate (kind : ValueKind) (text : String) (vars : Variables) : Except ExpressionError Value :=
  match Lexeme.scan text.toList with
  | .error (pos, fault) => .error (.parse text pos fault)
  -- a variable that stands alone keeps its kind
  | .ok [⟨.path path, _⟩] =>
    match vars.resolve path with
    | none => .error (.unresolved path)
    | some v => coerce kind v
  | .ok ts =>
    match parse text.utf8ByteSize ts with
    | .error (pos, fault) => .error (.parse text pos fault)
    | .ok e =>
      match e.eval vars with
      | .error err => .error err
      | .ok x => coerce kind (.number x)

/-- Evaluates an expression that is to be a number. -/
def evaluateNumber (text : String) (vars : Variables) : Except ExpressionError Float :=
  match evaluate .number text vars with
  | .error err => .error err
  | .ok (.number x) => .ok x
  | .ok v => .error (.wrongKind .number v.display)

end Expression

end Flowgraph
