import Flowgraph.Node.Instance

/-!
# What a node reads

The readings of a node's fields by name. Every fault comes with the name of the field.
-/

namespace Flowgraph.NodeInstance

/-- A reading of a field's consumer. -/
def read {α : Type} (n : NodeInstance) (field : String) (reading : Consumer → Except FieldFault α) :
    Except WorkflowError α :=
  FieldError.lift field ((n.consumer field).bind reading)

/-- A field as text, its placeholders replaced. -/
def readString (n : NodeInstance) (field : String) (vars : Variables) :
    Except WorkflowError String :=
  n.read field fun c => .ok (c.readString vars)

/-- Reads a boolean, which is the same for every walk. -/
def readBoolean (n : NodeInstance) (field : String) : Except WorkflowError Bool :=
  n.read field Consumer.readBoolean

/-- Reads an integer, which is the same for every walk. -/
def readLong (n : NodeInstance) (field : String) : Except WorkflowError Int :=
  n.read field Consumer.readLong

/-- Reads a number, which may depend on the variables of a walk. -/
def readDouble (n : NodeInstance) (field : String) (vars : Variables) :
    Except WorkflowError Float :=
  n.read field (·.readDouble vars)

/-- Reads a value of a kind, which may depend on the variables of a walk. -/
def evaluate (n : NodeInstance) (field : String) (kind : ValueKind) (vars : Variables) :
    Except WorkflowError Value :=
  n.read field (·.evaluate kind vars)

/-- Reads which events a field stands for. -/
def readEventType (n : NodeInstance) (field : String) (catalog : Catalog) :
    Except WorkflowError EventKey :=
  n.read field (·.readEventType catalog)

/-- What publishes the values of a field. -/
def publisher (n : NodeInstance) (field : String) : Except WorkflowError Producer :=
  FieldError.lift field (n.producer field)

/-- A field as a length of time in seconds. -/
def readSeconds (n : NodeInstance) (field : String) (vars : Variables) :
    Except WorkflowError Duration :=
  match n.readDouble field vars with
  | .error e => .error e
  | .ok x =>
    match Duration.ofSeconds? x with
    | some d => .ok d
    | none => .error (.field ⟨field, .malformed (Decimal.plain.render x) "non-negative seconds"⟩)

end Flowgraph.NodeInstance
