import Flowgraph.Field
import Flowgraph.Duration

/-!
# Errors

What can go wrong while a graph is loaded and while it runs. An error says what caused it; `message`
says it in words.
-/

namespace Flowgraph

/-- What a name in a node's description stands for. -/
inductive MemberKind where
  | field
  | output
deriving DecidableEq

/-- The word for a kind of member. -/
def MemberKind.label : MemberKind → String
  | .field => "field"
  | .output => "output"

/-- Why a graph, or a node type, is refused. -/
inductive LoadError where
  | unknownNodeType (nodeId nodeType : String)
  /-- The type is known by its description only. -/
  | noConstructor (nodeId nodeType : String)
  | unknownOutput (nodeId nodeType output : String)
  | unknownField (nodeId nodeType field : String)
  | missingRequiredField (nodeId nodeType field : String)
  | invalidFieldValue (nodeId : String) (source : FieldError)
  | duplicateNodeId (nodeId : String)
  | duplicateNodeType (nodeType : String)
  | duplicateMember (nodeType : String) (kind : MemberKind) (name : String)

/-- The text of an error about a graph. -/
def LoadError.message : LoadError → String
  | .unknownNodeType nodeId nodeType =>
    "Node type not found: '" ++ nodeType ++ "' (node '" ++ nodeId ++ "')"
  | .noConstructor nodeId nodeType =>
    "No constructor for node type '" ++ nodeType ++ "' (node '" ++ nodeId ++ "')"
  | .unknownOutput nodeId nodeType output =>
    "Node output not found: '" ++ output ++ "' on node '" ++ nodeId ++ "' (" ++ nodeType ++ ")"
  | .unknownField nodeId nodeType field =>
    "Node field not found: '" ++ field ++ "' on node '" ++ nodeId ++ "' (" ++ nodeType ++ ")"
  | .missingRequiredField nodeId nodeType field =>
    "Node field value is required: '" ++ field ++ "' on node '" ++ nodeId ++
      "' (" ++ nodeType ++ ")"
  | .invalidFieldValue nodeId source =>
    "Invalid value on node '" ++ nodeId ++ "': " ++ source.message
  | .duplicateNodeId nodeId => "Duplicate node id: '" ++ nodeId ++ "'"
  | .duplicateNodeType nodeType => "Node already registered: '" ++ nodeType ++ "'"
  | .duplicateMember nodeType kind name =>
    "Node type '" ++ nodeType ++ "' declares " ++ kind.label ++ " '" ++ name ++ "' more than once"

/-- Why a task or a job is refused. -/
inductive SchedulingError where
  /-- The period is zero, or a due time lies beyond the clock. -/
  | invalidPeriod (d : Duration)
  | poolSaturated (size : Nat)
  | poolClosed
  /-- There is nothing that could run tasks. -/
  | noRuntime

/-- The text of an error about tasks and jobs. -/
def SchedulingError.message : SchedulingError → String
  | .invalidPeriod d => "Invalid period for periodic task: " ++ d.text
  | .poolSaturated size => "Worker pool saturated (" ++ toString size ++ " workers busy)"
  | .poolClosed => "Worker pool is shut down"
  | .noRuntime => "No async runtime available"

/-- Everything that can go wrong in an engine. -/
inductive WorkflowError where
  | load (source : LoadError)
  | field (source : FieldError)
  | expression (source : ExpressionError)
  | scheduling (source : SchedulingError)
  /-- A node without outputs was to be left through its first one. -/
  | noOutputs (nodeId nodeType : String)
  | unknownOutput (nodeId output : String)
  | hopLimitExceeded (limit : Nat) (nodeId : String)
  | listener (reason : String)
  | failed (reason : String)
  | serialization
  | io

/-- The text of an error. That of an inner error is its own. -/
def WorkflowError.message : WorkflowError → String
  | .load source => source.message
  | .field source => source.message
  | .expression source => source.message
  | .scheduling source => source.message
  | .noOutputs nodeId nodeType =>
    "No outputs defined for node: '" ++ nodeId ++ "' (" ++ nodeType ++ ")"
  | .unknownOutput nodeId output => "Node '" ++ nodeId ++ "' has no output named '" ++ output ++ "'"
  | .hopLimitExceeded limit nodeId =>
    "Walk exceeded " ++ toString limit ++ " hops (last node '" ++ nodeId ++ "')"
  | .listener reason => "Listener failed: " ++ reason
  | .failed reason => "Node execution failed: " ++ reason
  | .serialization => "Serialization error"
  | .io => "I/O error"

/-! ### Codes -/

/-- The class and the case of an error about an expression. -/
def ExpressionError.code : ExpressionError → String
  | .parse .. => "Expression.Parse"
  | .unresolved _ => "Expression.Unresolved"
  | .absentOperand _ => "Expression.Arithmetic"
  | .divisionByZero => "Expression.Arithmetic"
  | .wrongKind .. => "Expression.Type"

/-- The class and the case of a fault. -/
def FieldFault.code : FieldFault → String
  | .malformed .. => "Field.Malformed"
  | .notAnOption _ => "Field.NotAnOption"
  | .unknownType _ => "Field.UnknownType"
  | .unbound => "Field.Unbound"
  | .noConsumer => "Field.NoConsumer"
  | .noProducer => "Field.NoProducer"
  | .unknownField => "Field.UnknownField"
  | .expression _ => "Field.Expression"

/-- The class and the case of an error about a graph. -/
def LoadError.code : LoadError → String
  | .unknownNodeType .. => "Load.UnknownNodeType"
  | .noConstructor .. => "Load.NoConstructor"
  | .unknownOutput .. => "Load.UnknownOutput"
  | .unknownField .. => "Load.UnknownField"
  | .missingRequiredField .. => "Load.MissingRequiredField"
  | .invalidFieldValue .. => "Load.InvalidFieldValue"
  | .duplicateNodeId _ => "Load.DuplicateNodeId"
  | .duplicateNodeType _ => "Load.DuplicateNodeType"
  | .duplicateMember .. => "Load.DuplicateMember"

/-- The class and the case of an error about tasks and jobs. -/
def SchedulingError.code : SchedulingError → String
  | .invalidPeriod _ => "Scheduling.InvalidPeriod"
  | .poolSaturated _ => "Scheduling.PoolSaturated"
  | .poolClosed => "Scheduling.PoolClosed"
  | .noRuntime => "Scheduling.NoRuntime"

/-- The name of the kind of an error, for programs that tell errors apart. -/
def WorkflowError.code : WorkflowError → String
  | .load source => source.code
  | .field source => source.fault.code
  | .expression source => source.code
  | .scheduling source => source.code
  | .noOutputs .. => "NoOutputs"
  | .unknownOutput .. => "UnknownOutput"
  | .hopLimitExceeded .. => "HopLimitExceeded"
  | .listener _ => "Listener"
  | .failed _ => "ExecutionFailed"
  | .serialization => "Serialization"
  | .io => "Io"

/-- The faults of a reading, with the field they occurred in. -/
def FieldError.lift {α : Type} (field : String) (r : Except FieldFault α) :
    Except WorkflowError α :=
  r.mapError fun fault => .field ⟨field, fault⟩

end Flowgraph
