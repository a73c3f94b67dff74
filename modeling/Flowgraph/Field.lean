import Flowgraph.Template
import Flowgraph.Catalog
import Flowgraph.Expression.Evaluate

/-!
# Fields

A field is a named place on a node. Its *consumer* holds a raw text, which is read as the field's
kind when the node runs; its *producer* names the variable that the node publishes to.

* `Consumer.check` is the check of a raw text when a graph is loaded. A text with placeholders
  passes it, since what it reads as is known only later.
* `Producer.publish` writes to the named variable, if there is a name.
-/

namespace Flowgraph

/-- What the text of a consumer is read as. -/
inductive FieldKind where
  | string
  | boolean
  | long
  | double
  | enumeration
  | eventType
deriving DecidableEq

/-- The name of a kind of field. -/
def FieldKind.label : FieldKind → String
  | .string => "string"
  | .boolean => "boolean"
  | .long => "long"
  | .double => "double"
  | .enumeration => "enum"
  | .eventType => "class"

/-- The kind of a name. -/
def FieldKind.ofLabel? (name : String) : Option FieldKind :=
  [FieldKind.string, .boolean, .long, .double, .enumeration, .eventType].find? (·.label = name)

/-- The unit that a numeric field is shown with. -/
inductive MeasureUnit where
  | millisecond
  | second
  | minute
  | percent
deriving DecidableEq

/-- The name of a unit. -/
def MeasureUnit.label : MeasureUnit → String
  | .millisecond => "millisecond"
  | .second => "second"
  | .minute => "minute"
  | .percent => "percent"

/-- The unit of a name. -/
def MeasureUnit.ofLabel? (name : String) : Option MeasureUnit :=
  [MeasureUnit.millisecond, .second, .minute, .percent].find? (·.label = name)

/-- A value that can be selected for a field. -/
structure Choice where
  label : String
  value : String
  /-- What the node produces when this value is selected. -/
  produces : Option ValueKind
deriving DecidableEq

/-- A choice that is shown under its value. -/
def Choice.ofName (name : String) : Choice := ⟨name, name, none⟩

/-! ### Errors -/

/-- Why a field has no reading. -/
inductive FieldFault where
  | malformed (value expected : String)
  | notAnOption (value : String)
  | unknownType (value : String)
  /-- There is neither a value nor a default. -/
  | unbound
  | noConsumer
  | noProducer
  | unknownField
  | expression (source : ExpressionError)

/-- A fault, with the field that it is about. -/
structure FieldError where
  field : String
  fault : FieldFault

/-- The text of an error about a field. -/
def FieldError.message (e : FieldError) : String :=
  match e.fault with
  | .malformed value expected =>
    "Invalid " ++ expected ++ " value for field '" ++ e.field ++ "': '" ++ value ++ "'"
  | .notAnOption value => "Value '" ++ value ++ "' is not an option of field '" ++ e.field ++ "'"
  | .unknownType value => "Unknown type '" ++ value ++ "' for field '" ++ e.field ++ "'"
  | .unbound => "Field '" ++ e.field ++ "' has no value"
  | .noConsumer => "Field '" ++ e.field ++ "' does not consume a value"
  | .noProducer => "Field '" ++ e.field ++ "' does not produce a value"
  | .unknownField => "Unknown field '" ++ e.field ++ "'"
  | .expression source => "Field '" ++ e.field ++ "': " ++ source.message

/-! ### Consumers -/

/-- The reading side of a field. -/
structure Consumer where
  kind : FieldKind
  required : Bool := true
  default : Option String := none
  /-- The configured text, which takes the place of the default. -/
  value : Option String := none
  options : List Choice := []
  unit : Option MeasureUnit := none
deriving DecidableEq

namespace Consumer

/-- The text to read: the configured one, or else the default. -/
def raw (c : Consumer) : Option String := c.value <|> c.default

/-- Whether there is a text to read. -/
def isBound (c : Consumer) : Bool := c.raw.isSome

/-- Adds choices behind those that are offered. -/
def addOptions (c : Consumer) (names : List String) : Consumer :=
  { c with options := c.options ++ names.map Choice.ofName }

/-- Applies a reading to the text, which has to be there. -/
def withRaw {α : Type} (c : Consumer) (read : String → Except FieldFault α) : Except FieldFault α :=
  match c.raw with
  | none => .error .unbound
  | some raw => read raw

/-- What a reading yields, or that the text does not read as the kind. -/
def orMalformed {α : Type} (c : Consumer) (raw : String) : Option α → Except FieldFault α
  | none => .error (.malformed raw c.kind.label)
  | some a => .ok a

/-- The text with its placeholders replaced; nothing at all if there is no text. -/
def readString (c : Consumer) (vars : Variables) : String :=
  match c.raw with
  | none => ""
  | some raw => Template.fill vars raw

/-- The text as a truth value, in any mixture of cases. -/
def readBoolean (c : Consumer) : Except FieldFault Bool :=
  c.withRaw fun raw => c.orMalformed raw (Value.readBool (Text.trim raw.toList))

/-- Reads an integer in 64 bits. -/
def readLong (c : Consumer) : Except FieldFault Int :=
  c.withRaw fun raw => c.orMalformed raw (Decimal.readInt64 (Text.trim raw.toList))

/-- The value of the text as an expression, brought to a kind. -/
def evaluate (c : Consumer) (kind : ValueKind) (vars : Variables) : Except FieldFault Value :=
  c.withRaw fun raw => (Expression.evaluate kind raw vars).mapError .expression

/-- Reads a number, which may be an expression. -/
def readDouble (c : Consumer) (vars : Variables) : Except FieldFault Float :=
  c.withRaw fun raw => (Expression.evaluateNumber raw vars).mapError .expression

/-- Whether the text, without outer blanks, is one of the options; without options every text is. -/
def checkOption (c : Consumer) (raw : String) : Except FieldFault Unit :=
  if c.options.isEmpty || c.options.any (·.value = Text.trimmed raw) then .ok ()
  else .error (.notAnOption raw)

/-- The text as one of the options, read further by `read`. -/
def readOption {α : Type} (c : Consumer) (read : List Char → Option α) : Except FieldFault α :=
  c.withRaw fun raw =>
    match c.checkOption raw with
    | .error e => .error e
    | .ok () => c.orMalformed raw (read (Text.trim raw.toList))

/-- Reads the name of an event type. -/
def readEventType (c : Consumer) (catalog : Catalog) : Except FieldFault EventKey :=
  c.withRaw fun raw =>
    match catalog.get? (Text.trimmed raw) with
    | none => .error (.unknownType raw)
    | some key => .ok key

/-- What is wrong with a text that no variable can mend. One with a placeholder passes. -/
def check (c : Consumer) : Except FieldFault Unit :=
  match c.raw with
  | none => .ok ()
  | some raw =>
    if Template.hasPlaceholder raw then .ok ()
    else match c.kind with
      | .string => .ok ()
      | .eventType => .ok ()
      | .boolean => c.readBoolean.map fun _ => ()
      | .long => c.readLong.map fun _ => ()
      | .double => (c.readDouble StringMap.empty).map fun _ => ()
      | .enumeration => c.checkOption raw

end Consumer

/-! ### Producers -/

/-- What a field publishes, and under which name. -/
structure Producer where
  produces : Option ValueKind := none
  name : Option String := none
deriving DecidableEq

namespace Producer

/-- The variable to publish to; an empty name is none. -/
def variableName (p : Producer) : Option String := p.name.filter (· ≠ "")

/-- Sets the variable. Without a name nothing is published. -/
def publish (p : Producer) (vars : Variables) (v : Value) : Variables :=
  match p.variableName with
  | none => vars
  | some name => vars.insert name v

end Producer

/-! ### Fields -/

/-- A named place on a node. -/
structure Field where
  name : String
  consumer : Option Consumer := none
  producer : Option Producer := none
deriving DecidableEq

end Flowgraph
