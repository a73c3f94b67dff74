import Flowgraph.Error

/-!
# Node types

The description of a node type: its name, where the palette shows it, and the fields and outputs
that each node of the type starts from.
-/

namespace Flowgraph

/-- The palette groups. -/
inductive NodeGroup where
  /-- Starts walks. -/
  | trigger
  /-- Acts on the host. -/
  | action
  /-- Chooses between outputs. -/
  | condition
  /-- Computes a value. -/
  | value
  /-- Alters the course of a walk. -/
  | control
deriving DecidableEq

/-- The name of a group in the palette. -/
def NodeGroup.label : NodeGroup → String
  | .trigger => "trigger"
  | .action => "action"
  | .condition => "condition"
  | .value => "value"
  | .control => "control"

/-- All groups. -/
def NodeGroup.all : List NodeGroup := [.trigger, .action, .condition, .value, .control]

/-- The group of a name. -/
def NodeGroup.ofLabel? (name : String) : Option NodeGroup := all.find? (·.label = name)

/-- The color of a node in the editor. -/
inductive NodeColor where
  | lime
  | emerald
  | amber
  | sky
  | rose
  | violet
deriving DecidableEq

namespace NodeColor

/-- The name of a color. -/
def label : NodeColor → String
  | .lime => "lime"
  | .emerald => "emerald"
  | .amber => "amber"
  | .sky => "sky"
  | .rose => "rose"
  | .violet => "violet"

/-- All colors. -/
def all : List NodeColor := [.lime, .emerald, .amber, .sky, .rose, .violet]

/-- The color of a name. -/
def ofLabel? (name : String) : Option NodeColor := all.find? (·.label = name)

/-- The colour as red, green and blue in hexadecimal. -/
def hex : NodeColor → String
  | .lime => "#84cc16"
  | .emerald => "#10b981"
  | .amber => "#f59e0b"
  | .sky => "#0ea5e9"
  | .rose => "#f43f5e"
  | .violet => "#8b5cf6"

end NodeColor

/-- An output as a type describes it. -/
structure OutputSpec where
  name : String
  description : String
deriving DecidableEq

/-- The description of a node type. -/
structure NodeMetadata where
  name : String
  group : NodeGroup
  color : NodeColor
  /-- How many inbound links are shown. -/
  inputs : Nat := 1
  fields : List Field := []
  outputs : List OutputSpec := []
deriving DecidableEq

namespace NodeMetadata

/-- The first field of a name. -/
def findField (m : NodeMetadata) (name : String) : Option Field :=
  m.fields.find? (·.name = name)

/-- The first output of a name. -/
def findOutput (m : NodeMetadata) (name : String) : Option OutputSpec :=
  m.outputs.find? (·.name = name)

/-- The named members, fields first. -/
def members (m : NodeMetadata) : List (MemberKind × String) :=
  m.fields.map (MemberKind.field, ·.name) ++ m.outputs.map (MemberKind.output, ·.name)

/-- The first element of a list that occurs before it. -/
def firstRepeated {α : Type} [DecidableEq α] (seen : List α) : List α → Option α
  | [] => none
  | a :: rest => if a ∈ seen then some a else firstRepeated (a :: seen) rest

/-- The first field or output whose name was used before. -/
def repeatedMember (m : NodeMetadata) : Option (MemberKind × String) := firstRepeated [] m.members

end NodeMetadata

/-! ### The description as data -/

/-- A choice as the palette shows it. -/
def Choice.toJson (c : Choice) : Json :=
  .object ([("label", .text c.label), ("value", .text c.value)]
    ++ (c.produces.map fun k => ("produceType", Json.text k.tag)).toList)

/-- A consumer as data; the configured value is no part of the description. -/
def Consumer.toJson (c : Consumer) : Json :=
  .object ([("type", .text c.kind.label), ("required", .bool c.required)]
    ++ (c.default.map fun d => ("defaultValue", Json.text d)).toList
    ++ (if c.options.isEmpty then [] else [("options", .array (c.options.map Choice.toJson))])
    ++ (c.unit.map fun u => ("unit", Json.text u.label)).toList)

/-- A producer as the palette shows it. -/
def Producer.toJson (p : Producer) : Json :=
  .object ((p.produces.map fun k => ("produceType", Json.text k.tag)).toList
    ++ (p.name.map fun n => ("variableName", Json.text n)).toList)

/-- A field as the palette shows it. -/
def Field.toJson (f : Field) : Json :=
  .object ([("name", .text f.name)]
    ++ (f.consumer.map fun c => ("consumer", c.toJson)).toList
    ++ (f.producer.map fun p => ("producer", p.toJson)).toList)

/-- An output as the palette shows it. -/
def OutputSpec.toJson (o : OutputSpec) : Json :=
  .object [("name", .text o.name), ("description", .text o.description)]

/-- A type as the palette shows it. -/
def NodeMetadata.toJson (m : NodeMetadata) : Json :=
  .object [("name", .text m.name), ("group", .text m.group.label), ("color", .text m.color.label),
    ("inputs", Json.ofNat m.inputs), ("fields", .array (m.fields.map Field.toJson)),
    ("outputs", .array (m.outputs.map OutputSpec.toJson))]

end Flowgraph
