import Flowgraph.Graph.Context
import Flowgraph.Json.Document
import Flowgraph.Json.Printer

/-!
# Contexts as JSON

A context is written with all members of every record, in the order of their declaration, and read
back from that or from any shorter form: members that have a default may be missing, unknown members
are passed over, and records may be written as arrays. The variable of a field may also be called
`variableName`.

* `Context.read?` reads a text; a blank text is the empty graph.
* `Context.toPretty` writes a context.
-/

namespace Flowgraph

open Json (Document)

/-! ### Writing -/

/-- What is stored of a field, as it is written. -/
def FieldState.toJson (s : FieldState) : Json :=
  .object [("consumer", Json.ofText? s.consumer), ("producer", Json.ofText? s.producer)]

/-- What is stored of a node's members, as it is written. -/
def NodeState.toJson (s : NodeState) : Json :=
  .object [
    ("outputs", .object (s.outputs.entries.map fun (k, v) => (k, Json.ofText? v))),
    ("fields", .object (s.fields.entries.map fun (k, v) => (k, v.toJson)))]

/-- An entry of a graph, as it is written. -/
def NodeEntry.toJson (n : NodeEntry) : Json :=
  .object [("id", .text n.id), ("name", .text n.name), ("state", n.state.toJson)]

/-- A graph, as it is written. -/
def Context.toJson (c : Context) : Json :=
  .object [("nodes", .array (c.nodes.map NodeEntry.toJson))]

/-- A graph as the text that is stored. -/
def Context.toPretty (c : Context) : String := c.toJson.toPretty

/-! ### Reading -/

/-- Reads what is stored of a field. The variable has two names, of which one may be given. -/
def FieldState.ofDocument? (d : Document) : Option FieldState :=
  match d.record? [["consumer"], ["producer", "variableName"]] with
  | some [consumer, producer] => do
    let consumer ← Document.orDefault (Document.nullable? Document.text?) none consumer
    let producer ← Document.orDefault (Document.nullable? Document.text?) none producer
    return { consumer := consumer, producer := producer }
  | _ => none

/-- Reads what is stored of a node's members. -/
def NodeState.ofDocument? (d : Document) : Option NodeState :=
  match d.record? [["outputs"], ["fields"]] with
  | some [outputs, fields] => do
    let outputs ← Document.orDefault (Document.map? (Document.nullable? Document.text?)) ∅ outputs
    let fields ← Document.orDefault (Document.map? FieldState.ofDocument?) ∅ fields
    return { outputs := outputs, fields := fields }
  | _ => none

/-- Reads a node; it has to have a name and a type. -/
def NodeEntry.ofDocument? (d : Document) : Option NodeEntry :=
  match d.record? [["id"], ["name"], ["state"]] with
  | some [some id, some name, state] => do
    let id ← id.text?
    let name ← name.text?
    let state ← Document.orDefault NodeState.ofDocument? {} state
    return { id := id, name := name, state := state }
  | _ => none

/-- Reads a graph. -/
def Context.ofDocument? (d : Document) : Option Context :=
  match d.record? [["nodes"]] with
  | some [nodes] => do
    let nodes ← Document.orDefault (Document.list? NodeEntry.ofDocument?) [] nodes
    return ⟨nodes⟩
  | _ => none

/-- Reads the text of a context; a blank text is the empty graph. -/
def Context.read? (text : String) : Option Context :=
  if Text.isBlankText text.toList then some {}
  else (Document.parse? text).bind Context.ofDocument?

end Flowgraph
