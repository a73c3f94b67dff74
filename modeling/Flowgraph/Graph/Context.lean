import Flowgraph.StringMap

/-!
# Graph contexts

The stored form of a graph: an ordered list of nodes, each with its type and the wiring that differs
from the type's description. Contexts can be built call by call, every call applying to the node
added last.

* `Context.links` lists the links that have a target.
-/

namespace Flowgraph

/-- What is stored of a field. -/
structure FieldState where
  /-- The text that the field reads. -/
  consumer : Option String := none
  /-- The variable that the field publishes to. -/
  producer : Option String := none
deriving DecidableEq, Inhabited

/-- What is stored of a node's members. -/
structure NodeState where
  /-- The node behind each output; nothing and the empty name end a walk. -/
  outputs : StringMap (Option String) := ∅
  fields : StringMap FieldState := ∅
deriving DecidableEq, Inhabited

/-- An entry of a stored graph: one node. -/
structure NodeEntry where
  id : String
  /-- The name of the node's type. -/
  name : String
  state : NodeState := {}
deriving DecidableEq, Inhabited

/-- A stored graph. -/
structure Context where
  nodes : List NodeEntry := []
deriving DecidableEq, Inhabited

/-- The target of a stored output: the empty name is none. -/
def target? (next : Option String) : Option String := next.filter (· ≠ "")

/-- A link from a node's output to a node. -/
structure Link where
  source : String
  output : String
  target : String
deriving DecidableEq

namespace NodeEntry

/-- The links from a node, in the order of its outputs' names. -/
def links (n : NodeEntry) : List Link :=
  n.state.outputs.entries.filterMap fun (output, next) =>
    (target? next).map fun target => ⟨n.id, output, target⟩

end NodeEntry

namespace Context

/-- The names of the nodes, in the order of the entries. -/
def ids (c : Context) : List String := c.nodes.map (·.id)

/-- The first entry of a name. -/
def findNode (c : Context) (id : String) : Option NodeEntry := c.nodes.find? (·.id = id)

/-- The links of all nodes. -/
def links (c : Context) : List Link := c.nodes.flatMap NodeEntry.links

/-! ### Building -/

/-- The graph with one more node, with nothing stored for it. -/
def addNode (c : Context) (id name : String) : Context :=
  ⟨c.nodes ++ [{ id := id, name := name }]⟩

/-- Changes the state of the node added last, if there is one. -/
def modifyLast (c : Context) (f : NodeState → NodeState) : Context :=
  match c.nodes.getLast? with
  | none => c
  | some n => ⟨c.nodes.dropLast ++ [{ n with state := f n.state }]⟩

/-- Points an output of the last node at a node, or at none. -/
def connect (c : Context) (output : String) (next : Option String) : Context :=
  c.modifyLast fun s => { s with outputs := s.outputs.insert output next }

/-- Changes what is stored of a field of the last node. -/
def modifyField (c : Context) (field : String) (f : FieldState → FieldState) : Context :=
  c.modifyLast fun s =>
    { s with fields := s.fields.insert field (f ((s.fields.get? field).getD {})) }

/-- Stores the text that a field of the last node reads. -/
def consume (c : Context) (field text : String) : Context :=
  c.modifyField field fun s => { s with consumer := some text }

/-- Stores the variable that a field of the last node publishes to. -/
def produce (c : Context) (field name : String) : Context :=
  c.modifyField field fun s => { s with producer := some name }

/-- Stores both halves of a field of the last node. -/
def bind (c : Context) (field : String) (state : FieldState) : Context :=
  c.modifyField field fun _ => state

end Context

end Flowgraph
