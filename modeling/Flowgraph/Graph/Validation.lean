import Flowgraph.Graph.Cycle
import Flowgraph.Node.Registry

/-!
# Findings

Everything that is questionable about a stored graph, all at once: repeated names, links that lead
nowhere, a cycle, and, against the registered types, unknown types, outputs and fields and required
values that are missing. Links and cycles are only reported; every other finding is *fatal*, which
means that the graph is refused when it is loaded.
-/

namespace Flowgraph

/-- A finding about a stored graph. -/
inductive Finding where
  | duplicateNodeId (nodeId : String)
  | brokenLink (nodeId output next : String)
  | unknownNodeType (nodeId nodeType : String)
  | unknownOutput (nodeId output : String)
  | unknownField (nodeId field : String)
  | missingRequiredValue (nodeId field : String)
  | cycleDetected
deriving DecidableEq

namespace Finding

/-- Whether a graph with the finding cannot be loaded. -/
def isFatal : Finding → Bool
  | .brokenLink .. => false
  | .cycleDetected => false
  | _ => true

/-- The text of a finding. -/
def text : Finding → String
  | .duplicateNodeId nodeId => "Duplicate node id '" ++ nodeId ++ "'"
  | .brokenLink nodeId output next =>
    "Output '" ++ output ++ "' of node '" ++ nodeId ++ "' points at unknown node '" ++ next ++ "'"
  | .unknownNodeType nodeId nodeType =>
    "Unknown node type '" ++ nodeType ++ "' for node '" ++ nodeId ++ "'"
  | .unknownOutput nodeId output => "Node '" ++ nodeId ++ "' has no output '" ++ output ++ "'"
  | .unknownField nodeId field => "Node '" ++ nodeId ++ "' has no field '" ++ field ++ "'"
  | .missingRequiredValue nodeId field =>
    "Required field '" ++ field ++ "' on node '" ++ nodeId ++ "' has no value"
  | .cycleDetected => "Cycle detected in graph"

/-- The name of a finding's case. -/
def code : Finding → String
  | .duplicateNodeId _ => "DuplicateNodeId"
  | .brokenLink .. => "BrokenLink"
  | .unknownNodeType .. => "UnknownNodeType"
  | .unknownOutput .. => "UnknownOutput"
  | .unknownField .. => "UnknownField"
  | .missingRequiredValue .. => "MissingRequiredValue"
  | .cycleDetected => "CycleDetected"

end Finding

namespace Context

/-- The elements of a list that occur before, each time they do. -/
def repeated (seen : List String) : List String → List String
  | [] => []
  | a :: rest => if a ∈ seen then a :: repeated seen rest else repeated (a :: seen) rest

/-- A finding for each link to a node that is not there. -/
def brokenLinks (c : Context) : List Finding :=
  (c.links.filter fun l => l.target ∉ c.ids).map fun l => .brokenLink l.source l.output l.target

/-- A finding for each stored member that the type does not have, and for each required field that
has no text to read. -/
def memberFindings (n : NodeEntry) (m : NodeMetadata) : List Finding :=
  (n.state.outputs.keys.filter fun o => (m.findOutput o).isNone).map (.unknownOutput n.id)
    ++ (n.state.fields.keys.filter fun f => (m.findField f).isNone).map (.unknownField n.id)
    ++ m.fields.filterMap fun f =>
      match f.consumer with
      | none => none
      | some c =>
        -- a text in the stored state counts even when it is empty
        let supplied := match n.state.fields.get? f.name with
          | none => false
          | some s => s.consumer.isSome
        if c.required && !supplied && !c.isBound then some (.missingRequiredValue n.id f.name)
        else none

/-- The findings on a node against the descriptions of types. -/
def typeFindings (metadata? : String → Option NodeMetadata) (n : NodeEntry) : List Finding :=
  match metadata? n.name with
  | none => [.unknownNodeType n.id n.name]
  | some m => memberFindings n m

/-- The findings that need no types. -/
def shapeFindings (c : Context) : List Finding :=
  (repeated [] c.ids).map .duplicateNodeId
    ++ c.brokenLinks
    ++ (if c.hasCycle then [.cycleDetected] else [])

/-- All findings, those on types last and only if the types are given. -/
def findings (c : Context) (types : Option (String → Option NodeMetadata)) : List Finding :=
  c.shapeFindings ++ match types with
    | none => []
    | some metadata? => c.nodes.flatMap (typeFindings metadata?)

end Context

end Flowgraph
