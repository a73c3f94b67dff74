import Flowgraph.Graph.Context

/-!
# Cycles

Whether the links of a graph form a cycle. Nodes that no link leads to are taken away, one after
another, together with the links that leave them; a cycle is what is left when no such node remains.
Nodes of one name count as one node, and links to unknown nodes do not count.

* `Context.hasCycle` decides it.
* `Degrees` and `peel` carry the work: the number of links that still lead to each node, and the
  nodes to which none does.
-/

namespace Flowgraph.Graph

/-- How many of the links that are left lead to each node. -/
abbrev Degrees := StringMap Nat

/-- The names of the nodes, each once and ascending. -/
def vertices (c : Context) : List String := (StringMap.ofList (c.ids.map (·, ()))).keys

/-- The links between nodes of the graph, as pairs of names. -/
def edges (c : Context) : List (String × String) :=
  (c.links.filter fun l => l.target ∈ c.ids).map fun l => (l.source, l.target)

/-- How many links lead to each node. -/
def inDegrees (vs : List String) (es : List (String × String)) : Degrees :=
  StringMap.ofList (vs.map fun v => (v, es.countP (·.2 = v)))

/-- Takes one edge to a vertex away, and lists the vertex as free if it was the last. -/
def release (state : Degrees × List String) (v : String) : Degrees × List String :=
  let (degrees, free) := state
  match degrees.get? v with
  | none => (degrees, free)
  | some d => (degrees.insert v (d - 1), if d - 1 = 0 then free ++ [v] else free)

/-- Takes free vertices away, in the order in which they became free, and counts them. Every vertex
becomes free at most once, so the number of vertices is fuel enough. -/
def peel (es : List (String × String)) : Nat → Degrees → List String → Nat
  | 0, _, _ => 0
  | _, _, [] => 0
  | fuel + 1, degrees, v :: free =>
    let targets := (es.filter (·.1 = v)).map (·.2)
    let (degrees, free) := targets.foldl release (degrees, free)
    peel es fuel degrees free + 1

/-- The number of vertices that can be taken away, starting with the free ones in a given order. -/
def peeled (es : List (String × String)) (order : List String) : Nat :=
  let degrees := inDegrees order es
  peel es order.length degrees (order.filter fun v => degrees.get? v = some 0)

end Flowgraph.Graph

namespace Flowgraph

/-- Whether some vertex cannot be taken away. -/
def Context.hasCycle (c : Context) : Bool :=
  Graph.peeled (Graph.edges c) (Graph.vertices c) < (Graph.vertices c).length

end Flowgraph
