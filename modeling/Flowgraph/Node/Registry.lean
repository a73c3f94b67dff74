import Flowgraph.Node.Metadata

/-!
# The registry of node types

The node types that graphs may name, by name. A type is registered with what makes its nodes run, or
with its description alone. What makes nodes run is left open here: it is the parameter `β`.

* `Registry.register_name` : a registered type is found under the name in its description.
* `Registry.get?_register_of_ne` : a registration changes nothing under other names.
-/

namespace Flowgraph

/-- A node type: what it looks like and what its nodes do. -/
structure NodeType (β : Type) where
  metadata : NodeMetadata
  /-- What makes nodes of the type run; without it they cannot be built. -/
  behaviour : Option β

/-- The node types, by name. -/
abbrev Registry (β : Type) := StringMap (NodeType β)

namespace Registry

variable {β : Type}

/-- Adds a node type. A name can be registered once, and the fields and the outputs of a type have
names of their own. -/
def register (r : Registry β) (t : NodeType β) : Except LoadError (Registry β) :=
  if r.contains t.metadata.name then .error (.duplicateNodeType t.metadata.name)
  else match t.metadata.repeatedMember with
    | some (kind, name) => .error (.duplicateMember t.metadata.name kind name)
    | none => .ok (r.insert t.metadata.name t)

/-- Adds node types one after another, up to the first that is refused; those before it stay. -/
def registerAll (r : Registry β) : List (NodeType β) → Registry β × Option LoadError
  | [] => (r, none)
  | t :: rest =>
    match register r t with
    | .error e => (r, some e)
    | .ok r => registerAll r rest

/-- The description of a type. -/
def metadata? (r : Registry β) (nodeType : String) : Option NodeMetadata :=
  (r.get? nodeType).map (·.metadata)

/-- All descriptions, in the order of the names. -/
def allMetadata (r : Registry β) : List NodeMetadata := r.values.map (·.metadata)

/-- The descriptions of one group. -/
def inGroup (r : Registry β) (g : NodeGroup) : List NodeMetadata :=
  r.allMetadata.filter (·.group = g)

/-- The description of a type and what makes its nodes run, for building a node. -/
def instantiate (r : Registry β) (nodeId nodeType : String) : Except LoadError (NodeMetadata × β) :=
  match r.get? nodeType with
  | none => .error (.unknownNodeType nodeId nodeType)
  | some t =>
    match t.behaviour with
    | none => .error (.noConstructor nodeId nodeType)
    | some b => .ok (t.metadata, b)

theorem register_name {r r' : Registry β} {t : NodeType β} (h : r.register t = .ok r') :
    r'.get? t.metadata.name = some t := by
  unfold register at h
  split at h
  · simp at h
  · split at h
    · simp at h
    · simp only [Except.ok.injEq] at h
      subst h
      simp

theorem get?_register_of_ne {r r' : Registry β} {t : NodeType β} {name : String}
    (h : r.register t = .ok r') (hne : name ≠ t.metadata.name) : r'.get? name = r.get? name := by
  unfold register at h
  split at h
  · simp at h
  · split at h
    · simp at h
    · simp only [Except.ok.injEq] at h
      subst h
      exact StringMap.get?_insert_of_ne _ _ hne

end Registry

end Flowgraph
