import Flowgraph.Node.Registry
import Flowgraph.Graph.Context

/-!
# Nodes

A node is a private copy of its type's fields and outputs, wired by the state that a graph stores
for it. Wiring goes through the outputs, then through the fields, both in ascending order of names,
and last checks what every field reads; it stops at the first thing that is wrong, and what was
wired before stays wired.

* `NodeInstance.configure` wires a node.
* `NodeInstance.configure_keeps` : wiring sets targets, texts and variables, so it keeps whatever
  these keep, as a node's name and type (`configure_sameKind`).
-/

namespace Flowgraph

/-- An output of a node. -/
structure Output where
  name : String
  description : String
  /-- The node behind the output; without one the output ends a walk. -/
  next : Option String := none
deriving DecidableEq

/-- A node: a copy of what its type describes, and what was wired in it. -/
structure NodeInstance where
  id : String
  metadata : NodeMetadata
  fields : List Field
  outputs : List Output
deriving DecidableEq

namespace NodeInstance

/-- A node as its type describes it, with nothing behind its outputs. -/
def ofMetadata (id : String) (m : NodeMetadata) : NodeInstance where
  id := id
  metadata := m
  fields := m.fields
  outputs := m.outputs.map fun o => { name := o.name, description := o.description }

/-- The name of the node's type. -/
def nodeType (n : NodeInstance) : String := n.metadata.name

/-! ### Looking up -/

/-- The first field of a name. -/
def field? (n : NodeInstance) (name : String) : Option Field := n.fields.find? (·.name = name)

/-- The first output of a name. -/
def output? (n : NodeInstance) (name : String) : Option Output := n.outputs.find? (·.name = name)

/-- The consumer of a field, or what is wrong about asking for it. -/
def consumer (n : NodeInstance) (name : String) : Except FieldFault Consumer :=
  match n.field? name with
  | none => .error .unknownField
  | some f =>
    match f.consumer with
    | none => .error .noConsumer
    | some c => .ok c

/-- The producer of a field, or what is wrong about asking for it. -/
def producer (n : NodeInstance) (name : String) : Except FieldFault Producer :=
  match n.field? name with
  | none => .error .unknownField
  | some f =>
    match f.producer with
    | none => .error .noProducer
    | some p => .ok p

/-- The node behind the first output; a node without outputs has no such answer. -/
def next (n : NodeInstance) : Except WorkflowError (Option String) :=
  match n.outputs with
  | [] => .error (.noOutputs n.id n.nodeType)
  | o :: _ => .ok o.next

/-! ### Wiring -/

/-- Changes the first item that passes a test. -/
def updateFirst {α : Type} (test : α → Bool) (f : α → α) : List α → List α
  | [] => []
  | a :: rest => if test a then f a :: rest else a :: updateFirst test f rest

/-- Puts a node behind an output. -/
def connect (n : NodeInstance) (output : String) (next : Option String) : NodeInstance :=
  { n with
    outputs := updateFirst (·.name = output) (fun o => { o with next := target? next }) n.outputs }

/-- Changes the first field of a name. -/
def modifyField (n : NodeInstance) (name : String) (f : Field → Field) : NodeInstance :=
  { n with fields := updateFirst (·.name = name) f n.fields }

/-- Gives a field the text that it reads. -/
def setValue (n : NodeInstance) (name text : String) : NodeInstance :=
  n.modifyField name fun f =>
    { f with consumer := f.consumer.map fun c => { c with value := some text } }

/-- Gives a field the variable that it publishes to. -/
def setVariable (n : NodeInstance) (name variableName : String) : NodeInstance :=
  n.modifyField name fun f =>
    { f with producer := f.producer.map fun p => { p with name := some variableName } }

/-- Wires outputs one after another, up to one that the node does not have. -/
def connectAll (n : NodeInstance) : List (String × Option String) → NodeInstance × Option LoadError
  | [] => (n, none)
  | (output, next) :: rest =>
    if (n.output? output).isNone then (n, some (.unknownOutput n.id n.nodeType output))
    else (n.connect output next).connectAll rest

/-- Wires both sides of a field, the reading side first. -/
def bindField (n : NodeInstance) (name : String) (s : FieldState) :
    NodeInstance × Option LoadError :=
  match n.field? name with
  | none => (n, some (.unknownField n.id n.nodeType name))
  | some f =>
    match s.consumer, f.consumer with
    -- a text for a side that is missing is refused before anything is set
    | some _, none => (n, some (.invalidFieldValue n.id ⟨name, .noConsumer⟩))
    | text, _ =>
      let n := match text with
        | none => n
        | some text => n.setValue name text
      match s.producer, f.producer with
      | none, _ => (n, none)
      | some _, none => (n, some (.invalidFieldValue n.id ⟨name, .noProducer⟩))
      | some variableName, some _ => (n.setVariable name variableName, none)

/-- Wires fields one after another, up to one that goes wrong. -/
def bindAll (n : NodeInstance) : List (String × FieldState) → NodeInstance × Option LoadError
  | [] => (n, none)
  | (name, s) :: rest =>
    match n.bindField name s with
    | (n, some e) => (n, some e)
    | (n, none) => n.bindAll rest

/-- What is wrong with what a field reads: a required text is missing, or the text does not pass its
check. -/
def fieldFault? (n : NodeInstance) (f : Field) : Option LoadError :=
  match f.consumer with
  | none => none
  | some c =>
    if c.required && !c.isBound then some (.missingRequiredField n.id n.nodeType f.name)
    else match c.check with
      | .ok () => none
      | .error fault => some (.invalidFieldValue n.id ⟨f.name, fault⟩)

/-- The first fault of what the fields read. -/
def fieldsFault? (n : NodeInstance) : Option LoadError := n.fields.findSome? n.fieldFault?

/-- Wires a node. The node comes back as far as it was wired, with what stopped the wiring. -/
def configure (n : NodeInstance) (s : NodeState) : NodeInstance × Option LoadError :=
  match n.connectAll s.outputs.entries with
  | (n, some e) => (n, some e)
  | (n, none) =>
    match n.bindAll s.fields.entries with
    | (n, some e) => (n, some e)
    | (n, none) => (n, n.fieldsFault?)

/-- The node that a graph stores, of a type described by `m`. -/
def ofEntry (e : NodeEntry) (m : NodeMetadata) : Except LoadError NodeInstance :=
  match (ofMetadata e.id m).configure e.state with
  | (n, none) => .ok n
  | (_, some err) => .error err

/-! ### What wiring keeps -/

section Keeps

variable {P : NodeInstance → Prop}

/-- Outputs that are wired one after another keep what each keeps. -/
theorem connectAll_keeps (hconnect : ∀ m output next, P m → P (m.connect output next))
    (es : List (String × Option String)) {n : NodeInstance} (h : P n) : P (n.connectAll es).1 := by
  induction es generalizing n with
  | nil => exact h
  | cons e rest ih =>
    rw [connectAll]
    split
    · exact h
    · exact ih (hconnect n e.1 e.2 h)

/-- To wire a field is to set its text, its variable, both or nothing. -/
theorem bindField_keeps {name : String} (hvalue : ∀ m text, P m → P (m.setValue name text))
    (hvariable : ∀ m variableName, P m → P (m.setVariable name variableName)) (s : FieldState)
    {n : NodeInstance} (h : P n) : P (n.bindField name s).1 := by
  obtain ⟨text, variableName⟩ := s
  -- the text is set first, also where the variable is then refused
  have hset : P (match text with | none => n | some text => n.setValue name text) := by
    cases text with
    | none => exact h
    | some text => exact hvalue n text h
  unfold bindField
  split
  · exact h
  · split
    · exact h
    · dsimp only
      split
      · exact hset
      · exact hset
      · exact hvariable _ _ hset

/-- Fields that are wired one after another keep what each keeps. -/
theorem bindAll_keeps {es : List (String × FieldState)}
    (hbind : ∀ e ∈ es, ∀ m, P m → P (m.bindField e.1 e.2).1) {n : NodeInstance} (h : P n) :
    P (n.bindAll es).1 := by
  induction es generalizing n with
  | nil => exact h
  | cons e rest ih =>
    have hfirst := hbind e List.mem_cons_self n h
    rw [bindAll]
    generalize n.bindField e.1 e.2 = r at hfirst ⊢
    obtain ⟨m, _ | err⟩ := r
    · exact ih (fun e he => hbind e (List.mem_cons_of_mem _ he)) hfirst
    · exact hfirst

/-- To wire a node is to set targets, texts and variables. -/
theorem configure_keeps (hconnect : ∀ m output next, P m → P (m.connect output next))
    (hvalue : ∀ m name text, P m → P (m.setValue name text))
    (hvariable : ∀ m name variableName, P m → P (m.setVariable name variableName)) (s : NodeState)
    {n : NodeInstance} (h : P n) : P (n.configure s).1 := by
  have hout : P (n.connectAll s.outputs.entries).1 := connectAll_keeps hconnect _ h
  rw [configure]
  -- an update that is refused leaves what was done up to then
  generalize n.connectAll s.outputs.entries = r at hout ⊢
  obtain ⟨m, _ | err⟩ := r
  · have hfields : P (m.bindAll s.fields.entries).1 :=
      bindAll_keeps (fun e _ _ => bindField_keeps (hvalue · e.1) (hvariable · e.1) e.2) hout
    dsimp only
    generalize m.bindAll s.fields.entries = r at hfields ⊢
    obtain ⟨m', _ | err⟩ := r
    · exact hfields
    · exact hfields
  · exact hout

end Keeps

/-- Two nodes of one name and one type. -/
def SameKind (a b : NodeInstance) : Prop := a.id = b.id ∧ a.metadata = b.metadata

/-- Outputs that are wired leave name and type alone. -/
theorem connectAll_sameKind (n : NodeInstance) (es : List (String × Option String)) :
    SameKind (n.connectAll es).1 n :=
  connectAll_keeps (P := (SameKind · n)) (fun _ _ _ h => h) es ⟨rfl, rfl⟩

/-- A field that is wired leaves name and type alone. -/
theorem bindField_sameKind (n : NodeInstance) (name : String) (s : FieldState) :
    SameKind (n.bindField name s).1 n :=
  bindField_keeps (P := (SameKind · n)) (fun _ _ h => h) (fun _ _ h => h) s ⟨rfl, rfl⟩

/-- Wiring leaves name and type alone. -/
theorem configure_sameKind (n : NodeInstance) (s : NodeState) : SameKind (n.configure s).1 n :=
  configure_keeps (P := (SameKind · n)) (fun _ _ _ h => h) (fun _ _ _ h => h) (fun _ _ _ h => h) s
    ⟨rfl, rfl⟩

/-- Wiring leaves the name alone. -/
theorem configure_id (n : NodeInstance) (s : NodeState) : (n.configure s).1.id = n.id :=
  (configure_sameKind n s).1

end NodeInstance

end Flowgraph
