import Flowgraph.Proofs.Run.Independence
import Flowgraph.Proofs.Run.Loading
import Flowgraph.Proofs.Walk.Pursuit

/-!
# Loaded graphs and stored ones

A walk goes through a loaded graph, and what is stored is a context. When a context is loaded over
the built-in node types, each of its entries becomes a node that plays a role and that leads to
where the entry's links lead to. That stays so for as long as the graph is there.

* `Embodies` — a loaded graph is a stored one, wired over built-in node types.
* `embodies_of_load` — as is the graph that was loaded last.
* `equipped` — a new engine that knows all built-in node types.
* `NodeEntry.Becomes.mem_links` — what is behind a node is the target of a link of its entry.
-/

namespace Flowgraph

variable {sink : Builtin.Sink} {c : Context} {registry : Registry Behaviour}

/-- What is behind the output of a node is the target of a link of its entry. -/
theorem NodeEntry.Becomes.mem_links {entry : NodeEntry} {n : LiveNode}
    (h : entry.Becomes registry n) {id : String} (hnext : n.node.next = .ok (some id)) :
    ∃ output, ⟨n.id, output, id⟩ ∈ entry.links := by
  obtain ⟨t, b, -, -, rfl⟩ := h
  -- the first output of the type is the one that counts
  have htarget : ∃ output, entry.state.target output = some id := by
    unfold NodeInstance.next NodeMetadata.overlay at hnext
    dsimp only at hnext
    cases hout : t.metadata.outputs with
    | nil =>
      rw [hout] at hnext
      cases hnext
    | cons o rest =>
      rw [hout] at hnext
      exact ⟨o.name, Except.ok.inj hnext⟩
  obtain ⟨output, htarget⟩ := htarget
  obtain ⟨hstored, hname⟩ := Option.filter_eq_some_iff.mp htarget
  have hkept : target? (some id) = some id := Option.filter_eq_some_iff.mpr ⟨rfl, hname⟩
  refine ⟨output, List.mem_filterMap.mpr ⟨(output, some id), ?_, ?_⟩⟩
  · exact StringMap.mem_entries_iff.mpr (Option.join_eq_some_iff.mp hstored)
  · show (target? (some id)).map _ = _
    rw [hkept]
    rfl

/-- The nodes of a wired graph are those that its entries became. -/
theorem exists_entry_of_wire (hr : registry.Registered) {nodes : List LiveNode}
    (h : Engine.wire registry c = .ok nodes) {n : LiveNode} (hn : n ∈ nodes) :
    ∃ entry ∈ c.nodes, NodeEntry.Becomes registry entry n := by
  obtain ⟨hlen, hbecomes⟩ := List.forall₂_iff_get.mp (Engine.wellFormed_of_wire hr h).2.2
  obtain ⟨i, hi, rfl⟩ := List.mem_iff_getElem.mp hn
  exact ⟨c.nodes[i], List.getElem_mem _, hbecomes i (hlen ▸ hi) hi⟩

/-- Of the built-in types only triggers have something to do when they are initialised. -/
theorem Builtin.init_eq_done {t : NodeType Behaviour} (ht : t ∈ nodeTypes sink)
    (hgroup : t.metadata.group ≠ .trigger) {b : Behaviour} (hb : t.behaviour = some b)
    (n : NodeInstance) (s : Setting) : b.init n s = .done := by
  have hall : ∀ t ∈ nodeTypes sink, t.metadata.group ≠ .trigger →
      ∀ b, t.behaviour = some b → b.init n s = .done := by
    simp only [nodeTypes, List.forall_mem_cons, Option.some.injEq, forall_eq']
    exact ⟨fun h => absurd rfl h, fun h => absurd rfl h, fun _ => rfl, fun _ => rfl, fun _ => rfl,
      fun _ => rfl, List.forall_mem_nil _⟩
  exact hall t ht hgroup b hb

namespace Engine

variable {e e' m : Engine} {g : GraphId}

/-- A hosted engine has the built-in types only. -/
theorem Hosted.isBuiltin (h : Hosted sink e) : e.registry.IsBuiltin sink := by
  cases h with
  | created h _ ht => exact (registry_of_create h).symm ▸ ht
  | step _ _ ht => exact ht

/-- A loaded graph is a stored one, wired over built-in node types. -/
structure Embodies (sink : Builtin.Sink) (c : Context) (g : GraphId) (e : Engine) : Prop where
  lt : g < e.graphs.length
  wired : ∃ registry : Registry Behaviour, registry.IsBuiltin sink ∧ registry.Registered ∧
    wire registry c = .ok (e.graph g).nodes

/-- A graph that embodies a description goes on doing so. -/
theorem Embodies.extends (h : Embodies sink c g e) (he : Extends e e') : Embodies sink c g e' where
  lt := Nat.lt_of_lt_of_le h.lt he.length
  wired := by
    rw [he.nodes g h.lt]
    exact h.wired

/-- **The live graph is the one that was loaded last.** -/
theorem embodies_of_load (he : Hosted sink e) (hr : e.registry.Registered) {fuel : Nat}
    (h : call fuel (.load c) e = .returned (.ok ()) m) : Embodies sink c m.live m := by
  obtain ⟨-, hl⟩ := loaded_of_call h
  obtain ⟨stages, -, hc⟩ := hl.concluded he.served.1.reachable.placed.live_lt
  cases hc with
  | loaded hwire hlive hlen hnodes =>
    refine ⟨?_, e.registry, he.isBuiltin, hr, ?_⟩
    · -- the graph that was added is the last
      rw [hlive, hlen]
      exact Nat.lt_succ_self _
    · rw [hwire, ← hnodes]
      rfl

/-- **A well-formed graph without triggers is always loaded**, if it can be stored. -/
theorem Hosted.loads (he : Hosted sink e) (hr : e.registry.Registered)
    (hw : e.store.writeError? = none) (hwell : c.WellFormed e.registry) (hquiet : ∀ entry ∈ c.nodes,
      ∀ t ∈ e.registry.get? entry.name, t.metadata.group ≠ .trigger) (fuel : Nat) :
    ∃ m, call (fuel + 1) (.load c) e = .returned (.ok ()) m := by
  obtain ⟨nodes, hwire⟩ := (accepts_iff hr).mpr hwell
  refine he.served.2.loads fuel he.served.1.reachable.placed.live_lt he.served.1.settled.hooks hw
    hwire
    fun n hn setting => ?_
  obtain ⟨entry, hentry, t, b, ht, hb, rfl⟩ := exists_entry_of_wire hr hwire hn
  exact Builtin.init_eq_done (he.isBuiltin _ t ht) (hquiet entry hentry t ht) hb _ setting

/-- Each of its nodes was wired from an entry. -/
theorem Embodies.becomes (h : Embodies sink c g e) {n : LiveNode} (hn : n ∈ (e.graph g).nodes) :
    ∃ registry, registry.IsBuiltin sink ∧
      ∃ entry ∈ c.nodes, NodeEntry.Becomes registry entry n := by
  obtain ⟨registry, hbuiltin, hr, hwire⟩ := h.wired
  exact ⟨registry, hbuiltin, exists_entry_of_wire hr hwire hn⟩

/-- Its nodes have the names of the entries. -/
theorem Embodies.ids (h : Embodies sink c g e) : (e.graph g).nodes.map (·.id) = c.ids := by
  obtain ⟨registry, -, hr, hwire⟩ := h.wired
  exact (wellFormed_of_wire hr hwire).2.1

/-- There is a node for each name, which bears it. -/
theorem Embodies.exists_node? (h : Embodies sink c g e) {id : String} (hid : id ∈ c.ids) :
    ∃ n, (e.graph g).node? id = some n := by
  -- some node bears the name, and the first one that does is found
  rw [← h.ids] at hid
  obtain ⟨n, hn, hname⟩ := List.mem_map.mp hid
  refine Option.isSome_iff_exists.mp (List.find?_isSome.mpr ⟨n, hn, decide_eq_true hname⟩)

/-- Each of its nodes is of a built-in type. -/
theorem Embodies.typed (h : Embodies sink c g e) {n : LiveNode} (hn : n ∈ (e.graph g).nodes) :
    ∃ t ∈ Builtin.nodeTypes sink, t.behaviour = some n.behaviour ∧
      n.node.metadata = t.metadata := by
  obtain ⟨registry, hbuiltin, entry, -, t, b, ht, hb, rfl⟩ := h.becomes hn
  exact ⟨t, hbuiltin _ t ht, hb, rfl⟩

/-- Its nodes play the parts that walks can follow. -/
theorem Embodies.enacts (h : Embodies sink c g e) : Enacts sink g e where
  lt := h.lt
  roles n hn := by
    obtain ⟨t, ht, hb, hmetadata⟩ := h.typed hn
    rw [Builtin.execute_eq sink ht hb, NodeInstance.role, NodeInstance.nodeType, hmetadata]

end Engine

/-! ### All built-in types at once -/

/-- Registrations one after another. -/
theorem Registry.Registered.registerAll {r : Registry Behaviour} (hr : r.Registered)
    (ts : List (NodeType Behaviour)) : (r.registerAll ts).1.Registered := by
  induction ts generalizing r with
  | nil => exact hr
  | cons t rest ih =>
    unfold Registry.registerAll
    cases h : r.register t with
    | error err => exact hr
    | ok r' => exact ih (.register hr h)

/-- Built-in types are registered one after another. -/
theorem Registry.IsBuiltin.registerAll {r : Registry Behaviour} (hr : r.IsBuiltin sink)
    {ts : List (NodeType Behaviour)} (hts : ts ⊆ Builtin.nodeTypes sink) :
    (r.registerAll ts).1.IsBuiltin sink := by
  induction ts generalizing r with
  | nil => exact hr
  | cons t rest ih =>
    obtain ⟨ht, hrest⟩ := List.cons_subset.mp hts
    unfold Registry.registerAll
    cases h : r.register t with
    | error err => exact hr
    | ok r' =>
      refine ih (fun name t' ht' => ?_) hrest
      -- a name is that of the new type or was there before
      by_cases hname : name = t.metadata.name
      · rw [hname, register_name h] at ht'
        exact Option.some.inj ht' ▸ ht
      · rw [get?_register_of_ne h hname] at ht'
        exact hr name t' ht'

/-- The registry of all built-in node types. -/
def builtins (sink : Builtin.Sink) : Registry Behaviour :=
  (Registry.registerAll ∅ (Builtin.nodeTypes sink)).1

/-- The built-in types can be registered. -/
theorem registered_builtins (sink : Builtin.Sink) : (builtins sink).Registered :=
  .registerAll .empty _

/-- The built-in types are built in. -/
theorem isBuiltin_builtins (sink : Builtin.Sink) : (builtins sink).IsBuiltin sink := by
  refine .registerAll (fun name t ht => ?_) (List.Subset.refl _)
  cases (StringMap.get?_empty name).symm.trans ht

/-- A new engine that knows all built-in node types and the sample events. -/
def equipped (config : Config) (sink : Builtin.Sink) : Engine :=
  { Engine.newborn (builtins sink) with config := config, catalog := .sample }

/-- An engine with the built-in types is hosted. -/
theorem hosted_equipped (config : Config) (sink : Builtin.Sink) :
    Engine.Hosted sink (equipped config sink) := by
  have hcreate : Engine.create config (builtins sink) .sample .inMemory (some {})
      (some (.ofSize 20)) (fun _ low _ => low) = .ok (equipped config sink) := rfl
  exact .created hcreate rfl (isBuiltin_builtins sink)

/-- What a command leaves that succeeds. -/
def Engine.done? : Run (Except WorkflowError Unit) → Option Engine
  | .returned (.ok _) e => some e
  | _ => none

theorem Engine.exists_done {α : Type} {f : Engine → α} {a : α} {r : Run (Except WorkflowError Unit)}
    (h : (Engine.done? r).map f = some a) : ∃ m, r = .returned (.ok ()) m ∧ f m = a := by
  rcases r with ⟨err | _, m⟩ | m | _
  · cases h
  · exact ⟨m, rfl, Option.some.inj h⟩
  · cases h
  · cases h

end Flowgraph
