import Flowgraph.Proofs.Run.Succession

/-!
# Loading well-formed graphs

What wiring accepts (`Context.WellFormed`), seen from the engine. A load that succeeds leaves
exactly the nodes that the graph describes; a load of a graph that is not well formed is refused
after the old graph was taken down and before any node is initialised, and the error names the first
node at which the graph ceases to be well formed.
-/

namespace Flowgraph

variable {registry : Registry Behaviour} {c : Context}

/-- What is in front in a well-formed graph is well formed. -/
theorem Context.WellFormed.of_append {before after : List NodeEntry}
    (h : Context.WellFormed registry ⟨before ++ after⟩) : Context.WellFormed registry ⟨before⟩ where
  distinct := by
    have hd := h.distinct
    rw [Context.ids, List.map_append] at hd
    exact (List.nodup_append.mp hd).1
  fits e he := h.fits e (List.mem_append_left after he)

namespace Engine

/-- Wiring and loading follow well-formedness. -/
structure Wires (registry : Registry Behaviour) (c : Context) : Prop where
  accepts : (∃ nodes, wire registry c = .ok nodes) ↔ c.WellFormed registry
  /-- The nodes stand in the order of the graph, and each is its type's template with the stored
  state laid over it. -/
  nodes : ∀ nodes, wire registry c = .ok nodes →
    nodes.map (·.id) = c.ids ∧ List.Forall₂ (NodeEntry.Becomes registry) c.nodes nodes
  /-- The graph is well formed in front of the entry that the error names, and not with it. -/
  refuses : ∀ err, wire registry c = .error err → ∃ before e after,
    c.nodes = before ++ e :: after ∧ Context.WellFormed registry ⟨before⟩ ∧
      ¬ Context.WellFormed registry ⟨before ++ [e]⟩ ∧ err.nodeId? = some e.id
  loaded : ∀ fuel e e', Reachable e → e.registry = registry →
    call fuel (.load c) e = .returned (.ok ()) e' →
    c.WellFormed registry ∧ e'.nodeIds = c.ids ∧
      List.Forall₂ (NodeEntry.Becomes registry) c.nodes e'.liveGraph.nodes
  /-- The only stages of a load that is refused are those of the old graph. -/
  unbegun : ∀ fuel e e' r, Reachable e → e.registry = registry → ¬ c.WellFormed registry →
    call fuel (.load c) e = .returned r e' →
    (∃ err, wire registry c = .error err ∧ r = .error (e.refusal err)) ∧
      e'.stages = e.stages ++ unloads e.live e.nodeIds

theorem wire_wired (hr : registry.Registered) (c : Context) :
    Wired registry [] c.nodes (wire registry c) :=
  wireAfter_wired hr [] c.nodes List.nodup_nil

theorem wellFormed_of_wire (hr : registry.Registered) {nodes : List LiveNode}
    (h : wire registry c = .ok nodes) :
    c.WellFormed registry ∧ nodes.map (·.id) = c.ids ∧
      List.Forall₂ (NodeEntry.Becomes registry) c.nodes nodes := by
  have hwired := wire_wired hr c
  rw [h] at hwired
  cases hwired with
  | @ok new hfits hnew hids hdistinct =>
    rw [List.nil_append, hids] at hdistinct
    exact ⟨⟨hdistinct, hfits⟩, hids, hnew⟩

/-- The entry that the error names is the first that keeps the graph from being well formed. -/
theorem first_of_wire (hr : registry.Registered) {err : LoadError}
    (h : wire registry c = .error err) : ∃ before e after,
      c.nodes = before ++ e :: after ∧ Context.WellFormed registry ⟨before⟩ ∧
        ¬ Context.WellFormed registry ⟨before ++ [e]⟩ ∧ err.nodeId? = some e.id := by
  have hwired := wire_wired hr c
  rw [h] at hwired
  cases hwired with
  | @error before after e err hentries hfits hdistinct he herr =>
    rw [List.map_nil, List.nil_append] at hdistinct he
    refine ⟨before, e, after, hentries, ⟨hdistinct, hfits⟩, fun hwell => ?_, herr⟩
    -- if the entry fits, its name is one of those before it
    have hmem := he (hwell.fits e (List.mem_append_right _ List.mem_cons_self))
    have hd := hwell.distinct
    rw [Context.ids, List.map_append, List.nodup_append] at hd
    exact hd.2.2 e.id hmem e.id List.mem_cons_self rfl

theorem accepts_iff (hr : registry.Registered) :
    (∃ nodes, wire registry c = .ok nodes) ↔ c.WellFormed registry := by
  constructor
  · rintro ⟨nodes, h⟩
    exact (wellFormed_of_wire hr h).1
  · intro hwell
    cases h : wire registry c with
    | ok nodes => exact ⟨nodes, rfl⟩
    | error err =>
      -- the first entry that does not fit already spoils what leads up to it
      obtain ⟨before, e, after, hnodes, -, hnot, -⟩ := first_of_wire hr h
      have hsplit : c = ⟨(before ++ [e]) ++ after⟩ := by
        rw [List.append_assoc]
        exact congrArg Context.mk hnodes
      rw [hsplit] at hwell
      exact absurd hwell.of_append hnot

/-- **Loading accepts exactly the well-formed graphs.** -/
theorem wires_of_registered (hr : registry.Registered) (c : Context) : Wires registry c where
  accepts := accepts_iff hr
  nodes _ h := (wellFormed_of_wire hr h).2
  refuses _ h := first_of_wire hr h
  loaded fuel e e' he hreg h := by
    obtain ⟨stages, -, hc⟩ := (loaded_of_call h).2.concluded he.placed.live_lt
    cases hc with
    | @loaded nodes hwire _ _ hnodes =>
      rw [hreg] at hwire
      obtain ⟨hwell, hids, hbecomes⟩ := wellFormed_of_wire hr hwire
      rw [nodeIds, hnodes]
      exact ⟨hwell, hids, hbecomes⟩
  unbegun fuel e e' r he hreg hnot h := by
    have hrefused : ∀ nodes, wire e.registry c ≠ .ok nodes := fun nodes hwire =>
      hnot ((accepts_iff hr).mp ⟨nodes, hreg ▸ hwire⟩)
    obtain ⟨stages, hstages, hc⟩ := (loaded_of_call h).2.concluded he.placed.live_lt
    cases hc with
    | @unstored err hw =>
      -- the graph would have been refused next
      cases hwire : wire e.registry c with
      | ok nodes => exact absurd hwire (hrefused nodes)
      | error err' =>
        refine ⟨⟨err', hreg ▸ hwire, ?_⟩, hstages⟩
        rw [refusal, hw]
        rfl
    | @refused err hw hwire =>
      exact ⟨⟨err, hreg ▸ hwire, congrArg _ (refusal_of_stored hw err).symm⟩, hstages⟩
    | failed _ _ hwire => exact absurd hwire (hrefused _)
    | loaded hwire => exact absurd hwire (hrefused _)

/-- A node type with a text that has to be there, and one output. -/
def greeter : NodeType Behaviour where
  metadata := {
    name := "greeter", group := .action, color := .lime
    fields := [{ name := "text", consumer := some { kind := .string } }]
    outputs := [⟨"next", "Behind the greeting"⟩] }
  behaviour := some {}

/-- What is stored of a node that says hello. -/
def greeting : NodeState where
  outputs := (∅ : StringMap _).insert "next" (some "bye")
  fields := (∅ : StringMap _).insert "text" { consumer := some "hello" }

/-- The node that the wiring of a graph is refused for. -/
def refusedAt? (registry : Registry Behaviour) (c : Context) : Option String :=
  match wire registry c with
  | .ok _ => none
  | .error err => err.nodeId?

/-- A graph of one node, and a graph whose second node has no text. -/
theorem wires_greeting :
    Context.WellFormed ((∅ : StringMap _).insert "greeter" greeter)
      ⟨[⟨"hello", "greeter", greeting⟩]⟩ ∧
    ¬ Context.WellFormed ((∅ : StringMap _).insert "greeter" greeter)
      ⟨[⟨"hello", "greeter", greeting⟩, ⟨"bye", "greeter", {}⟩]⟩ ∧
    refusedAt? ((∅ : StringMap _).insert "greeter" greeter)
      ⟨[⟨"hello", "greeter", greeting⟩, ⟨"bye", "greeter", {}⟩]⟩ = some "bye" := by
  have hr : Registry.Registered ((∅ : StringMap _).insert "greeter" greeter) :=
    .register (t := greeter) .empty rfl
  have hone : (wire ((∅ : StringMap _).insert "greeter" greeter)
      ⟨[⟨"hello", "greeter", greeting⟩]⟩).isOk = true := by decide +kernel
  have htwo : refusedAt? ((∅ : StringMap _).insert "greeter" greeter)
      ⟨[⟨"hello", "greeter", greeting⟩, ⟨"bye", "greeter", {}⟩]⟩ = some "bye" := by decide +kernel
  have hfirst := wires_of_registered hr ⟨[⟨"hello", "greeter", greeting⟩]⟩
  have hboth := wires_of_registered hr ⟨[⟨"hello", "greeter", greeting⟩, ⟨"bye", "greeter", {}⟩]⟩
  refine ⟨hfirst.accepts.mp ?_, fun hwell => ?_, htwo⟩
  · cases h : wire ((∅ : StringMap _).insert "greeter" greeter)
        ⟨[⟨"hello", "greeter", greeting⟩]⟩ with
    | ok nodes => exact ⟨nodes, rfl⟩
    | error err => rw [h] at hone; cases hone
  · obtain ⟨nodes, hnodes⟩ := hboth.accepts.mpr hwell
    rw [refusedAt?, hnodes] at htwo
    cases htwo

end Engine

end Flowgraph
