import Flowgraph.Proofs.Builtin.Uniform
import Flowgraph.Proofs.Run.Renewal

/-!
# Loads do not depend on history

What an engine has been through leaves no mark on a graph that is loaded afterwards. Two engines
over the built-in node types may have loaded, cleared, fired, scheduled and subscribed whatever they
liked: in the same circumstances they load a graph with the same result, and are interchangeable
from then on, as long as the one store takes the graph if the other does.

* `Hosted` — what a host may do with an engine over the built-in node types.
* `Interchangeable` — the live graphs have the same nodes, listeners and tasks, up to the number of
  the graph; and with the same worker pool and the same dice an event has the same effect in both.
* `load_independent` — a load makes engines interchangeable.

No node of a built-in type breaks off or waits for ever while it is initialised or unloaded, so each
replacement of the live graph comes to its end (`Hosted.served`), and nothing of the old graph is
left by then but tasks that are over.
-/

namespace Flowgraph

/-- All node types are built-in ones. -/
def Registry.IsBuiltin (sink : Builtin.Sink) (registry : Registry Behaviour) : Prop :=
  ∀ name t, registry.get? name = some t → t ∈ Builtin.nodeTypes sink

theorem Registry.IsBuiltin.uniform {sink : Builtin.Sink} {registry : Registry Behaviour}
    (h : registry.IsBuiltin sink) : registry.Uniform :=
  fun name t _ ht => Builtin.uniform sink (h name t ht)

namespace Engine

variable {sink : Builtin.Sink} {e e' : Engine} {v v' : Vantage} {phase : Phase}

/-! ### Histories -/

/-- The engines that a host may have made of a new one, over the built-in node types. -/
inductive Hosted (sink : Builtin.Sink) : Engine → Prop
  | created {config : Config} {registry : Registry Behaviour} {catalog : Catalog} {store : Store}
      {s : Scheduler (Nat → Program)} {pool : Option (Pool Program)}
      {dice : Nat → Float → Float → Float} {e : Engine}
      (h : create config registry catalog store (some s) pool dice = .ok e) (hs : s.tasks = [])
      (ht : registry.IsBuiltin sink) : Hosted sink e
  | step {e e' : Engine} (he : Hosted sink e) (h : HostStep e e')
      (ht : e'.registry.IsBuiltin sink) : Hosted sink e'

/-- Routine makes no difference to the nodes. -/
theorem Uniform.routine (hu : Uniform e) (hr : Routine e e') (hregistry : e'.registry.Uniform) :
    Uniform e' := by
  refine ⟨hregistry, ?_⟩
  rw [liveGraph, hr.stays.live, hr.stays.nodes]
  exact hu.nodes

/-- With uniform nodes commands always leave an engine in service, with uniform nodes. -/
theorem Served.call_uniform (fuel : Nat) (c : Command) (e : Engine) (h : Served e ∧ Uniform e) :
    (call fuel c e).Ends (fun _ e' => Served e' ∧ Uniform e') fun e' => Served e' ∧ Uniform e' := by
  refine call_ends (P := fun e => Served e ∧ Uniform e) (fun hq h => ?_) (fun fuel c e h => ?_)
    (fun fuel e h => ?_) fuel c e h
  · -- moves and the two commands that replace a graph, in turn
    have hregistry := hq.move.frame.registry
    exact ⟨h.1.routine (.chore (.quiet hq)), h.2.routine (.chore (.quiet hq))
      (hregistry ▸ h.2.registry)⟩
  · have hlt := h.1.reachable.placed.live_lt
    obtain ⟨r, e', hload⟩ := h.2.load_returns fuel hlt h.1.settled.hooks c
    rw [hload]
    have hcall : call (fuel + 1) (.load c) e = .returned r e' := hload
    exact ⟨h.1.replaced (c := .load c) trivial hcall, h.2.loaded hlt (loaded_of_load fuel hload).2⟩
  · have hlt := h.1.reachable.placed.live_lt
    obtain ⟨e', hclear⟩ := h.2.clear_returns fuel hlt h.1.settled.hooks
    rw [hclear]
    have hcall : call (fuel + 1) .clear e = .returned () e' := hclear
    exact ⟨h.1.replaced (c := .clear) trivial hcall,
      h.2.cleared hlt (cleared_of_clear fuel hclear).2⟩

/-- **Whatever the host does, an engine over the built-in node types stays in service.** -/
theorem Hosted.served (h : Hosted sink e) : Served e ∧ Uniform e := by
  induction h with
  | created h hs ht =>
    obtain ⟨hgraphs, hlive, -⟩ := of_create h
    refine ⟨.created h hs, (registry_of_create h).symm ▸ ht.uniform, ?_⟩
    rw [liveGraph, graph, hgraphs, hlive]
    exact List.forall_mem_nil _
  | step _ h ht ih =>
    -- a registration is the one step that brings new node types
    refine h.keeps (P := fun e => Served e ∧ Uniform e) (fun hr hregistry h => ?_) (fun t hr => ?_)
      Served.call_uniform ih
    · exact ⟨h.1.routine hr, h.2.routine hr (hregistry ▸ h.2.registry)⟩
    · have hroutine : Routine _ _ := .supply (supply_of_register hr)
      exact ⟨ih.1.routine hroutine, ih.2.routine hroutine ht.uniform⟩

/-! ### Engines that are interchangeable -/

/-- The tasks that are not over. -/
def pending (e : Engine) : List (Task (Nat → Program)) := e.scheduler.tasks.filter (!·.isOver)

/-- **The live graphs are the same**, up to the number of the graph: their nodes with what they are
wired to and what they do, their listeners under each key in order, and their tasks, which are all
the tasks that are not over. -/
structure SameGraph (e e' : Engine) : Prop where
  /-- Nothing keeps events from being delivered. -/
  hooks : e.hooks = none
  hooks' : e'.hooks = none
  context : e.context = e'.context
  nodes : e.liveGraph.nodes = e'.liveGraph.nodes
  listeners : ∀ key, List.Forall₂ (Listener.Twins e.live e'.live)
    (e.liveGraph.bus.listeners key) (e'.liveGraph.bus.listeners key)
  tasks : List.Forall₂ (Task.Twins e.live e'.live) e.pending e'.pending
  due : e.pending.map Task.due? = e'.pending.map Task.due?
  taskCount : e.taskCount = e'.taskCount

/-- What programs of a live graph use that is no part of it. -/
structure Supplies where
  pool : Pool Program
  dice : Nat → Float → Float → Float
  drawn : Nat

/-- The engine with other supplies. -/
def supply (e : Engine) (s : Supplies) : Engine :=
  { e with pool := s.pool, dice := s.dice, drawn := s.drawn }

/-- **Two runs have the same effect**: they give the same answer, add the same entries to the
journal, hand in the same jobs, make as many draws, and leave graphs that are the same again. Or
neither of them comes to an end. -/
inductive SameEffect (e e' : Engine) {α : Type} : Run α → Run α → Prop
  | returned (a : α) {m m' : Engine} (hgraph : SameGraph m m') (hpool : m.pool = m'.pool)
      (hdrawn : m.drawn = m'.drawn)
      (hjournal : ∃ since since', m.journal = since ++ e.journal ∧
        m'.journal = since' ++ e'.journal ∧
        List.Forall₂ (Entry.Twins e.live e'.live) since since') :
      SameEffect e e' (.returned a m) (.returned a m')
  | diverged : SameEffect e e' .diverged .diverged

/-- **Engines that are interchangeable**: their live graphs are the same, and with the same worker
pool and the same dice, what is the same in both graphs has the same effect. -/
structure Interchangeable (e e' : Engine) : Prop where
  graph : SameGraph e e'
  /-- Reactions of listeners and bodies of tasks are such programs. -/
  perform : ∀ s fuel p p', Program.Twins e.live e'.live .live p p' →
    SameEffect (e.supply s) (e'.supply s) (perform fuel p (e.supply s))
      (perform fuel p' (e'.supply s))
  fire : ∀ s fuel event before, SameEffect (e.supply s) (e'.supply s)
    (call fuel (.fire event before) (e.supply s)) (call fuel (.fire event before) (e'.supply s))

/-! ### Engines with graphs that are alike -/

theorem Alike.sameGraph (h : Alike v v' phase e e') (hhooks : e.hooks = none)
    (hhooks' : e'.hooks = none) (hlive : e.live = v.graph) (hlive' : e'.live = v'.graph)
    (hover : ∀ t ∈ v.tasks, t.isOver = true)
    (hover' : ∀ t ∈ v'.tasks, t.isOver = true) : SameGraph e e' := by
  have hgraph := h.graph
  rw [← hlive, ← hlive'] at hgraph
  obtain ⟨made, made', hs, hs', hmade⟩ := h.tasks
  rw [← hlive, ← hlive'] at hmade
  -- what was made before is over, so the tasks that are not are among those that were made since
  have hpending : ∀ (past made : List (Task (Nat → Program))), (∀ t ∈ past, t.isOver = true) →
      (past ++ made).filter (!·.isOver) = made.filter (!·.isOver) := by
    intro past made hpast
    rw [List.filter_append, List.filter_eq_nil_iff.mpr fun t ht => by simp [hpast t ht],
      List.nil_append]
  have htasks : List.Forall₂ (Task.Twins e.live e'.live) e.pending e'.pending := by
    rw [pending, pending, hs, hs', hpending _ _ hover, hpending _ _ hover']
    exact List.rel_filter (fun t t' ht => by simp only [ht.isOver]) hmade
  exact {
    hooks := hhooks
    hooks' := hhooks'
    context := hgraph.context
    nodes := hgraph.nodes
    listeners := by
      have hl := hgraph.listeners
      rw [← hlive, ← hlive'] at hl
      exact hl
    tasks := htasks
    due := by
      have hdue := List.rel_map (P := Eq) (fun _ _ ht => ht.due?) htasks
      rw [List.forall₂_eq_eq_eq] at hdue
      exact hdue
    taskCount := by
      obtain ⟨places, htracked, htracked'⟩ := hgraph.tracked
      rw [taskCount, taskCount, TaskRegistry.size, TaskRegistry.size, liveGraph, liveGraph,
        htracked, htracked', List.length_map, List.length_map] }

/-- Graphs that are level are alike as live graphs, once the supplies are the same. -/
theorem Level.supply (h : Level v v' e e') (s : Supplies) :
    Alike ⟨v.graph, v.tasks, e.journal⟩ ⟨v'.graph, v'.tasks, e'.journal⟩ .live (e.supply s)
      (e'.supply s) :=
  have hg := h.alike.graph
  { h.alike with
    graph := ⟨hg.context, hg.nodes, hg.uniform, hg.listeners, hg.tracked, hg.takes, hg.takes'⟩
    shared := fun _ => ⟨h.live, h.live', h.hooks, h.hooks', rfl, rfl, rfl, [], [], rfl, rfl, .nil⟩ }

/-- What runs alike has the same effect. -/
theorem Level.sameEffect {α : Type} (h : Level v v' e e') {r r' : Run α}
    (hr : Run.Same (Alike ⟨v.graph, v.tasks, e.journal⟩ ⟨v'.graph, v'.tasks, e'.journal⟩ .live)
      r r') (s : Supplies) : SameEffect (e.supply s) (e'.supply s) r r' := by
  cases hr with
  | diverged => exact .diverged
  | returned a hm =>
    have hs := hm.shared rfl
    refine .returned a (hm.sameGraph hs.hooks hs.hooks' hs.live hs.live' h.past h.past') hs.pool
      hs.drawn ?_
    have hjournal := hs.journal
    rw [← h.live, ← h.live'] at hjournal
    exact hjournal

theorem Level.interchangeable (h : Level v v' e e') : Interchangeable e e' where
  graph := h.alike.sameGraph h.hooks h.hooks' h.live h.live' h.past h.past'
  perform s fuel p p' hp := by
    rw [h.live, h.live'] at hp
    have hrun : Run.Same
        (Alike ⟨v.graph, v.tasks, e.journal⟩ ⟨v'.graph, v'.tasks, e'.journal⟩ .live)
        (perform fuel p (e.supply s)) (perform fuel p' (e'.supply s)) :=
      exec_alike (call fuel) (call fuel) (fun _ w m m' hm => walk_alike fuel w hm) hp (h.supply s)
    exact h.sameEffect hrun s
  fire s fuel event before := h.sameEffect (fire_alike fuel event before (h.supply s)) s

/-- **A load does not depend on history.** In the same circumstances any two engines over the
built-in node types load a graph with the same result, and are interchangeable afterwards. Their
stores may be any two that both take the graph, as those in memory always do, or both refuse it. -/
theorem load_independent {e₁ e₂ : Engine} (h₁ : Hosted sink e₁) (h₂ : Hosted sink e₂)
    (hsame : e₁.circumstances = e₂.circumstances)
    (hstore : e₁.store.writeError? = e₂.store.writeError?) (c : Context) (fuel : Nat) :
    ∃ r e₁' e₂', call (fuel + 1) (.load c) e₁ = .returned r e₁' ∧
      call (fuel + 1) (.load c) e₂ = .returned r e₂' ∧ Interchangeable e₁' e₂' := by
  obtain ⟨r, e₁', e₂', hload₁, hload₂, v, v', hl⟩ :=
    loads_level fuel fuel h₁.served.1 h₂.served.1 h₁.served.2 h₂.served.2 hsame hstore c
  exact ⟨r, e₁', e₂', hload₁, hload₂, hl.interchangeable⟩

/-- A new engine that knows the event listener and the sample events. -/
def attentive : Engine :=
  { newborn ((∅ : StringMap _).insert Builtin.EventListener.name
      ⟨Builtin.EventListener.metadata, some Builtin.EventListener.behaviour⟩) with
    catalog := .sample }

theorem isBuiltin_attentive : attentive.registry.IsBuiltin sink := by
  intro name t ht
  by_cases hname : name = Builtin.EventListener.name
  · subst hname
    have hself := StringMap.get?_insert_self (∅ : StringMap (NodeType Behaviour))
      Builtin.EventListener.name
      ⟨Builtin.EventListener.metadata, some Builtin.EventListener.behaviour⟩
    obtain rfl := Option.some.inj (hself.symm.trans ht)
    exact List.mem_cons_self
  · have hother := StringMap.get?_insert_of_ne (∅ : StringMap (NodeType Behaviour))
      ⟨Builtin.EventListener.metadata, some Builtin.EventListener.behaviour⟩ hname
    cases hother.symm.trans ht

/-- A listener for players that join, which walks on to itself. -/
def doorbell : NodeEntry where
  id := "door"
  name := Builtin.EventListener.name
  state := {
    outputs := (∅ : StringMap _).insert "Next" (some "door")
    fields := (∅ : StringMap _).insert Builtin.EventListener.eventField
      { consumer := some "PlayerJoin" } }

/-- How many listeners there are under a key after a load that succeeds. -/
def audience? (key : EventKey) : Run (Except WorkflowError Unit) → Option Nat
  | .returned (.ok _) e => some (e.liveGraph.bus.listeners key).length
  | _ => none

/-- A new engine, and one that has made a timer of the host, cleared it away with its graph, and has
a listener of the host. -/
theorem load_independent_doorbell : ∃ e m m', Hosted .toLog attentive ∧ Hosted .toLog e ∧
    attentive.circumstances = e.circumstances ∧
    e.generation = 1 ∧ e.scheduler.tasks.length = 1 ∧
    (e.liveGraph.bus.listeners (.ofType "PlayerJoin")).length = 1 ∧
    call 1 (.load ⟨[doorbell]⟩) attentive = .returned (.ok ()) m ∧
    call 1 (.load ⟨[doorbell]⟩) e = .returned (.ok ()) m' ∧
    (m.liveGraph.bus.listeners (.ofType "PlayerJoin")).length = 1 ∧ Interchangeable m m' := by
  obtain ⟨a, b, e, hadd, hclear, hon, ha, hb, he, hsame, hstore, hgeneration, hlen, hheard⟩ :
      ∃ a b e,
      attentive.addTask (.once (.ofMillis 5)) (fun _ => .done) = .returned (.ok 1) a ∧
      call 1 .clear a = .returned () b ∧
      b.on (.ofType "PlayerJoin") ⟨⟨none, 7⟩, fun _ _ => .done⟩ = .returned () e ∧
      a.registry = attentive.registry ∧ b.registry = attentive.registry ∧
      e.registry = attentive.registry ∧ attentive.circumstances = e.circumstances ∧
      attentive.store.writeError? = e.store.writeError? ∧ e.generation = 1 ∧
      e.scheduler.tasks.length = 1 ∧
      (e.liveGraph.bus.listeners (.ofType "PlayerJoin")).length = 1 :=
    ⟨_, _, _, rfl, rfl, rfl, rfl, rfl, rfl, rfl, rfl, rfl, rfl, rfl⟩
  have hcreate : create {} attentive.registry .sample .inMemory (some {}) none
      (fun _ low _ => low) = .ok attentive := rfl
  have hnew : Hosted .toLog attentive := .created hcreate rfl isBuiltin_attentive
  -- a timer, a clear and a listener are three steps of a host
  have hhosted : Hosted .toLog e :=
    .step (.step (.step hnew (.dealing (.addTask _ _ (.of_returned hadd)))
      (ha ▸ isBuiltin_attentive)) (.dealing (.call 1 .clear (.of_returned hclear)))
      (hb ▸ isBuiltin_attentive)) (.dealing (.on _ _ (.of_returned hon)))
      (he ▸ isBuiltin_attentive)
  obtain ⟨r, m, m', hload, hload', hm⟩ := load_independent hnew hhosted hsame hstore ⟨[doorbell]⟩ 0
  -- that the load succeeds is seen from the listener that it leaves
  have haudience : audience? (.ofType "PlayerJoin") (call 1 (.load ⟨[doorbell]⟩) attentive) =
      some 1 := by decide +kernel
  rw [hload] at haudience
  cases r with
  | error err => cases haudience
  | ok _ =>
    exact ⟨e, m, m', hnew, hhosted, hsame, hgeneration, hlen, hheard, hload, hload',
      Option.some.inj haudience, hm⟩

end Engine

end Flowgraph
