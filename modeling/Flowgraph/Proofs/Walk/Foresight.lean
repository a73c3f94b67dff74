import Flowgraph.Proofs.Builtin.Triggers
import Flowgraph.Proofs.Graph.Cycle
import Flowgraph.Proofs.Graph.Findings
import Flowgraph.Proofs.Walk.Embodied

/-!
# Walks that can be foreseen

What the findings on a stored graph say about the walks through it. A walk goes from a node to the
one behind its output, at once or when a task takes it up again, so the nodes that it enters lie
along the links of the graph. Where the links form no cycle no node is entered twice, and where none
of them is broken no walk gets lost.

* `Trail`, `Pursuit.trail` — the nodes that a walk enters form a path along the edges of the graph.
* `walks_foreseen` — without a cycle and without a broken link, every walk through the graph enters
  distinct nodes and comes to its end.
-/

namespace Flowgraph

variable {sink : Builtin.Sink} {c : Context}

/-! ### Graphs without questionable links -/

/-- The links of a graph form no cycle, and none of them is broken. -/
structure Context.Clear (c : Context) : Prop where
  acyclic : c.hasCycle = false
  whole : ∀ l ∈ c.links, l.target ∈ c.ids

/-- Links and cycles are looked at with or without the types. -/
theorem Context.clear_of_findings {types : Option (String → Option NodeMetadata)}
    (hcycle : .cycleDetected ∉ c.findings types)
    (hbroken : ∀ id output next, .brokenLink id output next ∉ c.findings types) : c.Clear where
  acyclic := by
    refine Bool.eq_false_iff.mpr fun h => hcycle ?_
    unfold findings shapeFindings
    rw [if_pos h]
    exact List.mem_append_left _ (List.mem_append_right _ List.mem_cons_self)
  whole l hl := by
    -- a link that leads nowhere would have been reported
    by_contra hlost
    have hfound : .brokenLink l.source l.output l.target ∈ c.brokenLinks :=
      List.mem_map.mpr ⟨l, List.mem_filter.mpr ⟨hl, decide_eq_true hlost⟩, rfl⟩
    refine hbroken l.source l.output l.target ?_
    unfold findings shapeFindings
    exact List.mem_append_left _ (List.mem_append_left _ (List.mem_append_right _ hfound))

/-! ### Paths of walks -/

/-- From one next node to another, the nodes that are entered on the way form a path. -/
inductive Trail (edge : String → String → Prop) :
    Option String → List String → Option String → Prop
  | rest (next : Option String) : Trail edge next [] next
  /-- A walk may end early. -/
  | stop (next : Option String) : Trail edge next [] none
  | enter {id : String} {path : List String} {next last : Option String}
      (h : ∀ id' ∈ next, edge id id') (ht : Trail edge next path last) :
      Trail edge (some id) (id :: path) last

namespace Trail

variable {edge : String → String → Prop} {path path' : List String}
  {next last last' : Option String}

theorem of_none (h : Trail edge none path last) : path = [] ∧ last = none := by
  cases h with
  | rest => exact ⟨rfl, rfl⟩
  | stop => exact ⟨rfl, rfl⟩

theorem trans (h : Trail edge next path last) (h' : Trail edge last path' last') :
    Trail edge next (path ++ path') last' := by
  induction h with
  | rest => exact h'
  | stop next =>
    -- there is nothing to enter any more
    obtain ⟨rfl, rfl⟩ := h'.of_none
    exact .stop next
  | enter hedge _ ih => exact .enter hedge (ih h')

/-- The path starts at the next node. -/
theorem head (h : Trail edge next path last) : ∀ id ∈ path.head?, next = some id := by
  cases h with
  | rest => nofun
  | stop => nofun
  | enter hedge _ =>
    intro id hid
    exact hid

theorem isChain (h : Trail edge next path last) : path.IsChain edge := by
  induction h with
  | rest => exact .nil
  | stop => exact .nil
  | @enter id path next last hedge ht ih =>
    cases path with
    | nil => exact .singleton id
    | cons id' path => exact .cons_cons (hedge id' (ht.head id' rfl)) ih

/-- What holds of the next node and is handed on along the edges holds of the whole path. -/
theorem forall_mem {P : String → Prop} (h : Trail edge next path last)
    (hedge : ∀ a b, edge a b → P b) (hnext : ∀ id ∈ next, P id) :
    (∀ id ∈ path, P id) ∧ ∀ id ∈ last, P id := by
  induction h with
  | rest => exact ⟨List.forall_mem_nil _, hnext⟩
  | stop => exact ⟨List.forall_mem_nil _, nofun⟩
  | enter h _ ih =>
    obtain ⟨hpath, hlast⟩ := ih fun id' hid' => hedge _ id' (h id' hid')
    exact ⟨List.forall_mem_cons.mpr ⟨hnext _ rfl, hpath⟩, hlast⟩

end Trail

namespace Engine

variable {e e' m : Engine} {g : GraphId} {s s' : Stand} {vs : List Visit} {rs : List Roll}
  {next : Option String} {w w' : Walk}

/-- The node that a walk through a graph comes to next, wherever the rest of the walk is. No walk
gets lost. -/
inductive Heads (g : GraphId) (e : Engine) : Stand → Option String → Prop
  | walking {w : Walk} (hg : w.graph = g) : Heads g e (.walking w) w.pending
  | waiting {task : TaskId} {t : Task (Nat → Program)} {w : Walk} {next : String}
      (ht : e.scheduler.task? task = some t) (hbody : t.body = fun _ => .walkOn w next)
      (hg : w.graph = g) : Heads g e (.waiting task) (some next)
  | finished : Heads g e (.ended .finished) none
  | failed (err : WorkflowError) : Heads g e (.ended (.failed err)) none

theorem Left.heads {passage : Passage} (h : Left w e m passage s) :
    Heads w.graph m s passage.next? := by
  cases h with
  | onward vars next _ => exact .walking rfl
  | handed delay next ht hcarries => exact .waiting ht hcarries.body rfl
  | failed err _ => exact .failed err

/-- What is behind a node is reached by an edge, where no link is broken. -/
theorem Embodies.edge_of_next (h : Embodies sink c g e) (hc : c.Clear) {n : LiveNode}
    (hn : n ∈ (e.graph g).nodes) {id : String} (hnext : n.node.next = .ok (some id)) :
    (n.id, id) ∈ Graph.edges c := by
  obtain ⟨registry, -, entry, hentry, hbecomes⟩ := h.becomes hn
  obtain ⟨output, hlink⟩ := hbecomes.mem_links hnext
  have hlink : (⟨n.id, output, id⟩ : Link) ∈ c.links := List.mem_flatMap.mpr ⟨entry, hentry, hlink⟩
  exact List.mem_map.mpr
    ⟨_, List.mem_filter.mpr ⟨hlink, decide_eq_true (hc.whole _ hlink)⟩, rfl⟩

/-- **A step of a walk keeps to the edges**, and the walk does not get lost. -/
theorem Pace.trail (h : Pace e s vs rs m s') (he : Embodies sink c g e) (hc : c.Clear)
    (hs : Heads g e s next) (hnext : ∀ id ∈ next, id ∈ c.ids) :
    ∃ last, Heads g m s' last ∧
      Trail (fun a b => (a, b) ∈ Graph.edges c) next (vs.map (·.node)) last := by
  cases hs with
  | @walking w hg =>
    subst hg
    cases h.paced he.enacts with
    | finished ha => exact ⟨none, .finished, .stop _⟩
    | stray ha =>
      -- each name in the graph has its node
      obtain ⟨hpending, hnone⟩ := stray_of_arrival ha
      obtain ⟨n, hn⟩ := he.exists_node? (hnext _ hpending)
      rw [hn] at hnone
      cases hnone
    | stopped ha => exact ⟨none, .failed _, .stop _⟩
    | @entered n w' _ _ ha hpassing hleft =>
      obtain ⟨⟨id, hpending, hn⟩, -, rfl⟩ := entered_of_arrival ha
      have hid := Graph.id_of_node? hn
      refine ⟨_, hleft.heads, ?_⟩
      rw [hpending, ← hid]
      refine .enter (fun id' hid' => ?_) (.rest _)
      exact he.edge_of_next hc (mem_of_arrival ha) (Builtin.Effect.next_of_passage hid')
  | @waiting task t w next ht hbody hg =>
    cases h with
    | later h =>
      -- the task keeps its body
      obtain ⟨t', ht', hkept⟩ := h.evolves.proceeds task t ht
      exact ⟨some next, .waiting ht' (hkept.body.trans hbody) hg, .rest _⟩
    | resumed _ hdue ht' hbody' =>
      rw [ht] at ht'
      cases ht'
      have hwalk := Program.walkOn_inj ((congrFun hbody _).symm.trans hbody')
      exact ⟨some next, hwalk ▸ .walking hg, .rest _⟩
  | finished => cases h
  | failed err => cases h

theorem mem_ids_of_edge {a b : String} (h : (a, b) ∈ Graph.edges c) : b ∈ c.ids := by
  obtain ⟨l, hl, heq⟩ := List.mem_map.mp h
  cases heq
  exact of_decide_eq_true (List.mem_filter.mp hl).2

/-- **The nodes that a walk enters form a path along the edges**, tasks or no tasks. -/
theorem Pursuit.trail (h : Pursuit e s vs rs e' s') (he : Embodies sink c g e) (hc : c.Clear)
    (hs : Heads g e s next) (hnext : ∀ id ∈ next, id ∈ c.ids) :
    ∃ last, Heads g e' s' last ∧ (∀ id ∈ last, id ∈ c.ids) ∧
      Trail (fun a b => (a, b) ∈ Graph.edges c) next (vs.map (·.node)) last := by
  induction h generalizing next with
  | refl => exact ⟨next, hs, hnext, .rest next⟩
  | step hpace _ ih =>
    obtain ⟨last, hlast, htrail⟩ := hpace.trail he hc hs hnext
    -- an edge leads from a node of the graph to one of the graph
    obtain ⟨-, hids⟩ := htrail.forall_mem (fun _ _ => mem_ids_of_edge) hnext
    obtain ⟨last', hlast', hids', htrail'⟩ := ih (he.extends hpace.evolves.extends) hlast hids
    refine ⟨last', hlast', hids', ?_⟩
    rw [List.map_append]
    exact htrail.trans htrail'

/-- **Where there is no cycle, no node is entered twice.** -/
theorem Pursuit.distinct (h : Pursuit e s vs rs e' s') (he : Embodies sink c g e) (hc : c.Clear)
    (hs : Heads g e s next) (hnext : ∀ id ∈ next, id ∈ c.ids) :
    (vs.map (·.node)).Nodup ∧ vs.length ≤ c.ids.length := by
  obtain ⟨last, -, -, htrail⟩ := h.trail he hc hs hnext
  have hnodup := Context.nodup_of_path hc.acyclic htrail.isChain
  have hmem := (htrail.forall_mem (fun _ _ => mem_ids_of_edge) hnext).1
  refine ⟨hnodup, ?_⟩
  rw [← List.length_map (·.node)]
  exact (List.subperm_of_subset hnodup hmem).length_le

/-! ### What can be foreseen -/

/-- **What is known of the walks through the live graph before any is started.** They may be started
at any later time, by anyone, at any node, and with the graph replaced or not. -/
structure Foreseen (m : Engine) : Prop where
  /-- Triggers start walks at nodes of the graph. -/
  triggers : Armed (Program.Within (Request.StartsAt m.live m.nodeIds)) m
  /-- No node is entered twice, and the walk does not get lost. -/
  distinct : ∀ {e e' : Engine} {w : Walk} {id : String} {vs : List Visit} {rs : List Roll}
      {s : Stand},
    Evolves m e → w.graph = m.live → w.pending = some id → id ∈ m.nodeIds →
    Pursuit e (.walking w) vs rs e' s →
    (vs.map (·.node)).Nodup ∧ vs.length ≤ m.nodeIds.length ∧ ∀ lost, s ≠ .ended (.stray lost)
  /-- Wherever the walk is under way it can be run to its end or to where a task takes over. What it
  has entered before is no longer to be entered, so less fuel will do. -/
  returns : ∀ {e e' : Engine} {w w' : Walk} {id : String} {vs : List Visit} {rs : List Roll}
    {fuel : Nat}, Evolves m e → w.graph = m.live → w.pending = some id → id ∈ m.nodeIds →
    Pursuit e (.walking w) vs rs e' (.walking w') → e'.reaches m.live = true →
    m.nodeIds.length < vs.length + fuel →
    ∃ r e'' vs' rs' s, call fuel (.walk w') e' = .returned r e'' ∧
      Pursuit e' (.walking w') vs' rs' e'' s ∧ Answers m.live e'' s r ∧
      e''.visits = e'.visits ++ vs'
  /-- A task that has taken over goes on with the walk when it runs, at a node of the graph. -/
  resumes : ∀ {e e' : Engine} {w : Walk} {id : String} {vs : List Visit} {rs : List Roll}
    {task : TaskId}, Evolves m e → w.graph = m.live → w.pending = some id → id ∈ m.nodeIds →
    Pursuit e (.walking w) vs rs e' (.waiting task) →
    ∃ t w' next, e'.scheduler.task? task = some t ∧ (t.body = fun _ => .walkOn w' next) ∧
      w'.graph = m.live ∧ next ∈ m.nodeIds

theorem Embodies.foreseen (h : Embodies sink c m.live m) (hc : c.Clear)
    (htriggers : Armed (Program.Within (Request.StartsAt m.live m.nodeIds)) m) : Foreseen m := by
  have hids : m.nodeIds = c.ids := h.ids
  have hstart : ∀ {e : Engine} {w : Walk} {id : String}, Evolves m e → w.graph = m.live →
      w.pending = some id → id ∈ m.nodeIds → Embodies sink c m.live e ∧
        Heads m.live e (.walking w) (some id) ∧ ∀ id' ∈ some id, id' ∈ c.ids := by
    intro e w id hm hg hpending hid
    refine ⟨h.extends hm.extends, hpending ▸ .walking hg, fun id' hid' => ?_⟩
    cases hid'
    exact hids ▸ hid
  refine ⟨htriggers, ?_, ?_, ?_⟩
  · intro e e' w id vs rs s hm hg hpending hid hpursuit
    obtain ⟨he, hheads, hnext⟩ := hstart hm hg hpending hid
    obtain ⟨hnodup, hlen⟩ := hpursuit.distinct he hc hheads hnext
    obtain ⟨last, hlast, -, -⟩ := hpursuit.trail he hc hheads hnext
    refine ⟨hnodup, hids ▸ hlen, ?_⟩
    rintro lost rfl
    cases hlast
  · intro e e' w w' id vs rs fuel hm hg hpending hid hpursuit hreach hfuel
    obtain ⟨he, hheads, hnext⟩ := hstart hm hg hpending hid
    obtain ⟨last, hlast, -, -⟩ := hpursuit.trail he hc hheads hnext
    have hg' : w'.graph = m.live := by
      cases hlast with
      | walking hg' => exact hg'
    have henacts : Enacts sink w'.graph e' :=
      hg' ▸ (he.extends hpursuit.evolves.extends).enacts
    rcases henacts.returns_or_pursuit (hg' ▸ hreach) fuel with ⟨r, e'', hcall⟩ | hlong
    · obtain ⟨vs', rs', s, hpursuit', hanswers, hvisits⟩ := pursuit_of_call henacts hcall
      exact ⟨r, e'', vs', rs', s, hcall, hpursuit', hg' ▸ hanswers, hvisits⟩
    · -- the walk would enter more nodes than there are
      obtain ⟨vs', rs', e'', s, hpursuit', hlen'⟩ := hlong
      have hlen := ((hpursuit.trans hpursuit').distinct he hc hheads hnext).2
      rw [List.length_append, hlen', ← hids] at hlen
      exact absurd hlen (Nat.not_le.mpr hfuel)
  · intro e e' w id vs rs task hm hg hpending hid hpursuit
    obtain ⟨he, hheads, hnext⟩ := hstart hm hg hpending hid
    obtain ⟨last, hlast, hmem, -⟩ := hpursuit.trail he hc hheads hnext
    cases hlast with
    | @waiting _ t w' next ht hbody hg' =>
      exact ⟨t, w', next, ht, hbody, hg', hids ▸ hmem next rfl⟩

/-- **Findings foretell walks.** Of a graph over the built-in node types that loads, and on which
neither a cycle nor a broken link is found, no walk enters a node twice; so each comes to its end,
without any guard, after no more hops than there are nodes, and none gets lost. -/
theorem walks_foreseen {types : Option (String → Option NodeMetadata)} (he : Hosted sink e)
    (hr : e.registry.Registered) {fuel : Nat} (h : call fuel (.load c) e = .returned (.ok ()) m)
    (hcycle : .cycleDetected ∉ c.findings types)
    (hbroken : ∀ id output next, .brokenLink id output next ∉ c.findings types) : Foreseen m := by
  have hembodies := embodies_of_load he hr h
  have hclear := Context.clear_of_findings hcycle hbroken
  refine hembodies.foreseen hclear (armed_of_load he.served.1 he.served.2 h fun n hn s hs => ?_)
  obtain ⟨t, ht, hb, -⟩ := hembodies.typed hn
  rw [← hs]
  refine Builtin.arms_init sink ht hb fun id hnext => ?_
  -- what is behind the trigger is a node of the graph
  have hids : m.nodeIds = c.ids := hembodies.ids
  exact hids ▸ mem_ids_of_edge (hembodies.edge_of_next hclear hn hnext)

/-- A trigger, a wait as long as a variable says, and a message behind it. -/
def pausing : Context :=
  (Context.mk [])
    |>.addNode "door" Builtin.EventListener.name
    |>.consume Builtin.EventListener.eventField "PlayerJoin"
    |>.connect "Next" (some "pause")
    |>.addNode "pause" Builtin.Wait.name
    |>.consume Builtin.Wait.delayField "\x7b\x7bdelay\x7d\x7d"
    |>.connect "Next" (some "greet")
    |>.addNode "greet" Builtin.Chat.metadata.name

theorem walks_foreseen_pausing : ∃ m,
    call 1 (.load pausing) (equipped {} .toLog) = .returned (.ok ()) m ∧
      m.nodeIds = ["door", "pause", "greet"] ∧ Foreseen m := by
  have hids : (done? (call 1 (.load pausing) (equipped {} .toLog))).map nodeIds =
      some ["door", "pause", "greet"] := by decide +kernel
  obtain ⟨m, hload, hids⟩ := exists_done hids
  have hfindings : pausing.findings none = [] := by decide +kernel
  have hclear : ∀ f, f ∉ pausing.findings none := fun f => hfindings ▸ List.not_mem_nil
  exact ⟨m, hload, hids, walks_foreseen (hosted_equipped {} .toLog) (registered_builtins .toLog)
    hload (hclear _) fun _ _ _ => hclear _⟩

end Engine

end Flowgraph
