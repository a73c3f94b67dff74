import Flowgraph.Proofs.Run.Independence
import Flowgraph.Proofs.Run.Requests

/-!
# What triggers leave behind

When its graph is loaded a trigger leaves a listener or a task behind. All that these ever do is to
start walks, at the node behind the trigger's output.

* `Builtin.arms_init` — initialising a node of a built-in type leaves nothing else behind.
* `armed_of_load` — and what the nodes leave behind is all that an engine with a freshly loaded
  graph has to run: the listeners of the graph before it are gone and the tasks made before are
  over.
-/

namespace Flowgraph

/-- A walk is started at one of some nodes of a graph. -/
inductive Request.StartsAt (g : GraphId) (ids : List String) : Request → Prop
  | mk (vars : Variables) {id : String} (h : id ∈ ids) :
      StartsAt g ids (.call (.walk { graph := g, vars := vars, pending := some id }))

namespace Program

theorem Arms.attempt {P : Program → Prop} {α : Type} {r : Except WorkflowError α} {k : α → Program}
    (h : ∀ a, r = .ok a → (k a).Arms P) : (attempt r k).Arms P := by
  cases r with
  | error err => exact .fail err
  | ok a => exact h a rfl

theorem Arms.done {P : Program → Prop} : done.Arms P := .finish ∅ none

end Program

namespace Builtin

variable {n : NodeInstance} {s : Setting} {ids : List String}

theorem arms_eventListener (h : ∀ id, n.next = .ok (some id) → id ∈ ids) :
    (EventListener.init n s).Arms (Program.Within (Request.StartsAt s.graph ids)) := by
  refine .attempt fun key _ => .attempt fun phase _ => .attempt fun p _ => ?_
  refine .attempt fun next hn => ?_
  cases next with
  | none => exact .done
  | some next =>
    refine .subscribe _ _ _ (fun event before => ?_) .done
    show (if before = phase then _ else _ : Program).Within _
    split
    · exact Program.within_startWalk_iff.mpr (.mk _ (h next hn))
    · exact Program.within_done

theorem arms_interval (h : ∀ id, n.next = .ok (some id) → id ∈ ids) :
    (Interval.init n s).Arms (Program.Within (Request.StartsAt s.graph ids)) := by
  refine .attempt fun period _ => .attempt fun next hn => ?_
  cases next with
  | none => exact .done
  | some next =>
    refine .schedule _ _ (fun _ => ?_) fun _ => .attempt fun _ _ => .done
    exact Program.within_startWalk_iff.mpr (.mk _ (h next hn))

/-- **What a node leaves behind starts walks at the node behind its output**, and does nothing
else. -/
theorem arms_init (sink : Sink) {t : NodeType Behaviour} (ht : t ∈ nodeTypes sink) {b : Behaviour}
    (hb : t.behaviour = some b) (h : ∀ id, n.next = .ok (some id) → id ∈ ids) :
    (b.init n s).Arms (Program.Within (Request.StartsAt s.graph ids)) := by
  have hall : ∀ t ∈ nodeTypes sink, ∀ b, t.behaviour = some b →
      (b.init n s).Arms (Program.Within (Request.StartsAt s.graph ids)) := by
    simp only [nodeTypes, List.forall_mem_cons, Option.some.injEq, forall_eq']
    -- the four types that are no triggers have nothing to initialise
    exact ⟨arms_eventListener h, arms_interval h, .done, .done, .done, .done,
      List.forall_mem_nil _⟩
  exact hall t ht b hb

end Builtin

namespace Engine

variable {c : Context} {e m : Engine} {P : Program → Prop} {B : Behaviour → Prop}

/-- What the nodes of a graph leave behind is all that an engine gains by initialising them. -/
theorem gains_of_initAll {nested : (c : Command) → Engine → Run c.Answer} {g : GraphId}
    {before nodes : List LiveNode}
    (hinit : ∀ n ∈ nodes, ∀ s : Setting, s.graph = g → (n.behaviour.init n.node s).Arms P)
    (h : initAll (exec nested) g before nodes e = .returned (.ok ()) m) : Gains P B e m := by
  induction nodes generalizing before e with
  | nil =>
    cases h
    exact .refl _
  | cons n rest ih =>
    obtain ⟨hn, hrest⟩ := List.forall_mem_cons.mp hinit
    obtain ⟨r, m', hexec, hgo⟩ := Run.exists_of_bind h
    have hm' : Gains P B e m' := by
      have hends : Run.Ends (fun _ => Gains P B (e.record (.initialising g n.id))) _
          (exec nested _ _) := (hn (e.setting g) rfl).gains _
      rw [hexec] at hends
      exact (Gains.record e rfl).trans hends
    cases r with
    | error err =>
      -- then the load would fail
      obtain ⟨_, _, -, hend⟩ := Run.exists_of_bind hgo
      cases hend
    | ok step => exact (hm'.trans (.record m' rfl)).trans (ih hrest hgo)

theorem Gains.promote (e : Engine) (g : GraphId) : Gains P B e (e.promote g) := by
  have hfree : Gains P B e { e with hooks := none } :=
    .bare rfl rfl rfl rfl rfl rfl
  have hdropped : Gains P B { e with hooks := none } ({ e with hooks := none }.modifyGraph e.live
      ({ · with dropped := true })) :=
    .modifyGraph _ _ rfl fun _ _ => .inl
  exact (hfree.trans hdropped).trans (.bare rfl rfl rfl rfl rfl rfl)

/-- All that an engine has to run for its live graph is of a kind: the reactions of the listeners,
and the bodies of the tasks that are not over. -/
structure Armed (P : Program → Prop) (e : Engine) : Prop where
  listeners : ∀ key, ∀ l ∈ e.liveGraph.bus.listeners key,
    ∀ event before, P (l.reaction event before)
  tasks : ∀ t ∈ e.pending, ∀ run, P (t.body run)

/-- Where everything is over, what is gained since a graph was raised is all there is to run. -/
theorem Gains.armed {v : Engine} {graph : Graph} (h : Gains P B (v.raise graph) m)
    (hfresh : graph.Fresh) (hover : ∀ t ∈ v.scheduler.tasks, t.isOver = true)
    (hlive : m.live = v.graphs.length) : Armed P m where
  listeners key l hl event before := by
    have hgraph : (v.raise graph).graph m.live = graph := hlive ▸ graph_addGraph_self v graph
    refine (h.listeners m.live key l hl).elim (fun hold => ?_) fun hnew => hnew event before
    rw [hgraph, hfresh.bus] at hold
    cases hold
  tasks t ht run := by
    obtain ⟨hmem, hpending⟩ := List.mem_filter.mp ht
    obtain ⟨i, hi⟩ := List.mem_iff_getElem?.mp hmem
    have ht : m.scheduler.task? (i + 1) = some t := hi
    cases hold : (v.raise graph).scheduler.task? (i + 1) with
    | none => exact h.made _ t ht hold run
    | some t₀ =>
      -- what was made before is over, and stays so
      obtain ⟨t₁, ht₁, hproceeds⟩ := h.proceeds _ t₀ hold
      rw [ht] at ht₁
      cases ht₁
      have hdone := hproceeds.isOver (hover t₀ (Scheduler.mem_of_task? hold))
      rw [hdone] at hpending
      cases hpending

/-- What a load that succeeds comes down to: in an engine in which everything is over a graph is
raised, its nodes are initialised, and it is made live. -/
structure Raised (c : Context) (e v : Engine) (fuel : Nat) (nodes : List LiveNode) (u m : Engine) :
    Prop where
  hooks : v.hooks = none
  live : v.live < v.graphs.length
  isOver : ∀ t ∈ v.scheduler.tasks, t.isOver = true
  circumstances : v.circumstances = e.circumstances
  wired : wire e.registry c = .ok nodes
  initialised : initAll (exec (call fuel)) v.graphs.length [] nodes
    (v.raise { generation := e.generation + 1, context := c, nodes := nodes }) =
      .returned (.ok ()) u
  promoted : ∃ lines, m = (u.promote v.graphs.length).logAll lines

theorem raised_of_load (he : Served e) (hu : Uniform e) {fuel : Nat}
    (h : call (fuel + 1) (.load c) e = .returned (.ok ()) m) :
    ∃ v nodes u, Raised c e v fuel nodes u m := by
  obtain ⟨r, lines, hreplace, hunloaded⟩ :=
    Uniform.replace_returns fuel (e := announce c e) ⟨hu.registry, hu.nodes⟩
      he.reachable.placed.live_lt {}
  have hregistry := registry_vacated lines hunloaded
  rw [call, load_eq fuel he.settled.hooks hunloaded hreplace] at h
  split at h
  · cases h
  cases hwire : wire e.registry c with
  | error err =>
    rw [build, hregistry, hwire] at h
    cases h
  | ok nodes =>
    obtain ⟨answer, u, hrun⟩ := initAll_returns (call fuel)
      (e := (vacated c e r lines).raise
        { generation := e.generation + 1, context := c, nodes := nodes })
      (List.forall_mem_nil _) (uniform_of_wire hu.registry hwire) rfl
    rw [build_of_initAll fuel (hregistry ▸ hwire) hrun] at h
    -- a node that fails would have failed the load
    cases answer with
    | error err => cases h
    | ok a =>
      refine ⟨vacated c e r lines, nodes, u, hooks_vacated c e r lines,
        live_lt_vacated lines hunloaded.moves, he.settled.isOver_vacated lines hunloaded
          he.reachable,
        circumstances_vacated lines hunloaded, hwire, hrun, ?_⟩
      cases h
      exact ⟨_ ++ [_], (logAll_concat ..).symm⟩

namespace Raised

variable {v u : Engine} {nodes : List LiveNode} {fuel : Nat}

theorem moves (h : Raised c e v fuel nodes u m) :
    Moves (v.raise { generation := e.generation + 1, context := c, nodes := nodes }) u :=
  moves_of_initAll rfl h.initialised

/-- The graph that was raised is the live one. -/
theorem live_eq (h : Raised c e v fuel nodes u m) : m.live = v.graphs.length := by
  obtain ⟨lines, rfl⟩ := h.promoted
  exact (Frame.logAll _ lines).live

/-- It is what the initialisation of its nodes has made of it. -/
theorem liveGraph_eq (h : Raised c e v fuel nodes u m) : m.liveGraph = u.graph v.graphs.length := by
  have hlive : u.live = v.live := h.moves.frame.live
  rw [liveGraph, h.live_eq]
  obtain ⟨lines, rfl⟩ := h.promoted
  rw [graph_logAll]
  exact graph_modifyGraph_of_ne _ (hlive ▸ Nat.ne_of_lt h.live)

theorem nodes_eq (h : Raised c e v fuel nodes u m) : m.liveGraph.nodes = nodes := by
  rw [h.liveGraph_eq, (h.moves.frame.graph _).nodes]
  exact congrArg Graph.nodes (graph_addGraph_self v _)

end Raised

/-- **What the nodes of a graph leave behind is all that there is to run when it is loaded.** -/
theorem armed_of_load (he : Served e) (hu : Uniform e) {fuel : Nat}
    (h : call fuel (.load c) e = .returned (.ok ()) m)
    (hinit : ∀ n ∈ m.liveGraph.nodes, ∀ s : Setting, s.graph = m.live →
      (n.behaviour.init n.node s).Arms P) : Armed P m := by
  cases fuel with
  | zero => cases h
  | succ fuel =>
    obtain ⟨v, nodes, u, hraised⟩ := raised_of_load he hu h
    rw [hraised.live_eq, hraised.nodes_eq] at hinit
    have hgains : Gains P (fun _ => True) (v.raise _) u :=
      gains_of_initAll hinit hraised.initialised
    have hlive := hraised.live_eq
    -- what was initialised is what is live afterwards, since promoting it adds nothing
    obtain ⟨lines, rfl⟩ := hraised.promoted
    exact ((hgains.trans (.promote u _)).trans (.logAll _ lines)).armed ⟨rfl, rfl, rfl⟩
      hraised.isOver hlive

end Engine

end Flowgraph
