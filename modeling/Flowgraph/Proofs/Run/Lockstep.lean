import Flowgraph.Proofs.Run.Abreast

/-!
# Commands side by side

Engines that go abreast answer every command alike, and go abreast afterwards: walks enter the same
nodes, events reach the same listeners and fail with as many of them, graphs are loaded and taken
down alike, and as time passes the same tasks run.

* `deliver_abreast`, `walk_abreast`, `load_abreast` — the commands, one by one.
* `call_abreast` — all of them.
* `advance_abreast` — time passes alike.
-/

namespace Flowgraph

/-- Interpreters that run alike, in engines that go abreast, what asks for the same. -/
def Interpreter.Abreast (run run' : Interpreter) : Prop :=
  ∀ {p p' : Program} {e e' : Engine}, p.Abreast p' → e.Abreast e' → (run p e).Abreast (run' p' e')

namespace Engine

variable {run run' : Interpreter} {e e' : Engine} {nodes nodes' : List LiveNode}

/-! ### Events -/

section Runs

variable (hrun : Interpreter.Abreast run run')
include hrun

/-- **An event reaches the same listeners**, and fails with as many of them. -/
theorem deliver_abreast (event : Event) (before : Bool) {ls ls' : List (Listener Reaction)}
    (hls : List.Forall₂ Listener.Abreast ls ls') (h : e.Abreast e') :
    (deliver run event before ls e).Abreast (deliver run' event before ls' e') := by
  induction hls generalizing e e' with
  | nil => exact .returned 0 h
  | @cons l l' _ _ hl _ ih =>
    have hturn := hrun (hl.reaction event before) (h.record (.heard l.id event.key before))
    rw [deliver, deliver, ← hl.id]
    generalize
      run (l.reaction event before) (e.record (.heard l.id event.key before)) = r at hturn ⊢
    generalize run' (l'.reaction event before) (e'.record (.heard l.id event.key before)) = r'
      at hturn ⊢
    -- a listener that fails or breaks off is logged, and the next has its turn
    cases hturn with
    | returned answer hm =>
      cases answer with
      | error err => exact (ih (hm.log _ _)).map _
      | ok step => exact ih hm
    | panicked hm => exact (ih (hm.log _ _)).map _
    | diverged => exact .diverged

/-- An event is heard by listeners abreast. -/
theorem fire_abreast (event : Event) (before : Bool) (h : e.Abreast e') :
    (fire run event before e).Abreast (fire run' event before e') := by
  rw [fire, fire, ← h.hooks]
  split
  · exact .diverged
  · exact deliver_abreast hrun event before (h.liveGraph.listeners event.key) h

/-! ### Taking a graph down -/

/-- Nodes abreast are unloaded in step. -/
theorem unloadAll_abreast (g : GraphId) (hnodes : List.Forall₂ LiveNode.Abreast nodes nodes')
    (h : e.Abreast e') : (unloadAll run g nodes e).Abreast (unloadAll run' g nodes' e') := by
  induction hnodes generalizing e e' with
  | nil => exact .returned () h
  | @cons n n' _ _ hn _ ih =>
    have hp := hn.behaviour.unload n.node (e.setting g) (e'.setting g) rfl (h.nodes g) h.catalog
    rw [unloadAll, unloadAll, LiveNode.id, LiveNode.id, ← hn.node]
    exact (hrun hp (h.record _)).bind fun _ m m' hm => ih hm

omit hrun in
/-- Graphs abreast are dropped in step. -/
theorem drop_abreast (g : GraphId) (h : e.Abreast e') : (e.drop g).2.Abreast (e'.drop g).2 := by
  have hg := h.graph g
  have hcancel := h.scheduler.cancelAll (e.graph g).tasks.tracked
  rw [drop, drop, TaskRegistry.close, TaskRegistry.close, TaskRegistry.cancelAll,
    TaskRegistry.cancelAll, ← hg.tasks]
  exact (h.withScheduler hcancel).modifyGraph g fun _ _ hgraph =>
    { hgraph with listeners := fun _ => .nil, tasks := rfl, dropped := rfl }

omit hrun in
/-- Graphs abreast are given up in step. -/
theorem abandon_abreast (g : GraphId) (h : e.Abreast e') : (abandon g e).Abreast (abandon g e') :=
  (h.withHooks none).modifyGraph g fun _ _ hgraph =>
    { hgraph with listeners := fun _ => .nil, dropped := rfl }

/-- Graphs abreast are taken down in step. -/
theorem teardown_abreast (g : GraphId) (h : e.Abreast e') :
    (teardown run g e).Abreast (teardown run' g e') := by
  have hunload := unloadAll_abreast hrun g (h.graph g).nodes (h.withHooks (some g))
  refine (hunload.onPanic fun _ _ => abandon_abreast g).bind fun _ m m' hm => ?_
  exact .returned () ((drop_abreast g (hm.withHooks none)).logAll _ _)

/-- An empty graph takes the live one's place in both engines. -/
theorem replace_abreast {empty : Graph} (hempty : Graph.Abreast empty empty) (h : e.Abreast e') :
    (replace run empty e).Abreast (replace run' empty e') := by
  have hlen : e.graphs.length = e'.graphs.length := h.graphs.length_eq
  have hlive : Abreast { (e.addGraph empty).2 with live := e.graphs.length }
      { (e'.addGraph empty).2 with live := e'.graphs.length } :=
    { h.addGraph hempty with live := hlen }
  have hdown := teardown_abreast hrun e.live hlive
  rw [replace, replace, ← h.live]
  refine hdown.bind fun _ m m' hm => ?_
  show Run.Abreast (.returned e.graphs.length m) (.returned e'.graphs.length m')
  rw [hlen]
  exact .returned _ hm

/-! ### Bringing a graph up -/

omit hrun in
/-- Types abreast refuse a node alike, or make nodes abreast. -/
theorem registry_abreast {r r' : Registry Behaviour} (hr : r.Abreast r') (id name : String) :
    (∃ err, r.instantiate id name = .error err ∧ r'.instantiate id name = .error err) ∨
      ∃ metadata b b', r.instantiate id name = .ok (metadata, b) ∧
        r'.instantiate id name = .ok (metadata, b') ∧ b.Abreast b' := by
  have ht := hr name
  unfold Registry.instantiate
  generalize r.get? name = t at ht ⊢
  generalize r'.get? name = t' at ht ⊢
  -- both registries know the name, or neither does
  cases ht with
  | none => exact .inl ⟨_, rfl, rfl⟩
  | @some t t' ht =>
    obtain ⟨metadata, b⟩ := t
    obtain ⟨metadata', b'⟩ := t'
    obtain ⟨hmetadata, hb⟩ := ht
    dsimp only at hmetadata hb ⊢
    subst hmetadata
    cases hb with
    | none => exact .inl ⟨_, rfl, rfl⟩
    | some hb => exact .inr ⟨_, _, _, rfl, rfl, hb⟩

omit hrun in
/-- **A graph is wired alike, or refused for the same reason.** -/
theorem wireAfter_abreast {r r' : Registry Behaviour} (hr : r.Abreast r') (entries : List NodeEntry)
    (hnodes : List.Forall₂ LiveNode.Abreast nodes nodes') :
    (∃ err, wireAfter r nodes entries = .error err ∧ wireAfter r' nodes' entries = .error err) ∨
      ∃ wired wired', wireAfter r nodes entries = .ok wired ∧
        wireAfter r' nodes' entries = .ok wired' ∧ List.Forall₂ LiveNode.Abreast wired wired' := by
  induction entries generalizing nodes nodes' with
  | nil => exact .inr ⟨_, _, rfl, rfl, hnodes⟩
  | cons entry rest ih =>
    rw [wireAfter, wireAfter]
    obtain ⟨err, hi, hi'⟩ | ⟨metadata, b, b', hi, hi', hb⟩ :=
      registry_abreast hr entry.id entry.name
    · rw [hi, hi']
      exact .inl ⟨_, rfl, rfl⟩
    · rw [hi, hi']
      dsimp only
      cases NodeInstance.ofEntry entry metadata with
      | error err => exact .inl ⟨_, rfl, rfl⟩
      | ok node =>
        -- nodes that stand abreast have the same names, so the same names are taken
        have hany : nodes.any (·.id = node.id) = nodes'.any (·.id = node.id) :=
          any_eq_of_rel (fun n n' hn => by rw [LiveNode.id, LiveNode.id, hn.node]) hnodes
        dsimp only
        rw [← hany]
        split
        · exact .inl ⟨_, rfl, rfl⟩
        · exact ih (List.rel_append hnodes (.cons ⟨rfl, hb⟩ .nil))

/-- **Nodes are initialised alike**, or the same one of them fails. -/
theorem initAll_abreast (g : GraphId) {before before' : List LiveNode}
    (hbefore : List.Forall₂ LiveNode.Abreast before before')
    (hnodes : List.Forall₂ LiveNode.Abreast nodes nodes') (h : e.Abreast e') :
    (initAll run g before nodes e).Abreast (initAll run' g before' nodes' e') := by
  induction hnodes generalizing before before' e e' with
  | nil => exact .returned _ h
  | @cons n n' _ _ hn _ ih =>
    have hp := hn.behaviour.init n.node (e.setting g) (e'.setting g) rfl (h.nodes g) h.catalog
    rw [initAll, initAll, LiveNode.id, LiveNode.id, ← hn.node]
    refine (hrun hp (h.record _)).bind ?_
    rintro (err | step) m m' hm
    · exact (unloadAll_abreast hrun g hbefore (hm.log _ _)).map _
    · exact ih (List.rel_append hbefore (.cons hn .nil)) (hm.record _)

/-- A graph is built in both engines or fails in both. -/
theorem build_abreast (c : Context) (generation : Nat) (h : e.Abreast e') :
    (build run c generation e).Abreast (build run' c generation e') := by
  have hlen : e.graphs.length = e'.graphs.length := h.graphs.length_eq
  rw [build, build]
  obtain ⟨err, hw, hw'⟩ | ⟨nodes, nodes', hw, hw', hnodes⟩ :=
    wireAfter_abreast h.registry c.nodes (.nil : List.Forall₂ LiveNode.Abreast [] [])
  · rw [wire, wire, hw, hw']
    exact .returned _ h
  · rw [wire, wire, hw, hw']
    have hgraph : Graph.Abreast { generation := generation, context := c, nodes := nodes }
        { generation := generation, context := c, nodes := nodes' } :=
      ⟨rfl, rfl, hnodes, fun _ => .nil, rfl, rfl⟩
    have hraised := (h.addGraph hgraph).withHooks (some e.graphs.length)
    have hinit := initAll_abreast hrun e.graphs.length .nil hnodes hraised
    dsimp only [addGraph]
    rw [← hlen]
    refine (hinit.onPanic fun _ _ => abandon_abreast _).bind ?_
    rintro (err | _) m m' hm
    · exact .returned _ (drop_abreast _ (hm.withHooks none))
    · -- the graph that stood in is dropped, and the new one is live
      have hdropped : Abreast
          ({ m with hooks := none }.modifyGraph m.live ({ · with dropped := true }))
          ({ m' with hooks := none }.modifyGraph m.live ({ · with dropped := true })) :=
        (hm.withHooks none).modifyGraph m.live fun _ _ hgraph => { hgraph with dropped := rfl }
      refine .returned _ ?_
      rw [← hm.live]
      exact { hdropped with live := rfl }

/-! ### Commands -/

/-- **A graph is loaded alike.** -/
theorem load_abreast (c : Context) (h : e.Abreast e') :
    (load run c e).Abreast (load run' c e') := by
  have hlog := h.log (.info ("Loading workflow (" ++ toString c.nodes.length ++ " nodes)"))
    (.info ("Loading workflow (" ++ toString c.nodes.length ++ " nodes)"))
  rw [load, load]
  dsimp only
  generalize
    e.log (.info ("Loading workflow (" ++ toString c.nodes.length ++ " nodes)")) = l at hlog ⊢
  generalize e'.log (.info ("Loading workflow (" ++ toString c.nodes.length ++ " nodes)")) = l'
    at hlog ⊢
  rw [← hlog.hooks, ← hlog.liveGraph.generation]
  split
  · exact .diverged
  · refine (replace_abreast hrun (.bare rfl rfl) hlog).bind fun g m m' hm => ?_
    -- the graph that stands in is entitled alike, and stored alike
    have hentitled : Abreast
        (m.modifyGraph g ({ · with generation := l.liveGraph.generation + 1, context := c }))
        (m'.modifyGraph g ({ · with generation := l.liveGraph.generation + 1, context := c })) :=
      hm.modifyGraph g fun _ _ hgraph => { hgraph with generation := rfl, context := rfl }
    have hstored := hentitled.withStore (congrArg (·.writeContext c) hm.store)
    have hwrite := congrArg Store.writeError? hentitled.store
    rw [← hwrite]
    split
    · exact .returned _ hstored
    · refine (build_abreast hrun c _ hstored).bind ?_
      rintro (err | _) b b' hb
      · exact .returned _ hb
      · exact .returned _ ((hb.logAll _ _).log _ _)

/-- Both engines read the same graph from their stores. -/
theorem restore_abreast (h : e.Abreast e') : (restore run e).Abreast (restore run' e') := by
  rw [restore, restore, ← h.store]
  cases e.store.readContext with
  | error err => exact .returned _ h
  | ok c => exact load_abreast hrun c h

/-- Both graphs are taken down. -/
theorem clear_abreast (h : e.Abreast e') : (clear run e).Abreast (clear run' e') := by
  rw [clear, clear, ← h.hooks]
  split
  · exact .diverged
  · rw [← h.liveGraph.generation]
    exact (replace_abreast hrun (.bare rfl rfl) h).bind fun _ m m' hm => .returned () (hm.log _ _)

end Runs

/-! ### Walks -/

/-- What walks come to next in engines that go abreast. -/
inductive Arrival.Abreast : Arrival → Arrival → Prop
  | ended : Abreast .over .over
  | stray (id : String) : Abreast (.stray id) (.stray id)
  | stopped (limit : Nat) (id : String) : Abreast (.stopped limit id) (.stopped limit id)
  | entered {n n' : LiveNode} (hn : n.Abreast n') (w : Walk) :
      Abreast (.entered n w) (.entered n' w)

/-- A walk arrives at nodes abreast. -/
theorem arrival_abreast (h : e.Abreast e') (w : Walk) :
    Arrival.Abreast (e.arrival w) (e'.arrival w) := by
  have hlimit : e'.exceeded? (w.hops + 1) = e.exceeded? (w.hops + 1) := by
    rw [exceeded?, exceeded?, h.maxHops]
  unfold arrival
  cases w.pending with
  | none => exact .ended
  | some id =>
    -- the nodes of both graphs are found by the same names
    have hn : Option.Rel LiveNode.Abreast ((e.graph w.graph).node? id)
        ((e'.graph w.graph).node? id) :=
      rel_find? (fun n n' hn => by rw [LiveNode.id, LiveNode.id, hn.node]) (h.graph w.graph).nodes
    dsimp only
    generalize (e.graph w.graph).node? id = n at hn ⊢
    generalize (e'.graph w.graph).node? id = n' at hn ⊢
    cases hn with
    | none => exact .stray id
    | some hn =>
      dsimp only
      rw [hlimit]
      cases e.exceeded? (w.hops + 1) with
      | some limit => exact .stopped limit id
      | none => exact .entered hn _

/-- The program of a node leads a walk on alike. -/
theorem enter_abreast (hrun : Interpreter.Abreast run run') {n n' : LiveNode} (hn : n.Abreast n')
    (w : Walk) (h : e.Abreast e') : (enter run n w e).Abreast (enter run' n' w e') := by
  rw [enter, enter, LiveNode.id, LiveNode.id, ← hn.node, ← h.now]
  exact (hrun (hn.behaviour.execute n.node w) (h.record _)).map _

/-- **Whatever is asked of both, engines that go abreast answer alike.** -/
theorem call_abreast (fuel : Nat) : NestedAbreast (call fuel) (call fuel) := by
  -- nested commands and the steps of a walk have less fuel
  induction fuel with
  | zero => exact fun c _ _ _ => by cases c <;> exact .diverged
  | succ fuel ih =>
    have hrun : Interpreter.Abreast (exec (call fuel)) (exec (call fuel)) :=
      fun hp h => exec_abreast ih hp h
    intro c e e' h
    cases c with
    | walk w =>
      have ha := arrival_abreast h w
      rw [call, call]
      generalize e.arrival w = a at ha ⊢
      generalize e'.arrival w = a' at ha ⊢
      cases ha with
      | ended => exact .returned _ h
      | stray id => exact .returned _ (h.log _ _)
      | stopped limit id => exact .returned _ (h.log _ _)
      | @entered n n' hn w =>
        have hturn := enter_abreast hrun hn w h
        dsimp only
        generalize enter (exec (call fuel)) n w e = r at hturn ⊢
        generalize enter (exec (call fuel)) n' w e' = r' at hturn ⊢
        cases hturn with
        | returned answer hm =>
          cases answer with
          | error err => exact .returned _ hm
          | ok w => exact ih (.walk w) _ _ hm
        | panicked hm => exact .panicked hm
        | diverged => exact .diverged
    | fire event before => exact fire_abreast hrun event before h
    | load c => exact load_abreast hrun c h
    | restore => exact restore_abreast hrun h
    | clear => exact clear_abreast hrun h

/-- Programs abreast are performed in step. -/
theorem perform_abreast (fuel : Nat) {p p' : Program} (hp : p.Abreast p') (h : e.Abreast e') :
    (perform fuel p e).Abreast (perform fuel p' e') :=
  exec_abreast (call_abreast fuel) hp h

/-! ### Time -/

/-- What goes wrong does so in both engines; what is reported need not be the same. -/
theorem guarded_abreast {r r' : Run (Except WorkflowError Flowgraph.Step)} (h : r.Abreast r')
    (failed : WorkflowError → LogLine) (panicked : LogLine) :
    (guarded r failed panicked).Abreast (guarded r' failed panicked) := by
  cases h with
  | returned answer hm =>
    cases answer with
    | error err => exact .returned () (hm.log _ _)
    | ok step => exact .returned () hm
  | panicked hm => exact .returned () (hm.log _ _)
  | diverged => exact .diverged

/-- A task is started at the same time. -/
theorem startTask_abreast (task : TaskId) (due : Nat) (h : e.Abreast e') :
    (e.startTask task due).Abreast (e'.startTask task due) := by
  have hbegin := h.scheduler.begin task due
  rw [startTask, startTask, ← hbegin.now]
  exact (h.withScheduler hbegin).record _

/-- A task is run in both engines. -/
theorem runTask_abreast (fuel : Nat) (task : TaskId) (due : Nat) (h : e.Abreast e') :
    (runTask (exec (call fuel)) task due e).Abreast (runTask (exec (call fuel)) task due e') := by
  have ht := h.scheduler.task? task
  unfold runTask
  generalize e.scheduler.task? task = t at ht ⊢
  generalize e'.scheduler.task? task = t' at ht ⊢
  cases ht with
  | none => exact .returned () h
  | @some t t' ht =>
    have hbody := perform_abreast fuel (ht.body t.runs) (startTask_abreast task due h)
    dsimp only
    rw [← ht.runs]
    refine (guarded_abreast hbody (taskLog task) (taskPanicLog task)).bind fun _ m m' hm => ?_
    exact .returned () (hm.withScheduler (hm.scheduler.complete task))

/-- The clocks go in step, since tasks abreast are due at the same times. -/
theorem advanceTo_abreast (fuel time rounds : Nat) (h : e.Abreast e') :
    (advanceTo fuel time rounds e).Abreast (advanceTo fuel time rounds e') := by
  induction rounds generalizing e e' with
  | zero => exact .diverged
  | succ rounds ih =>
    have hsettled : Abreast e.settle e'.settle := h.withScheduler h.scheduler.settle
    rw [advanceTo, advanceTo]
    -- both look at the same time for the next task
    dsimp only
    rw [← h.scheduler.resting, ← hsettled.scheduler.next?]
    split
    · cases e.settle.scheduler.next? time with
      | none =>
        refine .returned () (hsettled.withScheduler ⟨?_, hsettled.scheduler.tasks⟩)
        exact congrArg (max · time) hsettled.now
      | some next =>
        exact (runTask_abreast fuel next.1 next.2 hsettled).bind fun _ m m' hm => ih hm
    · -- a body that is under way holds both up
      exact .diverged

/-- **Time passes alike.** -/
theorem advance_abreast (fuel millis : Nat) (h : e.Abreast e') :
    (advance fuel millis e).Abreast (advance fuel millis e') := by
  rw [advance, advance, ← h.now]
  exact advanceTo_abreast fuel _ fuel h

end Engine

end Flowgraph
