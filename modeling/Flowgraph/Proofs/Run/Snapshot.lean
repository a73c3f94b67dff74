import Flowgraph.Proofs.Run.Firing

/-!
# A delivery is a snapshot

Listeners may do anything: they may add and take away listeners, fire other events, replace the live
graph; and so may others between two of them. A delivery does not notice. Its listeners are those
that there were at its beginning, and a walk that one of them starts finds its nodes in the graph
that it was started in, however long it takes and whatever is live in the meantime.

* `walkThrough` — walks that look their nodes up in a table that is given once and for all.
* `call_walk_eq` — every walk is such a walk, with the nodes that its graph has when it starts.
* `Pursuit.stays` — so is what a task goes on with later.
* `snapshot_of_fire` — what a delivery keeps to.
-/

namespace Flowgraph

/-- A node is entered by a walk in a graph, and is one of the nodes that the graph had in an engine
before. -/
structure Visit.In (g : GraphId) (e : Engine) (v : Visit) : Prop where
  graph : v.walk.graph = g
  mem : ∃ n ∈ (e.graph g).nodes, n.id = v.node

/-- A walk is started through a graph, or something is asked for that is no walk. -/
def Request.Through (g : GraphId) (q : Request) : Prop := ∀ w, q = .call (.walk w) → w.graph = g

namespace Engine

variable {e m m' : Engine}

/-! ### Walks keep to their nodes -/

/-- What a walk comes to next, if its nodes are those of a table. -/
def arrivalIn (nodes : List LiveNode) (e : Engine) (w : Walk) : Arrival :=
  match w.pending with
  | none => .over
  | some id =>
    match nodes.find? (·.id = id) with
    | none => .stray id
    | some n =>
      match e.exceeded? (w.hops + 1) with
      | some limit => .stopped limit id
      | none => .entered n { w with hops := w.hops + 1, pending := none }

theorem arrival_eq (e : Engine) (w : Walk) : e.arrival w = arrivalIn (e.graph w.graph).nodes e w :=
  rfl

/-- A walk that looks its nodes up in a table, whatever becomes of the graphs. -/
def walkThrough (nodes : List LiveNode) : Nat → Walk → Engine → Run (Except WorkflowError Unit)
  | 0, _, _ => .diverged
  | fuel + 1, w, e =>
    match arrivalIn nodes e w with
    | .over => .returned (.ok ()) e
    | .stray id => .returned (.ok ()) (e.log (strayLog id))
    | .stopped limit id =>
      .returned (.error (.hopLimitExceeded limit id)) (e.log (hopsLog limit id))
    | .entered n w =>
      match enter (exec (call fuel)) n w e with
      | .returned (.ok w) e => walkThrough nodes fuel w e
      | .returned (.error err) e => .returned (.error err) e
      | .panicked e => .panicked e
      | .diverged => .diverged

/-- A walk that comes out of a node is in its graph, in an engine that comes later. -/
theorem of_enter {fuel : Nat} {n : LiveNode} {w w' : Walk}
    (h : enter (exec (call fuel)) n w e = .returned (.ok w') m) :
    w'.graph = w.graph ∧ Evolves e m := by
  obtain ⟨r, m', hexec, hend⟩ := Run.exists_of_bind h
  have hrec : Evolves e (e.record (.entered e.now n.id w)) :=
    .single (Move.change (.record e _ rfl))
  have hevolves := hrec.trans ((exec_evolves fuel _ _).returned hexec)
  cases r with
  | error err => cases hend
  | ok step =>
    cases hend
    exact ⟨rfl, hevolves⟩

/-- **A walk runs from its start to its end with the nodes of one graph.** It may be run at any
later time, with that graph live or not. -/
theorem call_walk_eq (fuel : Nat) {w : Walk} (hlt : w.graph < m.graphs.length) (h : Extends m e) :
    call fuel (.walk w) e = walkThrough (m.graph w.graph).nodes fuel w e := by
  induction fuel generalizing w e with
  | zero => rfl
  | succ fuel ih =>
    rw [call, walkThrough, arrival_eq, h.nodes w.graph hlt]
    rcases harrival : arrivalIn (m.graph w.graph).nodes e w with _ | id | ⟨limit, id⟩ | ⟨n, w'⟩
    · rfl
    · rfl
    · rfl
    · have hgraph : w'.graph = w.graph := by
        rw [← h.nodes w.graph hlt, ← arrival_eq] at harrival
        exact graph_of_arrival harrival
      dsimp only
      cases henter : enter (exec (call fuel)) n w' e with
      | panicked e' => rfl
      | diverged => rfl
      | returned r e' =>
        cases r with
        | error err => rfl
        | ok w'' =>
          -- the walk goes on through the same graph, which still has the same nodes
          obtain ⟨hgraph', hevolves⟩ := of_enter henter
          have hsame : w''.graph = w.graph := hgraph'.trans hgraph
          dsimp only
          rw [ih (hsame ▸ hlt) (h.trans hevolves.extends), hsame]

/-! ### Walks that are handed to tasks -/

variable {sink : Builtin.Sink} {s s' : Stand} {vs : List Visit} {rs : List Roll}

/-- Wherever a walk stands, it is in a graph. -/
inductive StandsIn (g : GraphId) (e : Engine) : Stand → Prop
  | walking {w : Walk} (hg : w.graph = g) : StandsIn g e (.walking w)
  | waiting {task : TaskId} {t : Task (Nat → Program)} {w : Walk} {next : String}
      (ht : e.scheduler.task? task = some t) (hbody : t.body = fun _ => .walkOn w next)
      (hg : w.graph = g) : StandsIn g e (.waiting task)
  | ended (how : Ending) : StandsIn g e (.ended how)

theorem Pace.stays {g : GraphId} (h : Pace e s vs rs m s') (he : Enacts sink g e)
    (hs : StandsIn g e s) : StandsIn g m s' ∧ ∀ v ∈ vs, v.In g e := by
  cases hs with
  | @walking w hg =>
    subst hg
    cases h.paced he with
    | finished _ => exact ⟨.ended _, List.forall_mem_nil _⟩
    | stray _ => exact ⟨.ended _, List.forall_mem_nil _⟩
    | stopped _ => exact ⟨.ended _, List.forall_mem_nil _⟩
    | @entered n w' _ _ ha _ hleft =>
      have hgraph : w'.graph = w.graph := graph_of_arrival ha
      refine ⟨?_, List.forall_mem_singleton.mpr ⟨hgraph, n, mem_of_arrival ha, rfl⟩⟩
      generalize NodeInstance.passage _ _ _ = passage at hleft
      cases hleft with
      | onward vars next _ => exact .walking hgraph
      | handed delay next ht hcarries => exact .waiting ht hcarries.body hgraph
      | failed err _ => exact .ended _
  | @waiting task t w next ht hbody hg =>
    cases h with
    | later h =>
      -- the task keeps its body
      obtain ⟨t', ht', hkept⟩ := h.evolves.proceeds task t ht
      exact ⟨.waiting ht' (hkept.body.trans hbody) hg, List.forall_mem_nil _⟩
    | resumed _ _ ht' hbody' =>
      rw [ht] at ht'
      cases ht'
      have hwalk := congrArg Walk.graph
        (Program.walkOn_inj ((congrFun hbody _).symm.trans hbody'))
      exact ⟨.walking (hwalk.symm.trans hg), List.forall_mem_nil _⟩
  | ended how => cases h

/-- **A walk stays with the nodes of its graph, tasks or no tasks.** -/
theorem Pursuit.stays {g : GraphId} (h : Pursuit e s vs rs m s') (he : Enacts sink g e)
    (hs : StandsIn g e s) : ∀ v ∈ vs, v.In g e := by
  induction h with
  | refl => exact List.forall_mem_nil _
  | step hpace _ ih =>
    obtain ⟨hstands, hfirst⟩ := hpace.stays he hs
    have hext := hpace.evolves.extends
    refine List.forall_mem_append.mpr ⟨hfirst, fun v hv => ?_⟩
    have hlater := ih (he.extends hext) hstands v hv
    exact ⟨hlater.graph, hext.nodes _ he.lt ▸ hlater.mem⟩

/-! ### Deliveries -/

variable {event : Event} {before : Bool} {fuel : Nat} {ls : List (Listener Reaction)}
  {replies : List Reply}

/-- A listener's turn is a part of the run like any other. -/
theorem hear_evolves {l : Listener Reaction} {reply : Reply}
    (h : hear (exec (call fuel)) event before l e = .returned reply m) :
    Evolves (e.record (.heard l.id event.key before)) m := by
  have hends := exec_evolves fuel (l.reaction event before)
    (e.record (.heard l.id event.key before))
  rw [hear] at h
  generalize exec (call fuel) (l.reaction event before)
    (e.record (.heard l.id event.key before)) = r at h hends
  -- an error and a panic add a line to the log
  rcases r with ⟨err | step, m'⟩ | m' | _
  · cases h
    exact hends.tail (Move.change (.log _ _))
  · cases h
    exact hends
  · cases h
    exact hends.tail (Move.change (.log _ _))
  · cases h

/-- The journal grows. -/
theorem Evolves.journal (h : Evolves e m) : ∃ since, m.journal = since ++ e.journal := by
  obtain ⟨since, hsince, -⟩ := h.startsOnly (S := fun _ => True) fun _ _ _ _ _ _ _ => trivial
  exact ⟨since, hsince⟩

/-- **The journal tells of each listener's turn, in order**, whatever it tells of besides. -/
theorem InTurn.heard
    (h : InTurn (hear (exec (call fuel)) event before) Evolves ls e replies m) :
    Evolves e m ∧ ∃ since, m.journal = since ++ e.journal ∧
      List.Sublist (ls.map fun l => Entry.heard l.id event.key before) since.reverse := by
  induction h with
  | done e => exact ⟨.refl, [], rfl, .refl _⟩
  | meanwhile hbetween _ ih =>
    obtain ⟨hevolves, since, hsince, hsub⟩ := ih
    obtain ⟨first, hfirst⟩ := hbetween.journal
    refine ⟨hbetween.trans hevolves, since ++ first, ?_, ?_⟩
    · rw [hsince, hfirst, List.append_assoc]
    · rw [List.reverse_append]
      exact hsub.trans (List.sublist_append_right ..)
  | @turn l ls e m e' r rs hturn _ ih =>
    obtain ⟨hevolves, since, hsince, hsub⟩ := ih
    have hheard := hear_evolves hturn
    have hrec : Evolves e (e.record (.heard l.id event.key before)) :=
      .single (Move.change (.record e _ rfl))
    obtain ⟨own, hown⟩ := hheard.journal
    refine ⟨(hrec.trans hheard).trans hevolves,
      since ++ (own ++ [.heard l.id event.key before]), ?_, ?_⟩
    · rw [hsince, hown, List.append_assoc, List.append_assoc]
      rfl
    · -- the listener's own entries stand between its turn and the next one's
      rw [List.reverse_append, List.reverse_append, List.map_cons]
      exact (hsub.trans (List.sublist_append_right ..)).cons_cons _

/-- **What a delivery keeps to.** -/
structure Snapshot (e : Engine) (event : Event) (before : Bool) : Prop where
  /-- The listeners are those registered at the beginning. Each has its turn, in the order of
  registration, whatever those before it did and however they ended. -/
  alone : ∀ fuel, Round (hear (exec (call fuel)) event before) (fun _ _ => False)
    (e.liveGraph.bus.listeners event.key) e (call (fuel + 1) (.fire event before) e)
  /-- So it is if in between others do whatever an engine may come to. -/
  shared : ∀ fuel replies m, InTurn (hear (exec (call fuel)) event before) Evolves
    (e.liveGraph.bus.listeners event.key) e replies m →
    replies.length = (e.liveGraph.bus.listeners event.key).length ∧
      ∃ since, m.journal = since ++ e.journal ∧
        List.Sublist ((e.liveGraph.bus.listeners event.key).map fun l =>
          Entry.heard l.id event.key before) since.reverse
  /-- A walk that is started meanwhile runs with the nodes that its graph has at the start, whenever
  it is run. -/
  walks : ∀ {m m'}, Evolves e m → Evolves m m' → ∀ w : Walk, w.graph < m.graphs.length →
    ∀ fuel, call fuel (.walk w) m' = walkThrough (m.graph w.graph).nodes fuel w m'
  /-- So does what a node of a built-in type leaves of the walk to a task. -/
  pursued : ∀ {sink m m' w vs rs s}, Evolves e m → Enacts sink w.graph m →
    Pursuit m (.walking w) vs rs m' s → ∀ v ∈ vs, v.In w.graph m
  /-- A listener that was registered when the nodes of its graph were initialised starts walks
  through that graph and no other. -/
  own : ∀ {sink c e₀ m fuel}, Hosted sink e₀ → e₀.registry.Registered →
    call fuel (.load c) e₀ = .returned (.ok ()) m → ∀ key, ∀ l ∈ m.liveGraph.bus.listeners key,
      ∀ event before, (l.reaction event before).Within (Request.Through m.live)

/-- Event listeners start walks through their graph only. -/
theorem within_listener {n : NodeInstance} {catalog : Catalog} {g : GraphId} {key : EventKey}
    {l : Listener Reaction} (h : n.listener? catalog g key = some l) (event : Event)
    (before : Bool) :
    (l.reaction event before).Within (Request.Through g) := by
  obtain ⟨s, -, rfl⟩ := Option.map_eq_some_iff.mp h
  show (if before = s.phase then _ else _ : Program).Within _
  split
  · refine Program.within_startWalk_iff.mpr fun w hw => ?_
    cases hw
    rfl
  · exact Program.within_done

/-- **A delivery is a snapshot, and every walk keeps to one graph.** -/
theorem snapshot_of_fire (hfree : e.hooks = none) (event : Event) (before : Bool) :
    Snapshot e event before where
  alone fuel := by
    rw [show call (fuel + 1) (.fire event before) e =
        fire (exec (call fuel)) event before e from rfl,
      fire_eq hfree]
    exact round_of_deliver _ _
  shared fuel replies m h := ⟨h.length_eq, h.heard.2⟩
  walks _ hm' w hlt fuel := call_walk_eq fuel hlt hm'.extends
  pursued _ henacts h := h.stays henacts (.walking rfl)
  own he hr hload key l hl event before := by
    rw [listeners_of_load he hr hload] at hl
    -- each listener of the graph is that of one of its nodes
    obtain ⟨n, -, hn⟩ := List.mem_filterMap.mp hl
    exact within_listener hn event before

/-- A graph of one node, which says something. -/
def saying (text : String) : Context :=
  (Context.mk [])
    |>.addNode "speaker" Builtin.Chat.metadata.name
    |>.consume Builtin.Chat.messageField text

/-- A listener of the host that loads another graph. -/
def replacing : Listener Reaction :=
  ⟨⟨none, 1⟩, fun _ _ => .call (.load (saying "from the second graph")) fun _ => .done⟩

/-- A listener of the host that starts a walk through whatever graph is live when it is invoked. -/
def following : Listener Reaction :=
  ⟨⟨none, 2⟩, fun _ _ => .act .live fun g => .startWalk g "speaker" ∅⟩

/-- Both listeners are registered with a graph that was loaded before. What holds then can be found
by running it. -/
theorem exists_following {α : Type} {f : Engine → Engine → α} {a : α}
    (h : ((done? (call 1 (.load (saying "from the first graph")) (equipped {} .toLog))).bind
        fun m =>
      (m.on (.ofType "PlayerJoin") replacing).left?.bind fun m₁ =>
        (m₁.on (.ofType "PlayerJoin") following).left?.map (f m)) = some a) :
    ∃ m e, call 1 (.load (saying "from the first graph")) (equipped {} .toLog) =
        .returned (.ok ()) m ∧
      Joined m [(.ofType "PlayerJoin", replacing), (.ofType "PlayerJoin", following)] e ∧
      Attending e ∧ f m e = a := by
  -- the three steps are read off the computation one by one
  obtain ⟨m, hm, hrest⟩ := Option.bind_eq_some_iff.mp h
  obtain ⟨m, hload, rfl⟩ := exists_done (f := fun m => m) (Option.map_id'.trans hm)
  have hserved : Served m := ((Served.call_uniform 1 (.load _) _
    (hosted_equipped {} .toLog).served).returned hload).1
  obtain ⟨m₁, hon, -⟩ := hserved.attending.joins (.ofType "PlayerJoin") replacing
  have hattending := (hserved.attending.on hon).1
  obtain ⟨e, hon', hjoined⟩ := hattending.joins (.ofType "PlayerJoin") following
  rw [hon, Run.left?, Option.bind_some, hon'] at hrest
  exact ⟨m, e, hload, .on hon hjoined, (hattending.on hon').1, Option.some.inj hrest⟩

/-- The listeners of a delivery in which the first replaces the graph are all invoked. -/
theorem snapshot_of_fire_replacing : ∃ e : Engine, e.hooks = none ∧
    (e.liveGraph.bus.listeners (.ofType "PlayerJoin")).map (·.id) = [⟨none, 1⟩, ⟨none, 2⟩] ∧
    Snapshot e (.playerJoin "Ada") false := by
  obtain ⟨m, e, -, -, hattending, hids⟩ := exists_following
    (f := fun _ e => (e.liveGraph.bus.listeners (.ofType "PlayerJoin")).map (·.id))
    (a := [⟨none, 1⟩, ⟨none, 2⟩]) (by decide +kernel)
  exact ⟨e, hattending.hooks, hids, snapshot_of_fire hattending.hooks _ _⟩

/-- The one walk that there was has entered the speaker of the live graph, which is the second. -/
def SecondSpoke (g : GraphId) (e : Engine) : Prop :=
  e.visits.map (fun v => (v.node, v.walk.graph)) = [("speaker", e.live)] ∧ e.live ≠ g ∧
    e.context = saying "from the second graph"

instance (g : GraphId) (e : Engine) : Decidable (SecondSpoke g e) :=
  inferInstanceAs (Decidable (_ ∧ _ ∧ _))

/-- A listener of the host need not start its walks through the graph that it was registered with:
this one is registered with the first graph, and its walk is through the second. -/
theorem walk_through_another_graph : ∃ m e e',
    call 1 (.load (saying "from the first graph")) (equipped {} .toLog) = .returned (.ok ()) m ∧
    Joined m [(.ofType "PlayerJoin", replacing), (.ofType "PlayerJoin", following)] e ∧
    e.live = m.live ∧ call 4 (.fire (.playerJoin "Ada") false) e = .returned 0 e' ∧
    e'.visits.map (fun v => (v.node, v.walk.graph)) = [("speaker", e'.live)] ∧ e'.live ≠ m.live ∧
    e'.context = saying "from the second graph" := by
  obtain ⟨m, e, hload, hjoined, -, hparts⟩ := exists_following
    (f := fun m e => (decide (e.live = m.live),
      (call 4 (.fire (.playerJoin "Ada") false) e).returned?.map fun r =>
        (r.1, decide (SecondSpoke m.live r.2))))
    (a := (true, some (0, true))) (by decide +kernel)
  obtain ⟨hlive, hfire⟩ := Prod.mk.inj hparts
  obtain ⟨e', hfire, hspoke⟩ :=
    Run.exists_returned (f := fun e' => decide (SecondSpoke m.live e')) hfire
  obtain ⟨hvisits, hother, hcontext⟩ := of_decide_eq_true hspoke
  exact ⟨m, e, e', hload, hjoined, of_decide_eq_true hlive, hfire, hvisits, hother, hcontext⟩

end Engine

end Flowgraph
