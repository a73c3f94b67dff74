import Flowgraph.Proofs.Builtin.Triggers
import Flowgraph.Proofs.Run.Delivery
import Flowgraph.Proofs.Walk.Course

/-!
# What an event sets off

Which walks an event starts can be read off the stored graph: an event listener that is wired to a
next node has a *subscription*, and starts a walk for each event with its key and in its phase. The
listeners of the host come behind those of the nodes.

* `NodeInstance.subscription?`, `Context.walksFor` — the walks of an event, by the stored graph.
* `listeners_of_load` — a loaded graph has the listeners of its subscriptions, in the order of its
  nodes, and no others.
* `fire_sets_off` — an event is answered by these walks and by the listeners of the host, and by
  nothing else.
-/

namespace Flowgraph

open Builtin

/-! ### Subscriptions -/

/-- What an event listener waits for, and what it does then. -/
structure Subscription where
  key : EventKey
  phase : Bool
  producer : Producer
  next : String

/-- The variables of a walk that carries an event under a name, and nothing else; without a name it
carries nothing. -/
def carrying (event : Event) : Option String → Variables
  | none => ∅
  | some name => (∅ : Variables).insert name (.structured (.event event))

/-- The walk that an event starts. -/
def Subscription.walk (s : Subscription) (g : GraphId) (event : Event) : Walk where
  graph := g
  vars := carrying event s.producer.variableName
  pending := some s.next

/-- What a node waits for. The name of its event type is looked up in a catalog. -/
def NodeInstance.subscription? (n : NodeInstance) (catalog : Catalog) : Option Subscription :=
  if n.nodeType = EventListener.name then
    match n.readEventType EventListener.eventField catalog, n.readBoolean EventListener.beforeField,
      n.publisher EventListener.eventField, n.next with
    | .ok key, .ok phase, .ok producer, .ok (some next) => some ⟨key, phase, producer, next⟩
    | _, _, _, _ => none
  else none

/-- The subscriptions of a stored graph, in the order of its nodes. -/
def Context.subscriptions (c : Context) (catalog : Catalog) : List Subscription :=
  c.nodes.filterMap fun entry => entry.instance?.bind (·.subscription? catalog)

/-- The walks that an event starts in a phase, in the order of the nodes. -/
def Context.walksFor (c : Context) (catalog : Catalog) (g : GraphId) (event : Event)
    (before : Bool) :
    List Walk :=
  ((c.subscriptions catalog).filter fun s => s.key = event.key && s.phase = before).map
    (·.walk g event)

/-- The listener that a node registers under a key. -/
def NodeInstance.listener? (n : NodeInstance) (catalog : Catalog) (g : GraphId) (key : EventKey) :
    Option (Listener Reaction) :=
  ((n.subscription? catalog).filter (·.key = key)).map fun s =>
    ⟨EventListener.listenerId n, EventListener.reaction g s.phase s.producer s.next⟩

theorem NodeInstance.listener?_of_none {n : NodeInstance} {catalog : Catalog}
    (h : n.subscription? catalog = none) (g : GraphId) (key : EventKey) :
    n.listener? catalog g key = none := by
  rw [listener?, h]
  rfl

theorem NodeInstance.listener?_of_some {n : NodeInstance} {catalog : Catalog} {s : Subscription}
    (h : n.subscription? catalog = some s) (g : GraphId) (key : EventKey) :
    n.listener? catalog g key =
      if s.key = key then
        some ⟨EventListener.listenerId n, EventListener.reaction g s.phase s.producer s.next⟩
      else none := by
  rw [listener?, h, Option.filter_some]
  by_cases hkey : s.key = key
  · rw [if_pos hkey, if_pos (decide_eq_true hkey)]
    rfl
  · rw [if_neg hkey, if_neg (by simpa using hkey)]
    rfl

/-- What a node does with an event of the phase that it waits for. -/
theorem Subscription.reaction_eq (s : Subscription) (g : GraphId) (event : Event) :
    EventListener.reaction g s.phase s.producer s.next event s.phase =
      .walkOn { graph := g, vars := carrying event s.producer.variableName } s.next := by
  have hcarrying : s.producer.publish ∅ (.structured (.event event)) =
      carrying event s.producer.variableName := by
    rw [Producer.publish]
    cases s.producer.variableName <;> rfl
  rw [EventListener.reaction, if_pos rfl, hcarrying]
  rfl

/-! ### Runs that return -/

namespace Run

variable {α β : Type} {r : Run α}

/-- The answer of a run that returns, and where it leaves the engine. -/
def returned? : Run α → Option (α × Engine)
  | .returned a e => some (a, e)
  | _ => none

/-- To see what a run returns, it is enough to look at a part of the engine. -/
theorem exists_returned {f : Engine → β} {a : α} {b : β}
    (h : r.returned?.map (fun p => (p.1, f p.2)) = some (a, b)) :
    ∃ e, r = .returned a e ∧ f e = b := by
  cases r with
  | returned a' e =>
    obtain ⟨rfl, hb⟩ := Prod.mk.inj (Option.some.inj h)
    exact ⟨e, rfl, hb⟩
  | panicked e => cases h
  | diverged => cases h

end Run

namespace Engine

/-! ### The listeners of a loaded graph -/

/-- The nodes of a graph are being initialised. -/
structure Rising (g : GraphId) (e : Engine) : Prop where
  hooks : e.hooks = some g
  lt : g < e.graphs.length
  dropped : (e.graph g).dropped = false

theorem Rising.frame {g : GraphId} {e e' : Engine} (h : Rising g e) (hf : Frame e e') :
    Rising g e' where
  hooks := hf.hooks.trans h.hooks
  lt := hf.length.symm ▸ h.lt
  dropped := (hf.graph g).dropped.trans h.dropped

theorem Rising.reaches {g : GraphId} {e : Engine} (h : Rising g e) : e.reaches g = true := by
  rw [Engine.reaches, h.hooks]
  simp

/-- A program of a node that is initialised adds listeners to those of its graph. -/
structure Adds (p : Program) (g : GraphId) (ls : EventKey → Option (Listener Reaction)) :
    Prop where
  listeners : ∀ {nested : (c : Command) → Engine → Run c.Answer} {e m : Engine}
      {step : Flowgraph.Step},
    Rising g e → exec nested p e = .returned (.ok step) m →
    ∀ key, (m.graph g).bus.listeners key = (e.graph g).bus.listeners key ++ (ls key).toList

section Adds

variable {g : GraphId} {ls : EventKey → Option (Listener Reaction)} {n : NodeInstance}
  {s : Setting}

theorem Adds.done (hls : ∀ key, ls key = none) : Adds .done g ls := by
  refine ⟨fun _ h key => ?_⟩
  cases h
  rw [hls, Option.toList_none, List.append_nil]

/-- A program that fails does not matter here. -/
theorem Adds.attempt {α : Type} {r : Except WorkflowError α} {k : α → Program}
    (h : ∀ a, r = .ok a → Adds (k a) g ls) : Adds (.attempt r k) g ls := by
  cases r with
  | error err => exact ⟨fun _ hexec => by cases hexec⟩
  | ok a => exact h a rfl

/-- New tasks leave the listeners alone. -/
theorem bus_track (e : Engine) (g g' : GraphId) (task : TaskId) :
    ((e.track g task).graph g').bus = (e.graph g').bus := by
  obtain ⟨_, f, _, -, hf, htrack⟩ := track_eq e g task
  rw [htrack]
  show ((e.modifyGraph g f).graph g').bus = _
  rw [graph_modifyGraph]
  split
  · exact hf _
  · rfl

theorem bus_schedule {e m : Engine} {timing : Timing} {body : Nat → Program}
    {r : Except SchedulingError TaskId} (h : e.schedule g timing body = .returned r m)
    (g' : GraphId) : (m.graph g').bus = (e.graph g').bus := by
  unfold schedule at h
  split at h
  · split at h
    · cases h
      rfl
    · cases h
      exact bus_track _ g g' _
  · cases h

theorem adds_interval (hls : ∀ key, ls key = none) : Adds (Interval.init n s) s.graph ls := by
  refine .attempt fun period _ => .attempt fun next _ => ?_
  cases next with
  | none => exact .done hls
  | some next =>
    refine ⟨fun _ h key => ?_⟩
    obtain ⟨r, m', hschedule, hend⟩ := Run.exists_of_bind h
    cases r with
    | error err => cases hend
    | ok task =>
      cases hend
      rw [bus_schedule hschedule, hls, Option.toList_none, List.append_nil]

/-- An event listener that has a subscription registers its listener under the key of that. -/
theorem adds_eventListener (hn : n.nodeType = EventListener.name) :
    Adds (EventListener.init n s) s.graph (n.listener? s.catalog s.graph) := by
  refine .attempt fun key hkey => .attempt fun phase hphase => .attempt fun p hp =>
    .attempt fun next hnext => ?_
  have hsubscription : n.subscription? s.catalog = next.map (⟨key, phase, p, ·⟩) := by
    rw [NodeInstance.subscription?, if_pos hn, hkey, hphase, hp, hnext]
    cases next <;> rfl
  cases next with
  | none => exact .done (NodeInstance.listener?_of_none hsubscription s.graph)
  | some next =>
    -- a graph that is being brought up is not dropped, so it takes the listener
    refine ⟨fun {_ e _ _} hrising h key' => ?_⟩
    obtain ⟨_, m', hsubscribe, hend⟩ := Run.exists_of_bind h
    cases hend
    unfold subscribe at hsubscribe
    rw [if_pos hrising.reaches] at hsubscribe
    cases hsubscribe
    have hopen : ¬ (e.graph s.graph).dropped = true := by
      rw [hrising.dropped]
      exact Bool.false_ne_true
    rw [graph_modifyGraph_self _ hrising.lt, if_neg hopen, Bus.listeners_on,
      NodeInstance.listener?_of_some hsubscription]
    by_cases hkey' : key = key'
    · rw [if_pos hkey', if_pos hkey']
      rfl
    · rw [if_neg hkey', if_neg hkey']
      exact (List.append_nil _).symm

/-- Of the built-in types, event listeners are the one that has subscriptions. -/
theorem adds_init {sink : Sink} {t : NodeType Behaviour} (ht : t ∈ nodeTypes sink) {b : Behaviour}
    (hb : t.behaviour = some b) (hn : n.metadata = t.metadata) :
    Adds (b.init n s) s.graph (n.listener? s.catalog s.graph) := by
  have hother : n.nodeType ≠ EventListener.name →
      ∀ key, n.listener? s.catalog s.graph key = none :=
    fun hne => NodeInstance.listener?_of_none (if_neg hne) s.graph
  have hnamed : ∀ name, t.metadata.name = name → n.nodeType = name := by
    rintro name rfl
    rw [NodeInstance.nodeType, hn]
  have hall : ∀ t ∈ nodeTypes sink, (∀ name, t.metadata.name = name → n.nodeType = name) →
      ∀ b, t.behaviour = some b →
        Adds (b.init n s) s.graph (n.listener? s.catalog s.graph) := by
    -- of the other types only intervals ask for something, and what they ask for is a task
    simp only [nodeTypes, List.forall_mem_cons, Option.some.injEq, forall_eq']
    exact ⟨adds_eventListener,
      fun h => adds_interval (hother (h ▸ by decide)),
      fun h => .done (hother (h ▸ by decide)),
      fun h => .done (hother (h ▸ by decide)),
      fun h => .done (hother (h ▸ by decide)),
      fun h => .done (hother (h ▸ by decide)),
      List.forall_mem_nil _⟩
  exact hall t ht hnamed b hb

end Adds

variable {sink : Sink} {c : Context} {e m m' : Engine}

/-- Each node that is initialised adds its listener. -/
theorem listeners_of_initAll {fuel : Nat} {g : GraphId} {before nodes : List LiveNode}
    (htyped : ∀ n ∈ nodes, ∃ t ∈ nodeTypes sink, t.behaviour = some n.behaviour ∧
      n.node.metadata = t.metadata)
    (hrising : Rising g e)
    (h : initAll (exec (call fuel)) g before nodes e = .returned (.ok ()) m) (key : EventKey) :
    (m.graph g).bus.listeners key = (e.graph g).bus.listeners key ++
      nodes.filterMap (·.node.listener? e.catalog g key) := by
  induction nodes generalizing before e with
  | nil =>
    cases h
    exact (List.append_nil _).symm
  | cons n rest ih =>
    obtain ⟨⟨t, ht, hb, hmetadata⟩, hrest⟩ := List.forall_mem_cons.mp htyped
    obtain ⟨r, m', hexec, hgo⟩ := Run.exists_of_bind h
    have hhooks : (e.record (.initialising g n.id)).hooks.isSome = true := by
      rw [show (e.record (.initialising g n.id)).hooks = some g from hrising.hooks]
      rfl
    have hrec : Moves e (e.record (.initialising g n.id)) := .single (.record e _ rfl)
    have hmoves : Moves e m' := by
      have hends := exec_quiet fuel (n.behaviour.init n.node (e.setting g)) _ hhooks
      rw [hexec] at hends
      exact hrec.trans hends.moves
    cases r with
    | error err =>
      -- then the load would fail
      obtain ⟨_, _, -, hend⟩ := Run.exists_of_bind hgo
      cases hend
    | ok step =>
      have hadded : (m'.graph g).bus.listeners key = (e.graph g).bus.listeners key ++
          (n.node.listener? e.catalog g key).toList :=
        (adds_init ht hb hmetadata (s := e.setting g)).listeners (hrising.frame hrec.frame)
          hexec key
      have hdone : Moves e (m'.record (.initialised g n.id)) := hmoves.tail (.record m' _ rfl)
      have hcatalog : (m'.record (.initialised g n.id)).catalog = e.catalog :=
        congrArg Circumstances.catalog hdone.circumstances
      have hlast := ih hrest (hrising.frame hdone.frame) hgo
      rw [hcatalog] at hlast
      rw [hlast, List.filterMap_cons]
      show (m'.graph g).bus.listeners key ++ _ = _
      rw [hadded, List.append_assoc]
      cases n.node.listener? e.catalog g key <;> rfl

/-- **A loaded graph has the listeners of its nodes, in order, and no others.** -/
theorem listeners_of_load (he : Hosted sink e) (hr : e.registry.Registered) {fuel : Nat}
    (h : call fuel (.load c) e = .returned (.ok ()) m) (key : EventKey) :
    m.liveGraph.bus.listeners key =
      m.liveGraph.nodes.filterMap (·.node.listener? e.catalog m.live key) := by
  cases fuel with
  | zero => cases h
  | succ fuel =>
    have hembodies := embodies_of_load he hr h
    obtain ⟨v, nodes, u, hraised⟩ := raised_of_load he.served.1 he.served.2 h
    have hself : ∀ graph, (v.raise graph).graph v.graphs.length = graph := graph_addGraph_self v
    -- the new graph is the one whose nodes are being initialised
    have hrising : Rising v.graphs.length
        (v.raise { generation := e.generation + 1, context := c, nodes := nodes }) := by
      refine ⟨rfl, ?_, by rw [hself]⟩
      rw [length_raise .refl]
      exact Nat.lt_succ_self _
    have hcatalog : v.catalog = e.catalog := congrArg Circumstances.catalog hraised.circumstances
    -- they are of the built-in types, whose programs are known
    have htyped : ∀ n ∈ nodes, ∃ t ∈ nodeTypes sink, t.behaviour = some n.behaviour ∧
        n.node.metadata = t.metadata := fun n hn => hembodies.typed (hraised.nodes_eq.symm ▸ hn)
    have hlisteners := listeners_of_initAll htyped hrising hraised.initialised key
    rw [hself] at hlisteners
    rw [hraised.nodes_eq, hraised.liveGraph_eq, hraised.live_eq, hlisteners, ← hcatalog]
    rfl

/-- What is looked for in the nodes of a loaded graph can be looked for in the stored one. -/
theorem Embodies.filterMap {g : GraphId} (h : Embodies sink c g e) {α : Type}
    (f : NodeInstance → Option α) :
    (e.graph g).nodes.filterMap (f ·.node) =
      c.nodes.filterMap fun entry => entry.instance?.bind f := by
  obtain ⟨registry, hbuiltin, hr, hwire⟩ := h.wired
  obtain ⟨-, -, hall⟩ := wellFormed_of_wire hr hwire
  generalize c.nodes = entries, (e.graph g).nodes = nodes at hall
  induction hall with
  | nil => rfl
  | cons hbecomes _ ih =>
    rw [List.filterMap_cons, List.filterMap_cons, hbecomes.instance? hbuiltin hr, ih]
    rfl

/-! ### Listeners of the host -/

/-- The host registers listeners with the live graph, one after another. -/
inductive Joined : Engine → List (EventKey × Listener Reaction) → Engine → Prop
  | refl (e : Engine) : Joined e [] e
  | on {e m e' : Engine} {key : EventKey} {l : Listener Reaction}
      {hosts : List (EventKey × Listener Reaction)} (h : e.on key l = .returned () m)
      (rest : Joined m hosts e') : Joined e ((key, l) :: hosts) e'

/-- The live graph can be asked for and takes listeners. -/
structure Attending (e : Engine) : Prop where
  hooks : e.hooks = none
  lt : e.live < e.graphs.length
  dropped : e.liveGraph.dropped = false

theorem Served.attending (h : Served e) : Attending e where
  hooks := h.settled.hooks
  lt := h.reachable.placed.live_lt
  dropped := (h.reachable.placed.alive e.live).mpr (.inl rfl)

theorem Attending.on (h : Attending e) {key : EventKey} {l : Listener Reaction}
    (hon : e.on key l = .returned () m) : Attending m ∧ m.live = e.live ∧
      ∀ key', m.liveGraph.bus.listeners key' =
        e.liveGraph.bus.listeners key' ++ if key = key' then [l] else [] := by
  have hreach : e.reaches e.live = true := by
    rw [Engine.reaches, h.hooks]
  have hframe : Frame e m := by
    have hends := subscribe_ends e e.live key l
    rw [show e.subscribe e.live key l = .returned () m from hon] at hends
    exact hends.moves.frame
  have hopen : ¬ (e.graph e.live).dropped = true := by
    rw [show (e.graph e.live).dropped = false from h.dropped]
    exact Bool.false_ne_true
  have hdropped : (m.graph m.live).dropped = false := by
    rw [hframe.live, (hframe.graph e.live).dropped]
    exact h.dropped
  refine ⟨⟨hframe.hooks.trans h.hooks, ?_, hdropped⟩, hframe.live, fun key' => ?_⟩
  · rw [hframe.live, hframe.length]
    exact h.lt
  · -- the live graph is open, so the listener is put behind those of its key
    rw [liveGraph, hframe.live]
    unfold Engine.on subscribe at hon
    rw [if_pos hreach] at hon
    cases hon
    rw [graph_modifyGraph_self _ h.lt, if_neg hopen, Bus.listeners_on]
    split
    · rfl
    · exact (List.append_nil _).symm

/-- The listeners of the host come last, in the order in which they were registered. -/
theorem Joined.attending {hosts : List (EventKey × Listener Reaction)} (h : Joined e hosts m)
    (he : Attending e) : Attending m ∧ m.live = e.live ∧
      ∀ key, m.liveGraph.bus.listeners key =
        e.liveGraph.bus.listeners key ++ (hosts.filter (·.1 = key)).map (·.2) := by
  induction h with
  | refl e => exact ⟨he, rfl, fun key => (List.append_nil _).symm⟩
  | @on e m e' key l hosts hon _ ih =>
    obtain ⟨hm, hlive, hlisteners⟩ := he.on hon
    obtain ⟨he', hlive', hlisteners'⟩ := ih hm
    refine ⟨he', hlive'.trans hlive, fun key' => ?_⟩
    rw [hlisteners', hlisteners, List.append_assoc, List.filter_cons]
    -- the listener is behind those that were there, under its own key
    by_cases hkey : key = key'
    · rw [if_pos hkey, if_pos (decide_eq_true hkey)]
      rfl
    · rw [if_neg hkey, if_neg (by simpa using hkey)]
      rfl

/-! ### What an event sets off -/

/-- What an event sets off: a walk, or a program of the host. -/
inductive Response where
  | walk (w : Walk)
  | host (p : Program)

/-- What a response does. -/
def Response.run (fuel : Nat) : Response → Engine → Run (Except WorkflowError Unit)
  | .walk w, e => call fuel (.walk w) e
  | .host p, e => (exec (call fuel) p e).map fun r => r.map fun _ => ()

/-- A response has its turn. If it goes wrong that is reported. -/
def Response.take (fuel : Nat) (key : EventKey) (a : Response) (e : Engine) : Run Reply :=
  heed key (a.run fuel e)

/-- It is noted that a listener is given an event. -/
def Noted (event : Event) (before : Bool) (e m : Engine) : Prop :=
  ∃ id, m = e.record (.heard id event.key before)

/-- What listeners respond with. Those that are not concerned do nothing. -/
inductive Responds (event : Event) (before : Bool) : List (Listener Reaction) → List Response → Prop
  | nil : Responds event before [] []
  | idle {l : Listener Reaction} {ls : List (Listener Reaction)} {as : List Response}
      (h : l.reaction event before = .done) (rest : Responds event before ls as) :
      Responds event before (l :: ls) as
  | walk {l : Listener Reaction} {ls : List (Listener Reaction)} {as : List Response} {w : Walk}
      {next : String} (h : l.reaction event before = .walkOn w next)
      (rest : Responds event before ls as) :
      Responds event before (l :: ls) (.walk { w with pending := some next } :: as)
  | host {l : Listener Reaction} {ls : List (Listener Reaction)} {as : List Response}
      (rest : Responds event before ls as) :
      Responds event before (l :: ls) (.host (l.reaction event before) :: as)

variable {event : Event} {before : Bool} {ls ls' : List (Listener Reaction)}
  {as as' : List Response}

theorem Responds.append (h : Responds event before ls as) (h' : Responds event before ls' as') :
    Responds event before (ls ++ ls') (as ++ as') := by
  induction h with
  | nil => exact h'
  | idle hl _ ih => exact .idle hl ih
  | walk hl _ ih => exact .walk hl ih
  | host _ ih => exact .host ih

theorem responds_hosts (event : Event) (before : Bool) (ls : List (Listener Reaction)) :
    Responds event before ls (ls.map fun l => .host (l.reaction event before)) := by
  induction ls with
  | nil => exact .nil
  | cons l rest ih => exact .host ih

/-- The nodes respond with the walks of those subscriptions that the event and the phase fit. -/
theorem responds_nodes (event : Event) (before : Bool) (catalog : Catalog) (g : GraphId)
    (nodes : List NodeInstance) :
    Responds event before (nodes.filterMap (·.listener? catalog g event.key))
      ((((nodes.filterMap (·.subscription? catalog)).filter
        fun s => s.key = event.key && s.phase = before).map (·.walk g event)).map .walk) := by
  induction nodes with
  | nil => exact .nil
  | cons n rest ih =>
    rw [List.filterMap_cons, List.filterMap_cons]
    cases hs : n.subscription? catalog with
    | none =>
      rw [NodeInstance.listener?_of_none hs]
      exact ih
    | some s =>
      rw [NodeInstance.listener?_of_some hs]
      -- a listener under another key is not called, and one of the other phase does nothing
      by_cases hkey : s.key = event.key
      · rw [if_pos hkey]
        by_cases hphase : s.phase = before
        · rw [List.filter_cons_of_pos (by simp [hkey, hphase])]
          subst hphase
          refine .walk (w := { graph := g, vars := carrying event s.producer.variableName })
            ?_ ih
          exact s.reaction_eq g event
        · rw [List.filter_cons_of_neg (by simp [hphase])]
          exact .idle (if_neg (Ne.symm hphase)) ih
      · rw [if_neg hkey, List.filter_cons_of_neg (by simp [hkey])]
        exact ih

/-- The turn of a listener is the turn of its response, behind the note. -/
theorem hear_walkOn {fuel : Nat} {l : Listener Reaction} {w : Walk} {next : String}
    (h : l.reaction event before = .walkOn w next) :
    hear (exec (call fuel)) event before l e =
      (Response.walk { w with pending := some next }).take fuel event.key
        (e.record (.heard l.id event.key before)) := by
  rw [hear, h]
  show heed event.key ((call fuel (.walk { w with pending := some next }) _).bind _) =
    heed event.key (call fuel (.walk { w with pending := some next }) _)
  rcases call fuel (.walk { w with pending := some next })
    (e.record (.heard l.id event.key before)) with ⟨err | _, m⟩ | m | _ <;> rfl

theorem hear_host (fuel : Nat) (l : Listener Reaction) :
    hear (exec (call fuel)) event before l e =
      (Response.host (l.reaction event before)).take fuel event.key
        (e.record (.heard l.id event.key before)) := by
  rw [hear, Response.take, Response.run]
  rcases exec (call fuel) (l.reaction event before) (e.record (.heard l.id event.key before)) with
    ⟨err | step, m⟩ | m | _ <;> rfl

/-- A response has its turn, and a delivery goes on behind it. -/
theorem round_of_hear {fuel : Nat} {l : Listener Reaction} {a : Response}
    (h : hear (exec (call fuel)) event before l e =
      a.take fuel event.key (e.record (.heard l.id event.key before)))
    (hrest : ∀ m, Round (Response.take fuel event.key) (Noted event before) as m
      (deliver (exec (call fuel)) event before ls m)) :
    Round (Response.take fuel event.key) (Noted event before) (a :: as) e
      (deliver (exec (call fuel)) event before (l :: ls) e) := by
  rw [deliver_cons]
  -- that the listener is called is noted before it answers
  refine .meanwhile ⟨l.id, rfl⟩ ?_
  cases hhear : hear (exec (call fuel)) event before l e with
  | returned r m => exact .turn (h.symm.trans hhear) (hrest m)
  | panicked m => exact absurd hhear (hear_ne_panicked l)
  | diverged => exact .diverged (List.nil_append _).symm (.done _) (h.symm.trans hhear)

/-- **A delivery is a round of what the listeners respond with.** -/
theorem Responds.round (h : Responds event before ls as) (fuel : Nat) :
    Round (Response.take fuel event.key) (Noted event before) as e
      (deliver (exec (call fuel)) event before ls e) := by
  induction h generalizing e with
  | nil => exact .returned (.done e)
  -- an idle listener is noted as heard and answers nothing
  | @idle l ls as hl _ ih =>
    have hhear : hear (exec (call fuel)) event before l e =
        .returned .accepted (e.record (.heard l.id event.key before)) := by
      rw [hear, hl]
      rfl
    rw [deliver_cons, hhear]
    show Round _ _ as e ((deliver _ event before ls _).map (· + 0))
    rw [show ∀ r : Run Nat, r.map (· + 0) = r from fun r => by cases r <;> rfl]
    exact .meanwhile ⟨l.id, rfl⟩ ih
  | walk hl _ ih => exact round_of_hear (hear_walkOn hl) fun _ => ih
  | host _ ih => exact round_of_hear (hear_host fuel _) fun _ => ih

/-- **Firing starts exactly the walks of the subscriptions.** After a load that succeeds, and with
any listeners that the host has added since, an event is answered by the walks that the stored graph
has for its key and its phase, in the order of the nodes, then by the listeners of the host under
its key, and by nothing else. Each has its turn whatever becomes of those before it, and the answer
is the number of those that failed. -/
theorem fire_sets_off (he : Hosted sink e) (hr : e.registry.Registered) {fuel : Nat}
    (hload : call fuel (.load c) e = .returned (.ok ()) m)
    {hosts : List (EventKey × Listener Reaction)} (hjoined : Joined m hosts m') (event : Event)
    (before : Bool) (fuel' : Nat) :
    Round (Response.take fuel' event.key) (Noted event before)
      ((c.walksFor e.catalog m.live event before).map .walk ++
        (hosts.filter (·.1 = event.key)).map fun h => .host (h.2.reaction event before))
      m' (call (fuel' + 1) (.fire event before) m') := by
  have hserved : Served m := ((Served.call_uniform fuel (.load c) e he.served).returned hload).1
  obtain ⟨hattending, hlive, hlisteners⟩ := hjoined.attending hserved.attending
  have hembodies := embodies_of_load he hr hload
  -- the listeners of the nodes come first, in the order of the nodes
  have hnodes : m.liveGraph.bus.listeners event.key =
      (m.liveGraph.nodes.map (·.node)).filterMap (·.listener? e.catalog m.live event.key) := by
    rw [listeners_of_load he hr hload, List.filterMap_map]
    rfl
  -- each of them begins the walk of its subscription
  have hwalks : (m.liveGraph.nodes.map (·.node)).filterMap (·.subscription? e.catalog) =
      c.subscriptions e.catalog := by
    rw [List.filterMap_map, Context.subscriptions, ← hembodies.filterMap]
    rfl
  have hfire : call (fuel' + 1) (.fire event before) m' =
      deliver (exec (call fuel')) event before (m'.liveGraph.bus.listeners event.key) m' :=
    fire_eq hattending.hooks
  have hresponds := responds_nodes event before e.catalog m.live (m.liveGraph.nodes.map (·.node))
  rw [hwalks] at hresponds
  -- and the host's are those that have joined since
  have hhosts := responds_hosts event before ((hosts.filter (·.1 = event.key)).map (·.2))
  rw [List.map_map] at hhosts
  rw [hfire, hlisteners, hnodes]
  exact (hresponds.append hhosts).round fuel'

/-- Five listeners, of which two are for players that have joined and lead on: the first to a node
that fails, the second without a variable for the event. -/
def reception : Context :=
  (Context.mk [])
    |>.addNode "early" EventListener.name
    |>.consume EventListener.eventField "PlayerJoin"
    |>.consume EventListener.beforeField "true"
    |>.connect "Next" (some "greet")
    |>.addNode "first" EventListener.name
    |>.consume EventListener.eventField "PlayerJoin"
    |>.connect "Next" (some "pause")
    |>.addNode "idle" EventListener.name
    |>.consume EventListener.eventField "PlayerJoin"
    |>.addNode "chatter" EventListener.name
    |>.consume EventListener.eventField "PlayerChat"
    |>.connect "Next" (some "greet")
    |>.addNode "second" EventListener.name
    |>.consume EventListener.eventField "PlayerJoin"
    |>.produce EventListener.eventField ""
    |>.connect "Next" (some "greet")
    |>.addNode "pause" Wait.name
    |>.consume Wait.delayField "\x7b\x7bnobody\x7d\x7d"
    |>.connect "Next" (some "greet")
    |>.addNode "greet" Chat.metadata.name

/-- A listener of the host that refuses every event. -/
def refusing : Listener Reaction := ⟨⟨none, 1⟩, fun _ _ => .fail (.listener "refused")⟩

theorem Attending.joins (h : Attending e) (key : EventKey) (l : Listener Reaction) :
    ∃ m, e.on key l = .returned () m ∧ Joined e [(key, l)] m := by
  have hreach : e.reaches e.live = true := by
    rw [Engine.reaches, h.hooks]
  have hon : e.on key l = _ := if_pos hreach
  exact ⟨_, hon, .on hon (.refl _)⟩

/-- The walk that fails does not keep the later one from being started, nor the host from being
asked, and both failures are counted. -/
theorem fire_sets_off_reception : ∃ m m',
    call 1 (.load reception) (equipped {} .toLog) = .returned (.ok ()) m ∧
    Joined m [(.ofType "PlayerJoin", refusing)] m' ∧
    ((reception.walksFor .sample m.live (.playerJoin "Ada") false).map fun w =>
      (w.pending, w.vars.entries.map (·.1))) = [(some "pause", ["event"]), (some "greet", [])] ∧
    (∃ m'', call 4 (.fire (.playerJoin "Ada") false) m' = .returned 2 m'') ∧
    Round (Response.take 3 (.ofType "PlayerJoin")) (Noted (.playerJoin "Ada") false)
      ((reception.walksFor .sample m.live (.playerJoin "Ada") false).map .walk ++
        [.host (.fail (.listener "refused"))])
      m' (call 4 (.fire (.playerJoin "Ada") false) m') := by
  -- what is computed is read off one run
  have hparts : (done? (call 1 (.load reception) (equipped {} .toLog))).map (fun m =>
      ((reception.walksFor .sample m.live (.playerJoin "Ada") false).map fun w =>
        (w.pending, w.vars.entries.map (·.1)),
      (m.on (.ofType "PlayerJoin") refusing).left?.map fun m' =>
        (call 4 (.fire (.playerJoin "Ada") false) m').returned?.map fun r => (r.1, ()))) =
      some ([(some "pause", ["event"]), (some "greet", [])], some (some (2, ()))) := by
        decide +kernel
  obtain ⟨m, hload, hm⟩ := exists_done hparts
  obtain ⟨hwalks, hcount⟩ := Prod.mk.inj hm
  have hnew : Hosted .toLog (equipped {} .toLog) := hosted_equipped {} .toLog
  have hserved : Served m :=
    ((Served.call_uniform 1 (.load reception) _ hnew.served).returned hload).1
  obtain ⟨m', hon, hjoined⟩ := hserved.attending.joins (.ofType "PlayerJoin") refusing
  rw [hon] at hcount
  obtain ⟨m'', hfire, -⟩ := Run.exists_returned (f := fun _ => ()) (Option.some.inj hcount)
  exact ⟨m, m', hload, hjoined, hwalks, ⟨m'', hfire⟩,
    fire_sets_off hnew (registered_builtins .toLog) hload hjoined (.playerJoin "Ada") false 3⟩

end Engine

end Flowgraph
