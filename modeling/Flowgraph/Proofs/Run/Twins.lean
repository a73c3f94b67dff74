import Flowgraph.Proofs.Run.Custody
import Mathlib.Data.List.Forall2

/-!
# Twins

Programs name their graph by number, and a new task gets the next number that is free. Two engines
that have been through different histories therefore never do literally the same, even if they run
the same graph. What they do is compared up to these numbers here.

* `Program.Twins` — programs that ask for the same, step by step, each of its own graph.
* `Engine.Alike` — engines that cannot be told apart from within one graph of each. Which graphs
  these are, and what was in the engines before they were made, is a `Vantage` for each engine.
* `Behaviour.Uniform` — behaviours whose programs are twins, whatever the number of the graph.
* `exec_alike` — twins answer alike in engines that are alike, and leave them alike.
* `initAll_alike`, `fire_alike` — so uniform nodes are initialised alike, and events have the same
  effect in graphs that are alike.

While a graph is brought up, the engines need not have the worker pool and the dice in common, and
the programs of its nodes make no use of them. Once it is live its programs may use both, and then
the comparison is between engines that have both in common. So there are two phases.
-/

namespace Flowgraph

/-- The same walk through another graph. -/
def Walk.through (w : Walk) (g : GraphId) : Walk := { w with graph := g }

/-- What the programs of a graph are run for: to bring it up or to take it down, or while it is
live. -/
inductive Phase where
  | hook
  | live

/-! ### Twins -/

section Twins

variable (g g' : GraphId)

/-- Two programs that ask for the same, step by step, each of its own graph: they walk through it,
and give it listeners and tasks that are twins again. The number of a task makes no difference to
them. -/
inductive Program.Twins : Phase → Program → Program → Prop
  | finish {phase : Phase} (vars : Variables) (next : Option String) :
      Twins phase (.finish vars next) (.finish vars next)
  | fail {phase : Phase} (err : WorkflowError) : Twins phase (.fail err) (.fail err)
  | log {phase : Phase} (line : LogLine) {k k' : Unit → Program}
      (hk : Twins phase (k ()) (k' ())) : Twins phase (.act (.log line) k) (.act (.log line) k')
  | withdraw {phase : Phase} (l : ListenerId) {k k' : Unit → Program}
      (hk : Twins phase (k ()) (k' ())) :
      Twins phase (.act (.withdraw g l) k) (.act (.withdraw g' l) k')
  | subscribe {phase : Phase} (key : EventKey) (l : ListenerId) {reaction reaction' : Reaction}
      {k k' : Unit → Program}
      (hreaction : ∀ event before, Twins .live (reaction event before) (reaction' event before))
      (hk : Twins phase (k ()) (k' ())) :
      Twins phase (.subscribe g key l reaction k) (.subscribe g' key l reaction' k')
  | schedule {phase : Phase} (timing : Timing) {body body' : Nat → Program}
      {k k' : Except SchedulingError TaskId → Program}
      (hbody : ∀ run, Twins .live (body run) (body' run))
      (herror : ∀ err, Twins phase (k (.error err)) (k' (.error err)))
      (hok : ∀ task task', Twins phase (k (.ok task)) (k' (.ok task'))) :
      Twins phase (.schedule g timing body k) (.schedule g' timing body' k')
  | draw (low high : Float) {k k' : Float → Program} (hk : ∀ x, Twins .live (k x) (k' x)) :
      Twins .live (.act (.draw low high) k) (.act (.draw low high) k')
  | submit (job : Program) {k k' : Except SchedulingError Unit → Program}
      (hk : ∀ r, Twins .live (k r) (k' r)) : Twins .live (.submit job k) (.submit job k')
  | walk (w : Walk) {k k' : Except WorkflowError Unit → Program}
      (hk : ∀ r, Twins .live (k r) (k' r)) :
      Twins .live (.call (.walk (w.through g)) k) (.call (.walk (w.through g')) k')

/-- Listeners of one name with reactions that are twins. -/
structure Listener.Twins (l l' : Listener Reaction) : Prop where
  id : l.id = l'.id
  reaction : ∀ event before,
    Program.Twins g g' .live (l.reaction event before) (l'.reaction event before)

/-- Tasks that were made at one time, each for its own graph, have come equally far, and have bodies
that are twins. -/
structure Task.Twins (t t' : Task (Nat → Program)) : Prop where
  owner : t.owner = some g
  owner' : t'.owner = some g'
  timing : t.timing = t'.timing
  created : t.created = t'.created
  runs : t.runs = t'.runs
  running : t.running = t'.running
  rested : t.rested = t'.rested
  cancelled : t.cancelled = t'.cancelled
  ended : t.ended = t'.ended
  body : ∀ run, Program.Twins g g' .live (t.body run) (t'.body run)

/-- Entries that say the same, of walks each through its own graph. -/
inductive Entry.Twins : Entry → Entry → Prop
  | same (entry : Entry) : Twins entry entry
  | entered (time : Nat) (node : String) (w : Walk) :
      Twins (.entered time node (w.through g)) (.entered time node (w.through g'))

end Twins

variable {g g' : GraphId} {phase : Phase}

theorem Task.Twins.isOver {t t' : Task (Nat → Program)} (h : Task.Twins g g' t t') :
    t.isOver = t'.isOver := by
  rw [Task.isOver, Task.isOver, h.cancelled, h.ended]

/-- Tasks that are twins are due at the same time. -/
theorem Task.Twins.due? {t t' : Task (Nat → Program)} (h : Task.Twins g g' t t') :
    t.due? = t'.due? := by
  rw [Task.due?, Task.due?, h.cancelled, h.ended, h.running, h.timing, h.created, h.rested, h.runs]

namespace Program.Twins

theorem attempt {α : Type} (r : Except WorkflowError α) {k k' : α → Program}
    (hk : ∀ a, Twins g g' phase (k a) (k' a)) :
    Twins g g' phase (.attempt r k) (.attempt r k') := by
  cases r with
  | error err => exact .fail err
  | ok a => exact hk a

theorem done : Twins g g' phase .done .done := .finish ∅ none

theorem walkOn (w : Walk) (next : String) :
    Twins g g' .live (.walkOn (w.through g) next) (.walkOn (w.through g') next) :=
  .walk { w with pending := some next } fun r => .attempt r fun _ => .done

theorem startWalk (start : String) (vars : Variables) :
    Twins g g' .live (.startWalk g start vars) (.startWalk g' start vars) :=
  .walkOn { graph := g, vars := vars } start

end Program.Twins

/-- A behaviour whose programs are the same for all graphs, up to the number of the graph. -/
structure Behaviour.Uniform (b : Behaviour) : Prop where
  init : ∀ n (s s' : Setting), s.catalog = s'.catalog →
    Program.Twins s.graph s'.graph .hook (b.init n s) (b.init n s')
  unload : ∀ n (s s' : Setting),
    Program.Twins s.graph s'.graph .hook (b.unload n s) (b.unload n s')
  execute : ∀ n (w : Walk) g g',
    Program.Twins g g' .live (b.execute n (w.through g)) (b.execute n (w.through g'))

/-! ### Graphs and engines that are alike -/

/-- Where an engine is looked at from: one of its graphs, the tasks that were made before it, and
what had happened before it was looked at. -/
structure Vantage where
  graph : GraphId
  tasks : List (Task (Nat → Program))
  journal : Journal

/-- The number of a task by its place among those that were made since. -/
def Vantage.number (v : Vantage) (place : Nat) : TaskId := v.tasks.length + place + 1

/-- A graph that takes listeners and tasks. -/
structure Graph.Takes (graph : Graph) : Prop where
  dropped : graph.dropped = false
  closed : graph.tasks.closed = false

/-- Graphs with the same nodes, with listeners that are twins under every key, and with tasks at the
same places. -/
structure Graph.Alike (v v' : Vantage) (graph graph' : Graph) : Prop where
  context : graph.context = graph'.context
  nodes : graph.nodes = graph'.nodes
  uniform : ∀ n ∈ graph.nodes, n.behaviour.Uniform
  listeners : ∀ key, List.Forall₂ (Listener.Twins v.graph v'.graph)
    (graph.bus.listeners key) (graph'.bus.listeners key)
  tracked : ∃ places : List Nat, graph.tasks.tracked = places.map v.number ∧
    graph'.tasks.tracked = places.map v'.number
  takes : graph.Takes
  takes' : graph'.Takes

theorem Graph.Alike.withBus {v v' : Vantage} {graph graph' : Graph}
    (h : Graph.Alike v v' graph graph')
    {bus bus' : Bus Reaction} (hbus : ∀ key, List.Forall₂ (Listener.Twins v.graph v'.graph)
      (bus.listeners key) (bus'.listeners key)) :
    Graph.Alike v v' { graph with bus := bus } { graph' with bus := bus' } :=
  ⟨h.context, h.nodes, h.uniform, hbus, h.tracked, ⟨h.takes.dropped, h.takes.closed⟩,
    ⟨h.takes'.dropped, h.takes'.closed⟩⟩

namespace Engine

/-- What engines have in common apart from a graph that is live in each, if programs of that graph
are to have the same effect. -/
structure Shared (v v' : Vantage) (e e' : Engine) : Prop where
  live : e.live = v.graph
  live' : e'.live = v'.graph
  hooks : e.hooks = none
  hooks' : e'.hooks = none
  pool : e.pool = e'.pool
  dice : e.dice = e'.dice
  drawn : e.drawn = e'.drawn
  journal : ∃ since since', e.journal = since ++ v.journal ∧ e'.journal = since' ++ v'.journal ∧
    List.Forall₂ (Entry.Twins v.graph v'.graph) since since'

/-- **Engines that cannot be told apart from within one graph of each**: the graphs are alike, the
tasks that were made since are twins, one by one, and the time is the same. -/
structure Alike (v v' : Vantage) (phase : Phase) (e e' : Engine) : Prop where
  config : e.config = e'.config
  catalog : e.catalog = e'.catalog
  now : e.scheduler.now = e'.scheduler.now
  reaches : e.reaches v.graph = true
  reaches' : e'.reaches v'.graph = true
  graph : Graph.Alike v v' (e.graph v.graph) (e'.graph v'.graph)
  tasks : ∃ made made', e.scheduler.tasks = v.tasks ++ made ∧
    e'.scheduler.tasks = v'.tasks ++ made' ∧
    List.Forall₂ (Task.Twins v.graph v'.graph) made made'
  shared : phase = .live → Shared v v' e e'

variable {v v' : Vantage} {e e' : Engine}

/-! ### Requests -/

theorem Alike.record (h : Alike v v' phase e e') {entry entry' : Entry}
    (hentry : phase = .live → Entry.Twins v.graph v'.graph entry entry') :
    Alike v v' phase (e.record entry) (e'.record entry') :=
  { h with
    shared := fun hp =>
      have hs := h.shared hp
      { hs with
        journal := by
          obtain ⟨since, since', hj, hj', htwins⟩ := hs.journal
          exact ⟨entry :: since, entry' :: since', congrArg _ hj, congrArg _ hj',
            .cons (hentry hp) htwins⟩ } }

theorem Alike.log (h : Alike v v' phase e e') (line : LogLine) :
    Alike v v' phase (e.log line) (e'.log line) :=
  h.record fun _ => .same _

theorem Alike.draw (h : Alike v v' .live e e') :
    Alike v v' .live { e with drawn := e.drawn + 1 } { e' with drawn := e'.drawn + 1 } :=
  { h with
    shared := fun hp =>
      have hs := h.shared hp
      { hs with drawn := congrArg (· + 1) hs.drawn } }

/-- A change of the graphs that leaves them alike. -/
theorem Alike.modifyGraph (h : Alike v v' phase e e') {f f' : Graph → Graph}
    (hf : Graph.Alike v v' (f (e.graph v.graph)) (f' (e'.graph v'.graph))) :
    Alike v v' phase (e.modifyGraph v.graph f) (e'.modifyGraph v'.graph f') :=
  { h with
    graph := by
      rw [graph_modifyGraph_self f (lt_of_not_dropped h.graph.takes.dropped),
        graph_modifyGraph_self f' (lt_of_not_dropped h.graph.takes'.dropped)]
      exact hf
    shared := fun hp => { h.shared hp with } }

theorem Alike.withdraw (h : Alike v v' phase e e') (l : ListenerId) :
    Alike v v' phase
      (e.modifyGraph v.graph fun graph => { graph with bus := graph.bus.withdraw l })
      (e'.modifyGraph v'.graph fun graph => { graph with bus := graph.bus.withdraw l }) := by
  refine h.modifyGraph (h.graph.withBus fun key => ?_)
  rw [Bus.listeners_withdraw, Bus.listeners_withdraw]
  -- twins have one name, so both or neither of them are withdrawn
  exact List.rel_filter (fun m m' hm => by simp only [hm.id]) (h.graph.listeners key)

theorem Alike.on (h : Alike v v' phase e e') (key : EventKey) {l l' : Listener Reaction}
    (hl : Listener.Twins v.graph v'.graph l l') :
    Alike v v' phase
      (e.modifyGraph v.graph fun graph =>
        if graph.dropped then graph else { graph with bus := graph.bus.on key l })
      (e'.modifyGraph v'.graph fun graph =>
        if graph.dropped then graph else { graph with bus := graph.bus.on key l' }) := by
  refine h.modifyGraph ?_
  rw [if_neg (Bool.eq_false_iff.mp h.graph.takes.dropped),
    if_neg (Bool.eq_false_iff.mp h.graph.takes'.dropped)]
  refine h.graph.withBus fun k => ?_
  have hk := h.graph.listeners k
  rw [Bus.listeners_on, Bus.listeners_on]
  -- the new listener joins the list of its key on both sides
  split
  · exact List.rel_append hk (.cons hl .nil)
  · exact hk

/-- Tasks at one place among those that were made since have both ended or both not. -/
theorem isEnded_number {s s' : Scheduler (Nat → Program)} {made made' : List (Task (Nat → Program))}
    (hs : s.tasks = v.tasks ++ made) (hs' : s'.tasks = v'.tasks ++ made')
    (h : List.Forall₂ (Task.Twins v.graph v'.graph) made made') (place : Nat) :
    s.isEnded (v.number place) = s'.isEnded (v'.number place) := by
  have hat : s.task? (v.number place) = made[place]? := by
    rw [Vantage.number, Scheduler.task?, hs, List.getElem?_append_right (Nat.le_add_right ..),
      Nat.add_sub_cancel_left]
  have hat' : s'.task? (v'.number place) = made'[place]? := by
    rw [Vantage.number, Scheduler.task?, hs', List.getElem?_append_right (Nat.le_add_right ..),
      Nat.add_sub_cancel_left]
  rw [Scheduler.isEnded, Scheduler.isEnded, hat, hat']
  -- what is left is about the two lists of made tasks alone
  clear hs hs' hat hat'
  induction h generalizing place with
  | nil => rfl
  | cons ht _ ih =>
    cases place with
    | zero => exact ht.ended
    | succ place => exact ih place

/-- A task that was made is put into the registry of its graph, and both registries grow alike. -/
theorem tracked_alike {s s' : Scheduler (Nat → Program)} {made made' : List (Task (Nat → Program))}
    (hs : s.tasks = v.tasks ++ made) (hs' : s'.tasks = v'.tasks ++ made')
    (h : List.Forall₂ (Task.Twins v.graph v'.graph) made made') (places : List Nat) (place : Nat) :
    ∃ places' : List Nat,
      (places.map v.number).filter (!s.isEnded ·) ++ [v.number place] = places'.map v.number ∧
      (places.map v'.number).filter (!s'.isEnded ·) ++ [v'.number place] =
        places'.map v'.number := by
  refine ⟨places.filter (fun p => !s.isEnded (v.number p)) ++ [place], ?_, ?_⟩
  · rw [List.filter_map, List.map_append]
    rfl
  · rw [List.filter_map, List.map_append]
    -- the same places are left, since the tasks there are twins
    have hsame : ∀ p, (!s'.isEnded (v'.number p)) = !s.isEnded (v.number p) := fun p => by
      rw [isEnded_number hs hs' h p]
    simp only [Function.comp_def, hsame]
    rfl

/-- A task that was made since is put into the registry of its graph. -/
theorem Alike.track (h : Alike v v' phase e e') (place : Nat) :
    Alike v v' phase (e.track v.graph (v.number place)) (e'.track v'.graph (v'.number place)) := by
  obtain ⟨made, made', hs, hs', hmade⟩ := h.tasks
  obtain ⟨places, htracked, htracked'⟩ := h.graph.tracked
  rw [track_of_open _ (Bool.eq_false_iff.mp h.graph.takes.dropped)
      (Bool.eq_false_iff.mp h.graph.takes.closed),
    track_of_open _ (Bool.eq_false_iff.mp h.graph.takes'.dropped)
      (Bool.eq_false_iff.mp h.graph.takes'.closed), htracked, htracked']
  exact h.modifyGraph ⟨h.graph.context, h.graph.nodes, h.graph.uniform, h.graph.listeners,
    tracked_alike hs hs' hmade places place, ⟨h.graph.takes.dropped, h.graph.takes.closed⟩,
    ⟨h.graph.takes'.dropped, h.graph.takes'.closed⟩⟩

/-- Twins are added to the tasks, at one place behind those that were made since. -/
theorem Alike.addTask (h : Alike v v' phase e e') (t t' : Task (Nat → Program))
    (ht : Task.Twins v.graph v'.graph t t') :
    ∃ place, e.scheduler.tasks.length + 1 = v.number place ∧
      e'.scheduler.tasks.length + 1 = v'.number place ∧
      Alike v v' phase
        { e with scheduler := { e.scheduler with tasks := e.scheduler.tasks ++ [t] } }
        { e' with scheduler := { e'.scheduler with tasks := e'.scheduler.tasks ++ [t'] } } := by
  obtain ⟨made, made', hs, hs', hmade⟩ := h.tasks
  -- the new task's place is behind those made so far
  refine ⟨made.length, ?_, ?_, { h with tasks := ?_, shared := fun hp => { h.shared hp with } }⟩
  · rw [hs, List.length_append]
    rfl
  · rw [hs', List.length_append, ← hmade.length_eq]
    rfl
  · refine ⟨made ++ [t], made' ++ [t'], ?_, ?_, List.rel_append hmade (.cons ht .nil)⟩
    · rw [hs, List.append_assoc]
    · rw [hs', List.append_assoc]

/-- **A task is refused or made alike.** -/
theorem Alike.schedule (h : Alike v v' phase e e') (timing : Timing) {body body' : Nat → Program}
    (hbody : ∀ run, Program.Twins v.graph v'.graph .live (body run) (body' run)) :
    (∃ err, e.schedule v.graph timing body = .returned (.error err) e ∧
      e'.schedule v'.graph timing body' = .returned (.error err) e') ∨
    ∃ task task' m m', e.schedule v.graph timing body = .returned (.ok task) m ∧
      e'.schedule v'.graph timing body' = .returned (.ok task') m' ∧ Alike v v' phase m m' := by
  have hchecks : timing.check e'.scheduler.now = timing.check e.scheduler.now := by rw [h.now]
  rw [Engine.schedule, Engine.schedule, if_pos h.reaches, if_pos h.reaches', Scheduler.schedule,
    Scheduler.schedule, hchecks]
  cases hcheck : timing.check e.scheduler.now with
  | error err => exact .inl ⟨err, rfl, rfl⟩
  | ok _ =>
    refine .inr ⟨_, _, _, _, rfl, rfl, ?_⟩
    -- the new tasks are twins, and each is tracked by its graph
    obtain ⟨place, hplace, hplace', hadded⟩ := h.addTask
      { timing := timing, created := e.scheduler.now, owner := some v.graph, body := body }
      { timing := timing, created := e'.scheduler.now, owner := some v'.graph, body := body' }
      ⟨rfl, rfl, rfl, h.now, rfl, rfl, h.now, rfl, rfl, hbody⟩
    rw [hplace, hplace']
    exact hadded.track place

/-- A pool that is had in common takes a job or refuses it. -/
theorem Alike.submit (h : Alike v v' .live e e') (job : Program) :
    (e.submit job).1 = (e'.submit job).1 ∧
      Alike v v' .live (e.submit job).2 (e'.submit job).2 := by
  have hpool := (h.shared rfl).pool
  rw [Engine.submit, Engine.submit, ← hpool]
  cases e.pool.submit job with
  | ok pool => exact ⟨rfl, { h with shared := fun hp => { h.shared hp with pool := rfl } }⟩
  | error err =>
    -- a job that is refused is reported if the pool is full
    cases err with
    | poolSaturated size => exact ⟨rfl, h.log _⟩
    | invalidPeriod d => exact ⟨rfl, h⟩
    | poolClosed => exact ⟨rfl, h⟩
    | noRuntime => exact ⟨rfl, h⟩

end Engine

/-! ### Programs -/

/-- Runs that return the same and leave engines that are related, or neither of which comes to an
end. -/
inductive Run.Same {α : Type} (R : Engine → Engine → Prop) : Run α → Run α → Prop
  | returned (a : α) {e e' : Engine} (h : R e e') : Same R (.returned a e) (.returned a e')
  | diverged : Same R .diverged .diverged

theorem Run.Same.bind {α β : Type} {R : Engine → Engine → Prop} {r r' : Run α}
    {k k' : α → Engine → Run β} (h : Run.Same R r r')
    (hk : ∀ a m m', R m m' → Run.Same R (k a m) (k' a m')) :
    Run.Same R (r.bind k) (r'.bind k') := by
  cases h with
  | returned a hm => exact hk a _ _ hm
  | diverged => exact .diverged

theorem Run.Same.map {α β : Type} {R : Engine → Engine → Prop} {r r' : Run α} (f : α → β)
    (h : Run.Same R r r') : Run.Same R (r.map f) (r'.map f) :=
  h.bind fun a _ _ hm => .returned (f a) hm

namespace Engine

variable {v v' : Vantage} {e e' : Engine}

/-- **Twins run alike in engines that are alike.** -/
theorem exec_alike (nested nested' : (c : Command) → Engine → Run c.Answer) {p p' : Program}
    (hnested : phase = .live → ∀ (w : Walk) m m', Alike v v' .live m m' →
      Run.Same (Alike v v' .live) (nested (.walk (w.through v.graph)) m)
        (nested' (.walk (w.through v'.graph)) m'))
    (hp : Program.Twins v.graph v'.graph phase p p') (h : Alike v v' phase e e') :
    Run.Same (Alike v v' phase) (exec nested p e) (exec nested' p' e') := by
  -- each request is answered alike and leaves engines that are alike, for the rest of the programs
  induction hp generalizing e e' with
  | finish vars next => exact .returned _ h
  | fail err => exact .returned _ h
  | log line _ ih => exact ih hnested (h.log line)
  | withdraw l _ ih =>
    rw [exec, exec, act, act, if_pos h.reaches, if_pos h.reaches']
    exact ih hnested (h.withdraw l)
  | subscribe key l hreaction _ _ ih =>
    rw [exec, exec, Engine.subscribe, Engine.subscribe, if_pos h.reaches, if_pos h.reaches']
    exact ih hnested (h.on key ⟨rfl, hreaction⟩)
  | schedule timing hbody _ _ _ herror hok =>
    rw [exec, exec]
    obtain ⟨err, hs, hs'⟩ | ⟨task, task', m, m', hs, hs', hm⟩ := h.schedule timing hbody
    · rw [hs, hs']
      exact herror err hnested h
    · -- the tasks have different numbers, which are nothing to twins
      rw [hs, hs']
      exact hok task task' hnested hm
  | draw low high _ ih =>
    have hx : e'.dice e'.drawn low high = e.dice e.drawn low high := by
      rw [(h.shared rfl).dice, (h.shared rfl).drawn]
    rw [exec, exec, act, act, Run.bind, Run.bind, hx]
    exact ih _ hnested h.draw
  | submit job _ ih =>
    obtain ⟨hr, hm⟩ := h.submit job
    rw [exec, exec]
    dsimp only
    rw [← hr]
    exact ih _ hnested hm
  | walk w _ ih =>
    rw [exec, exec]
    exact (hnested rfl w e e' h).bind fun r m m' hm => ih r hnested hm

/-! ### Bringing a graph up -/

section Hook

variable (nested nested' : (c : Command) → Engine → Run c.Answer)

theorem exec_alike_hook {p p' : Program} (hp : Program.Twins v.graph v'.graph .hook p p')
    (h : Alike v v' .hook e e') :
    Run.Same (Alike v v' .hook) (exec nested p e) (exec nested' p' e') :=
  exec_alike nested nested' nofun hp h

/-- Uniform nodes are unloaded alike. -/
theorem unloadAll_alike {nodes : List LiveNode} (hnodes : ∀ n ∈ nodes, n.behaviour.Uniform)
    (h : Alike v v' .hook e e') :
    Run.Same (Alike v v' .hook) (unloadAll (exec nested) v.graph nodes e)
      (unloadAll (exec nested') v'.graph nodes e') := by
  induction nodes generalizing e e' with
  | nil => exact .returned () h
  | cons n rest ih =>
    obtain ⟨hn, hrest⟩ := List.forall_mem_cons.mp hnodes
    have hp := hn.unload n.node (e.setting v.graph) (e'.setting v'.graph)
    exact (exec_alike_hook nested nested' hp (h.record nofun)).bind fun _ m m' hm => ih hrest hm

/-- **Uniform nodes are initialised alike.** -/
theorem initAll_alike {before nodes : List LiveNode} (hbefore : ∀ n ∈ before, n.behaviour.Uniform)
    (hnodes : ∀ n ∈ nodes, n.behaviour.Uniform) (h : Alike v v' .hook e e') :
    Run.Same (Alike v v' .hook) (initAll (exec nested) v.graph before nodes e)
      (initAll (exec nested') v'.graph before nodes e') := by
  induction nodes generalizing before e e' with
  | nil => exact .returned _ h
  | cons n rest ih =>
    obtain ⟨hn, hrest⟩ := List.forall_mem_cons.mp hnodes
    have hp := hn.init n.node (e.setting v.graph) (e'.setting v'.graph) h.catalog
    refine (exec_alike_hook nested nested' hp (h.record nofun)).bind ?_
    rintro (err | step) m m' hm
    · -- the node fails, and those before it are unloaded again
      exact (unloadAll_alike nested nested' hbefore (hm.log _)).map _
    · exact ih (List.forall_mem_append.mpr ⟨hbefore, by simpa using hn⟩) hrest (hm.record nofun)

end Hook

/-! ### Nodes that keep to their graph -/

section Returns

variable (nested : (c : Command) → Engine → Run c.Answer) {g g' : GraphId}

theorem reaches_of_hooks (h : e.hooks = some g) : e.reaches g = true := by
  rw [reaches, h]
  exact Bool.or_eq_true_iff.mpr (.inl (decide_eq_true rfl))

theorem Moves.reaches {m : Engine} (h : Moves e m) : m.reaches g = e.reaches g := by
  rw [Engine.reaches, Engine.reaches, h.frame.hooks, h.frame.live]

/-- A program that has a twin, and may reach its graph, neither breaks off nor waits for ever. -/
theorem exec_returns {p p' : Program} (hp : Program.Twins g g' .hook p p')
    (hreach : e.reaches g = true) : ∃ r m, exec nested p e = .returned r m ∧ Moves e m := by
  generalize hphase : Phase.hook = phase at hp
  -- a request is a move, after which the graph may be reached as before
  have hgoes : ∀ {e m : Engine} {k : Program}, Move e m → e.reaches g = true →
      (∀ {e : Engine}, e.reaches g = true → ∃ r m, exec nested k e = .returned r m ∧ Moves e m) →
      ∃ r m', exec nested k m = .returned r m' ∧ Moves e m' := by
    intro e m k hmove hreach hk
    obtain ⟨r, m', hr, hm'⟩ := hk ((Moves.reaches (.single hmove)).trans hreach)
    exact ⟨r, m', hr, .head hmove hm'⟩
  induction hp generalizing e with
  | finish vars next => exact ⟨_, e, rfl, .refl⟩
  | fail err => exact ⟨_, e, rfl, .refl⟩
  | log line _ ih => exact hgoes (m := e.log line) (.log e line) hreach (ih · hphase)
  | withdraw l _ ih =>
    rw [exec, act, if_pos hreach]
    exact hgoes (.withdraw e g l hreach) hreach (ih · hphase)
  | subscribe key l _ _ _ ih =>
    rw [exec, Engine.subscribe, if_pos hreach]
    exact hgoes (.subscribe e g key _ hreach) hreach (ih · hphase)
  | @schedule _ timing body _ _ _ _ _ _ _ herror hok =>
    rw [exec, Engine.schedule, if_pos hreach]
    cases hs : e.scheduler.schedule (some g) timing body with
    | error err => exact herror err hreach hphase
    | ok made =>
      exact hgoes (.schedule e g timing body made.1 made.2 hreach hs) hreach (hok _ 0 · hphase)
  | draw | submit | walk => cases hphase

/-- Uniform nodes can be unloaded. -/
theorem unloadAll_returns {nodes : List LiveNode} (hnodes : ∀ n ∈ nodes, n.behaviour.Uniform)
    (h : e.hooks = some g) :
    ∃ m, unloadAll (exec nested) g nodes e = .returned () m := by
  induction nodes generalizing e with
  | nil => exact ⟨e, rfl⟩
  | cons n rest ih =>
    obtain ⟨hn, hrest⟩ := List.forall_mem_cons.mp hnodes
    obtain ⟨r, m, hr, hm⟩ := exec_returns nested (e := e.record (.unloaded g n.id))
      (hn.unload n.node (e.setting g) (e.setting g)) (reaches_of_hooks h)
    rw [unloadAll, hr]
    exact ih hrest (hm.frame.hooks.trans h)

/-- Uniform nodes can be initialised, or one of them fails. -/
theorem initAll_returns {before nodes : List LiveNode} (hbefore : ∀ n ∈ before, n.behaviour.Uniform)
    (hnodes : ∀ n ∈ nodes, n.behaviour.Uniform) (h : e.hooks = some g) :
    ∃ r m, initAll (exec nested) g before nodes e = .returned r m := by
  induction nodes generalizing before e with
  | nil => exact ⟨_, e, rfl⟩
  | cons n rest ih =>
    obtain ⟨hn, hrest⟩ := List.forall_mem_cons.mp hnodes
    obtain ⟨r, m, hr, hm⟩ := exec_returns nested (e := e.record (.initialising g n.id))
      (hn.init n.node (e.setting g) (e.setting g) rfl) (reaches_of_hooks h)
    have hhooks : m.hooks = some g := hm.frame.hooks.trans h
    rw [initAll, hr]
    cases r with
    -- a node that fails to start has those before it unloaded
    | error err =>
      obtain ⟨m', hm'⟩ := unloadAll_returns nested (e := m.log (initLog n err)) hbefore hhooks
      exact ⟨_, m', congrArg (Run.map fun _ => Except.error err) hm'⟩
    | ok step => exact ih (List.forall_mem_append.mpr ⟨hbefore, by simpa using hn⟩) hrest hhooks

/-- Nodes that have nothing to do when they are initialised do not fail. -/
theorem initAll_of_done {nodes : List LiveNode} (before : List LiveNode)
    (h : ∀ n ∈ nodes, ∀ setting, n.behaviour.init n.node setting = .done) (e : Engine) :
    ∃ m, initAll (exec nested) g before nodes e = .returned (.ok ()) m := by
  induction nodes generalizing before e with
  | nil => exact ⟨e, rfl⟩
  | cons n rest ih =>
    obtain ⟨hn, hrest⟩ := List.forall_mem_cons.mp h
    rw [initAll, hn]
    exact ih (before ++ [n]) hrest _

end Returns

/-! ### Walks and events -/

/-- What walks come to next that go through graphs that are alike. -/
inductive Arrival.Twins (g g' : GraphId) : Arrival → Arrival → Prop
  | ended : Twins g g' .over .over
  | stray (id : String) : Twins g g' (.stray id) (.stray id)
  | stopped (limit : Nat) (id : String) : Twins g g' (.stopped limit id) (.stopped limit id)
  | entered (n : LiveNode) (w : Walk) (hn : n.behaviour.Uniform) :
      Twins g g' (.entered n (w.through g)) (.entered n (w.through g'))

theorem Alike.arrival (h : Alike v v' phase e e') (w : Walk) :
    Arrival.Twins v.graph v'.graph (e.arrival (w.through v.graph))
      (e'.arrival (w.through v'.graph)) := by
  have hnode : ∀ id, (e'.graph v'.graph).node? id = (e.graph v.graph).node? id := fun id => by
    rw [Graph.node?, Graph.node?, h.graph.nodes]
  have hlimit : e'.exceeded? (w.hops + 1) = e.exceeded? (w.hops + 1) := by
    rw [exceeded?, exceeded?, h.config]
  -- the node, the limit and the hops decide what comes next, and they agree
  cases hpending : w.pending with
  | none =>
    simp only [Engine.arrival, Walk.through, hpending]
    exact .ended
  | some id =>
    simp only [Engine.arrival, Walk.through, hpending, hnode, hlimit]
    cases hn : (e.graph v.graph).node? id with
    | none => exact .stray id
    | some n =>
      cases e.exceeded? (w.hops + 1) with
      | some limit => exact .stopped limit id
      | none =>
        have hmem := List.mem_of_find?_eq_some hn
        exact .entered n { w with hops := w.hops + 1, pending := none } (h.graph.uniform n hmem)

/-- **Walks through graphs that are alike go alike.** -/
theorem walk_alike (fuel : Nat) (w : Walk) (h : Alike v v' .live e e') :
    Run.Same (Alike v v' .live) (call fuel (.walk (w.through v.graph)) e)
      (call fuel (.walk (w.through v'.graph)) e') := by
  -- a step of a walk takes fuel, and so does a walk that a program starts
  induction fuel generalizing w e e' with
  | zero => exact .diverged
  | succ fuel ih =>
    rw [call, call]
    generalize harrival : e.arrival (w.through v.graph) = a
    generalize harrival' : e'.arrival (w.through v'.graph) = a'
    have ha := h.arrival w
    rw [harrival, harrival'] at ha
    cases ha with
    | ended => exact .returned _ h
    | stray id => exact .returned _ (h.log _)
    | stopped limit id => exact .returned _ (h.log _)
    | entered n w hn =>
      have hnow : e'.now = e.now := h.now.symm
      have hrecord := h.record fun _ => .entered e.now n.id w
      have hrun := exec_alike (call fuel) (call fuel) (fun _ w m m' hm => ih w hm)
        (hn.execute n.node w v.graph v'.graph) hrecord
      dsimp only [enter]
      rw [hnow]
      generalize exec (call fuel) (n.behaviour.execute n.node (w.through v.graph))
        (e.record (.entered e.now n.id (w.through v.graph))) = r at hrun ⊢
      generalize exec (call fuel) (n.behaviour.execute n.node (w.through v'.graph))
        (e'.record (.entered e.now n.id (w.through v'.graph))) = r' at hrun ⊢
      cases hrun with
      | diverged => exact .diverged
      | returned answer hm =>
        cases answer with
        | error err => exact .returned _ hm
        | ok step => exact ih { w with vars := step.vars, pending := step.next } hm

/-- **Listeners that are twins are called alike.** -/
theorem deliver_alike (fuel : Nat) (event : Event) (before : Bool)
    {ls ls' : List (Listener Reaction)}
    (hls : List.Forall₂ (Listener.Twins v.graph v'.graph) ls ls')
    (h : Alike v v' .live e e') :
    Run.Same (Alike v v' .live) (deliver (exec (call fuel)) event before ls e)
      (deliver (exec (call fuel)) event before ls' e') := by
  induction hls generalizing e e' with
  | nil => exact .returned 0 h
  | @cons l l' ls ls' hl _ ih =>
    have hentry : Entry.Twins v.graph v'.graph (.heard l.id event.key before)
        (.heard l'.id event.key before) := by
      rw [hl.id]
      exact .same _
    have hrun := exec_alike (call fuel) (call fuel) (fun _ w m m' hm => walk_alike fuel w hm)
      (hl.reaction event before) (h.record fun _ => hentry)
    rw [deliver, deliver]
    generalize exec (call fuel) (l.reaction event before)
      (e.record (.heard l.id event.key before)) = r at hrun ⊢
    generalize exec (call fuel) (l'.reaction event before)
      (e'.record (.heard l'.id event.key before)) = r' at hrun ⊢
    cases hrun with
    | diverged => exact .diverged
    | returned answer hm =>
      -- a listener that fails is logged, and the next one has its turn all the same
      cases answer with
      | error err => exact (ih (hm.log _)).map _
      | ok step => exact ih hm

/-- **An event has the same effect in graphs that are alike.** -/
theorem fire_alike (fuel : Nat) (event : Event) (before : Bool) (h : Alike v v' .live e e') :
    Run.Same (Alike v v' .live) (call fuel (.fire event before) e)
      (call fuel (.fire event before) e') := by
  cases fuel with
  | zero => exact .diverged
  | succ fuel =>
    have hs := h.shared rfl
    rw [call, call, fire, fire, hs.hooks, hs.hooks', liveGraph, liveGraph, hs.live, hs.live']
    exact deliver_alike fuel event before (h.graph.listeners event.key) h

end Engine

end Flowgraph
