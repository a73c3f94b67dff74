import Flowgraph.Engine.Run
import Flowgraph.Proofs.Run.Stages
import Mathlib.Logic.Relation

/-!
# What running programs do to an engine

A run returns, breaks off, or does not end, and `Run.Ends` says what holds in the first two cases.
`Move` is one change that a program brings about by itself: it is answered an action, a task, a
listener or a job, or an entry is added to the journal around it. Everything else that happens to an
engine replaces graphs or moves the clock, and no program does that but through a command.

A move that records no stage of a node is quiet. Those of programs are: the stages are recorded
around the programs of nodes, never by them.

* `exec_ends`, `call_ends` — the rules for programs and commands: what every quiet move keeps, and
  what loading and clearing keep, holds wherever a run ends.
* `exec_quiet` — while the nodes of a graph are initialised or unloaded, programs make quiet moves
  and nothing else: every command that would replace the live graph has to wait for ever.
* `Tended` — the programs of nodes that are unloaded and initialised, run one after another, with
  the stage or the stages that each of them brings.
* `unloadAll_tended`, `initAll_tended` — so the stages of the nodes are all that is recorded of
  them, and each stands where a program is run.
* `Moves.frame` — what moves leave alone, above all the graph that is out of reach.
-/

namespace Flowgraph

/-- The task whose run started, if that is what happened. -/
def Entry.task? : Entry → Option TaskId
  | .started _ task => some task
  | _ => none

/-- Whether a run of a task or of a job starts. -/
def Entry.starts : Entry → Bool
  | .started _ _ => true
  | .worked _ => true
  | _ => false

/-- Only the start of a run tells of a task. -/
theorem Entry.task?_of_not_starts {entry : Entry} (h : entry.starts = false) :
    entry.task? = none := by
  cases entry with
  | started time task => cases h
  | _ => rfl

namespace Run

variable {α β : Type}

/-- Where a run may end: at `Q` with its answer, at `P` if it breaks off. Nothing is said about a
run that does not end. -/
def Ends (Q : α → Engine → Prop) (P : Engine → Prop) : Run α → Prop
  | .returned a e => Q a e
  | .panicked e => P e
  | .diverged => True

/-- Where the first part may end the second goes on, and it breaks off where either does. -/
theorem Ends.bind {Q : α → Engine → Prop} {Q' : β → Engine → Prop} {P : Engine → Prop} {r : Run α}
    {k : α → Engine → Run β} (hr : r.Ends Q P) (hk : ∀ a e, Q a e → (k a e).Ends Q' P) :
    (r.bind k).Ends Q' P := by
  cases r with
  | returned a e => exact hk a e hr
  | panicked e => exact hr
  | diverged => trivial

/-- A changed answer. -/
theorem Ends.map {Q : α → Engine → Prop} {Q' : β → Engine → Prop} {P : Engine → Prop} {r : Run α}
    {f : α → β} (hr : r.Ends Q P) (hf : ∀ a e, Q a e → Q' (f a) e) : (r.map f).Ends Q' P :=
  hr.bind hf

/-- What mends a broken run decides where it breaks off. -/
theorem Ends.onPanic {Q : α → Engine → Prop} {P P' : Engine → Prop} {r : Run α}
    {f : Engine → Engine} (hr : r.Ends Q P) (hf : ∀ e, P e → P' (f e)) :
    (r.onPanic f).Ends Q P' := by
  cases r with
  | returned a e => exact hr
  | panicked e => exact hf e hr
  | diverged => trivial

/-- What is said of the end may be weakened. -/
theorem Ends.mono {Q Q' : α → Engine → Prop} {P P' : Engine → Prop} {r : Run α} (hr : r.Ends Q P)
    (hQ : ∀ a e, Q a e → Q' a e) (hP : ∀ e, P e → P' e) : r.Ends Q' P' := by
  cases r with
  | returned a e => exact hQ a e hr
  | panicked e => exact hP e hr
  | diverged => trivial

/-- Two runs that go on in the same way wherever the first part may end are the same. -/
theorem Ends.bind_congr {Q : α → Engine → Prop} {P : Engine → Prop} {r : Run α}
    {k k' : α → Engine → Run β} (hr : r.Ends Q P) (hk : ∀ a e, Q a e → k a e = k' a e) :
    r.bind k = r.bind k' := by
  cases r with
  | returned a e => exact hk a e hr
  | panicked e => rfl
  | diverged => rfl

/-- A run that returns has returned from its first part. -/
theorem exists_of_bind {r : Run α} {k : α → Engine → Run β} {b : β} {e' : Engine}
    (h : r.bind k = .returned b e') : ∃ a m, r = .returned a m ∧ k a m = .returned b e' := by
  cases r with
  | returned a m => exact ⟨a, m, rfl, h⟩
  | panicked m => cases h
  | diverged => cases h

/-- Where a run left the engine, if it came to an end. -/
inductive Leaves : Run α → Engine → Prop
  | returned (a : α) (e : Engine) : Leaves (.returned a e) e
  | panicked (e : Engine) : Leaves (.panicked e) e

/-- A run that returns leaves the engine where it returns. -/
theorem Leaves.of_returned {r : Run α} {a : α} {e : Engine} (h : r = .returned a e) :
    r.Leaves e := by
  rw [h]
  exact .returned a e

/-- What holds at every end holds where the run left the engine. -/
theorem Ends.leaves {P : Engine → Prop} {r : Run α} {e : Engine} (hr : r.Ends (fun _ => P) P)
    (h : r.Leaves e) : P e := by
  cases h with
  | returned a e => exact hr
  | panicked e => exact hr

/-- What is said of a run that returns holds of its answer. -/
theorem Ends.returned {Q : α → Engine → Prop} {P : Engine → Prop} {r : Run α} {a : α} {e : Engine}
    (hr : r.Ends Q P) (h : r = .returned a e) : Q a e := by
  subst h; exact hr

/-- Where a run returns, it is the run that returned there. -/
theorem Ends.attend {Q : α → Engine → Prop} {P : Engine → Prop} {r : Run α} (hr : r.Ends Q P) :
    r.Ends (fun a e => r = .returned a e ∧ Q a e) P := by
  cases r with
  | returned a e => exact ⟨rfl, hr⟩
  | panicked e => exact hr
  | diverged => trivial

end Run

/-- What a graph keeps while programs run. A dropped graph keeps its tasks as well, and it gains no
listener. -/
structure Graph.Follows (graph graph' : Graph) : Prop where
  nodes : graph'.nodes = graph.nodes
  generation : graph'.generation = graph.generation
  context : graph'.context = graph.context
  dropped : graph'.dropped = graph.dropped
  tasks : graph.dropped = true → graph'.tasks = graph.tasks
  listeners : graph.dropped = true →
    ∀ key, graph.bus.listeners key = [] → graph'.bus.listeners key = []

theorem Graph.Follows.refl (graph : Graph) : graph.Follows graph :=
  ⟨rfl, rfl, rfl, rfl, fun _ => rfl, fun _ _ h => h⟩

/-- What a graph keeps twice it keeps. -/
theorem Graph.Follows.trans {graph graph' graph'' : Graph} (h : graph.Follows graph')
    (h' : graph'.Follows graph'') : graph.Follows graph'' where
  nodes := h'.nodes.trans h.nodes
  generation := h'.generation.trans h.generation
  context := h'.context.trans h.context
  dropped := h'.dropped.trans h.dropped
  tasks hd := (h'.tasks (h.dropped.trans hd)).trans (h.tasks hd)
  listeners hd key hk := h'.listeners (h.dropped.trans hd) key (h.listeners hd key hk)

namespace Engine

/-- One change that a program brings about by itself. -/
inductive Move : Engine → Engine → Prop
  /-- No entry is the start of a run of a task or a job, since no program starts one. -/
  | record (e : Engine) (entry : Entry) (h : entry.starts = false) : Move e (e.record entry)
  | draw (e : Engine) : Move e { e with drawn := e.drawn + 1 }
  | cancel (e : Engine) (task : TaskId) : Move e { e with scheduler := e.scheduler.cancel task }
  | remove (e : Engine) (g : GraphId) (key : EventKey) (l : ListenerId) (h : e.reaches g = true) :
      Move e (e.modifyGraph g ({ · with bus := ((e.graph g).bus.remove key l).2 }))
  | withdraw (e : Engine) (g : GraphId) (l : ListenerId) (h : e.reaches g = true) :
      Move e (e.modifyGraph g fun graph => { graph with bus := graph.bus.withdraw l })
  | subscribe (e : Engine) (g : GraphId) (key : EventKey) (l : Listener Reaction)
      (h : e.reaches g = true) :
      Move e (e.modifyGraph g fun graph =>
        if graph.dropped then graph else { graph with bus := graph.bus.on key l })
  | schedule (e : Engine) (g : GraphId) (timing : Timing) (body : Nat → Program) (task : TaskId)
      (s : Scheduler (Nat → Program)) (h : e.reaches g = true)
      (hs : e.scheduler.schedule (some g) timing body = .ok (task, s)) :
      Move e ({ e with scheduler := s }.track g task)
  | submit (e : Engine) (job : Program) (pool : Pool Program)
      (h : e.pool.submit job = .ok pool) : Move e { e with pool := pool }

/-- Any number of moves. -/
abbrev Moves : Engine → Engine → Prop := Relation.ReflTransGen Move

theorem Move.log (e : Engine) (line : LogLine) : Move e (e.log line) := .record e _ rfl

/-- Lines are logged by moves. -/
theorem moves_logAll (e : Engine) (lines : List LogLine) : Moves e (e.logAll lines) := by
  induction lines generalizing e with
  | nil => exact .refl
  | cons line rest ih => exact .head (.log e line) (ih (e.log line))

/-! ### Quiet moves -/

/-- A move that records no stage of a node. -/
structure Quiet (e e' : Engine) : Prop where
  move : Move e e'
  stages : e'.stages = e.stages

/-- Any number of quiet moves. -/
abbrev QuietMoves : Engine → Engine → Prop := Relation.ReflTransGen Quiet

/-- An entry that tells neither of a start nor of a stage. -/
theorem Quiet.record (e : Engine) (entry : Entry) (ht : entry.starts = false)
    (hs : entry.stage? = none) : Quiet e (e.record entry) := by
  refine ⟨.record e entry ht, ?_⟩
  rw [stages_record, hs]
  exact List.append_nil _

theorem Quiet.log (e : Engine) (line : LogLine) : Quiet e (e.log line) := .record e _ rfl rfl

/-- The report on a task that is refused is the only entry that a new task may bring. -/
theorem stages_track (e : Engine) (g : GraphId) (task : TaskId) :
    (e.track g task).stages = e.stages := by
  rw [track]
  dsimp only
  split
  · exact stages_log _ _
  · exact stages_logAll _ _

/-- Quiet moves are moves. -/
theorem QuietMoves.moves {e e' : Engine} (h : QuietMoves e e') : Moves e e' := by
  induction h with
  | refl => exact .refl
  | tail _ hm ih => exact ih.tail hm.move

/-- Quiet moves bring no stage. -/
theorem QuietMoves.stages {e e' : Engine} (h : QuietMoves e e') : e'.stages = e.stages := by
  induction h with
  | refl => rfl
  | tail _ hm ih => exact hm.stages.trans ih

/-! ### Programs -/

/-- An action makes one quiet move at most, or waits for ever. -/
theorem act_ends (e : Engine) (a : Action) :
    (e.act a).Ends (fun _ => QuietMoves e) fun _ => False := by
  cases a with
  | note text => exact .single (.record e _ rfl rfl)
  | log line => exact .single (.log e line)
  | send text => exact .single (.record e _ rfl rfl)
  | draw low high => exact .single ⟨.draw e, rfl⟩
  | cancel task => exact .single ⟨.cancel e task, rfl⟩
  | inspect task => exact .refl
  | remove g key l =>
    rw [act]
    -- a graph that is out of reach is waited for, and nothing moves
    split
    · next h => exact .single ⟨.remove e g key l h, rfl⟩
    · trivial
  | withdraw g l =>
    rw [act]
    split
    · next h => exact .single ⟨.withdraw e g l h, rfl⟩
    · trivial
  | live =>
    rw [act]
    split
    · exact .refl
    · trivial

/-- A request for a task is answered by quiet moves. -/
theorem schedule_ends (e : Engine) (g : GraphId) (timing : Timing) (body : Nat → Program) :
    (e.schedule g timing body).Ends (fun _ => QuietMoves e) fun _ => False := by
  unfold schedule
  split
  · next h =>
    split
    · exact .refl
    · next task s hs =>
      exact .single ⟨.schedule e g timing body task s h hs,
        stages_track { e with scheduler := s } g task⟩
  · trivial

/-- A request for a listener is answered by quiet moves. -/
theorem subscribe_ends (e : Engine) (g : GraphId) (key : EventKey) (l : Listener Reaction) :
    (e.subscribe g key l).Ends (fun _ => QuietMoves e) fun _ => False := by
  unfold subscribe
  split
  · next h => exact .single ⟨.subscribe e g key l h, rfl⟩
  · trivial

/-- A request for a job is answered by quiet moves. -/
theorem submit_moves (e : Engine) (job : Program) : QuietMoves e (e.submit job).2 := by
  unfold submit
  split
  · next pool h => exact .single ⟨.submit e job pool h, rfl⟩
  · exact .single (.log e _)
  · exact .refl

section Rules

variable {P : Engine → Prop} (hmove : ∀ {e e' : Engine}, Quiet e e' → P e → P e')
include hmove

/-- What a quiet move keeps any number of them keep. -/
theorem keep_moves {e e' : Engine} (h : QuietMoves e e') (he : P e) : P e' := by
  induction h with
  | refl => exact he
  | tail _ hm ih => exact hmove hm ih

/-- A request that is answered by quiet moves keeps what they keep. -/
theorem ends_of_moves {α : Type} {r : Run α} {e : Engine}
    (h : r.Ends (fun _ => QuietMoves e) fun _ => False) (he : P e) : r.Ends (fun _ => P) P :=
  h.mono (fun _ _ hm => keep_moves hmove hm he) fun _ hf => hf.elim

/-- What every quiet move and every nested command keeps, a program keeps. -/
theorem exec_ends {nested : (c : Command) → Engine → Run c.Answer}
    (hnested : ∀ c e, P e → (nested c e).Ends (fun _ => P) P) (p : Program) (e : Engine)
    (he : P e) : (exec nested p e).Ends (fun _ => P) P := by
  -- the engine differs from one continuation to the next, so it is not fixed
  induction p generalizing e with
  | finish vars next => exact he
  | fail err => exact he
  | panic => exact he
  | act a k ih => exact (ends_of_moves hmove (act_ends e a) he).bind ih
  | schedule g timing body k _ ih =>
    exact (ends_of_moves hmove (schedule_ends e g timing body) he).bind ih
  | subscribe g key listener reaction k _ ih =>
    exact (ends_of_moves hmove (subscribe_ends e g key ⟨listener, reaction⟩) he).bind ih
  | submit job k _ ih => exact ih _ _ (keep_moves hmove (submit_moves e job) he)
  | call c k ih => exact (hnested c e he).bind ih

/-! ### Deliveries and walks -/

variable {run : Interpreter} (hrun : ∀ p e, P e → (run p e).Ends (fun _ => P) P)
include hrun

/-- A listener that fails or breaks off does not end a delivery, so only the moves count. -/
theorem deliver_ends (event : Event) (before : Bool) (ls : List (Listener Reaction)) (e : Engine)
    (he : P e) : (deliver run event before ls e).Ends (fun _ => P) P := by
  induction ls generalizing e with
  | nil => exact he
  | cons l rest ih =>
    have h := hrun (l.reaction event before) _
      (hmove (.record e (.heard l.id event.key before) rfl rfl) he)
    rw [deliver]
    split
    · next heq => rw [heq] at h; exact ih _ h
    -- a failure and a panic are reported alike, and the rest of the listeners is called
    · next err e' heq =>
      rw [heq] at h
      exact (ih _ (hmove (.log e' (listenerLog event.key err)) h)).map fun _ _ h => h
    · next e' heq =>
      rw [heq] at h
      exact (ih _ (hmove (.log e' (listenerPanicLog event.key)) h)).map fun _ _ h => h
    · trivial

/-- An event keeps what its listeners keep. -/
theorem fire_ends (event : Event) (before : Bool) (e : Engine) (he : P e) :
    (fire run event before e).Ends (fun _ => P) P := by
  unfold fire
  split
  · trivial
  · exact deliver_ends hmove hrun event before _ e he

/-- A walk keeps what the program of its node and the rest of its way keep. -/
theorem enter_ends (n : LiveNode) (w : Walk) (e : Engine) (he : P e) :
    (enter run n w e).Ends (fun _ => P) P :=
  (hrun _ _ (hmove (.record e (.entered e.now n.id w) rfl rfl) he)).map fun _ _ h => h

end Rules

/-- What every quiet move keeps, and loading and clearing keep, every command keeps. -/
theorem call_ends {P : Engine → Prop} (hmove : ∀ {e e' : Engine}, Quiet e e' → P e → P e')
    (hload : ∀ fuel c e, P e → (load (exec (call fuel)) c e).Ends (fun _ => P) P)
    (hclear : ∀ fuel e, P e → (clear (exec (call fuel)) e).Ends (fun _ => P) P)
    (fuel : Nat) (c : Command) (e : Engine) (he : P e) : (call fuel c e).Ends (fun _ => P) P := by
  -- nested commands and the steps of a walk have less fuel
  induction fuel generalizing c e with
  | zero => cases c <;> trivial
  | succ fuel ih =>
    have hrun : ∀ p e, P e → (exec (call fuel) p e).Ends (fun _ => P) P := exec_ends hmove ih
    cases c with
    | walk w =>
      rw [call]
      split
      · exact he
      · exact hmove (.log e _) he
      · exact hmove (.log e _) he
      · next n w' _ =>
        have h := enter_ends hmove hrun n w' e he
        split
        · next w' e' heq => rw [heq] at h; exact ih (.walk w') e' h
        · next heq => rw [heq] at h; exact h
        · next heq => rw [heq] at h; exact h
        · trivial
    | fire event before => exact fire_ends hmove hrun event before e he
    | load c => exact hload fuel c e he
    | restore =>
      show (restore (exec (call fuel)) e).Ends (fun _ => P) P
      unfold restore
      split
      · exact he
      · exact hload fuel _ e he
    | clear => exact hclear fuel e he

/-! ### What moves leave alone -/

/-- The graphs after one was changed. -/
theorem graph_modifyGraph (e : Engine) (g g' : GraphId) (f : Graph → Graph) :
    (e.modifyGraph g f).graph g' =
      if g = g' ∧ g < e.graphs.length then f (e.graph g') else e.graph g' := by
  by_cases hg : g = g'
  · subst hg
    by_cases hlt : g < e.graphs.length
    · rw [if_pos ⟨rfl, hlt⟩, graph_modifyGraph_self f hlt]
    · -- a graph that is not there is not changed
      rw [if_neg fun h => hlt h.2]
      simp [modifyGraph, graph, hlt]
  · rw [if_neg fun h => hg h.1, graph_modifyGraph_of_ne f hg]

/-- What an engine keeps while programs run. Of a graph that is out of reach nothing changes. -/
structure Frame (e e' : Engine) : Prop where
  hooks : e'.hooks = e.hooks
  live : e'.live = e.live
  store : e'.store = e.store
  registry : e'.registry = e.registry
  length : e'.graphs.length = e.graphs.length
  graph : ∀ g, (e.graph g).Follows (e'.graph g)
  unreached : ∀ g, e.reaches g = false → e'.graph g = e.graph g

theorem Frame.refl (e : Engine) : Frame e e :=
  ⟨rfl, rfl, rfl, rfl, rfl, fun _ => .refl _, fun _ _ => rfl⟩

/-- What is left alone twice is left alone. -/
theorem Frame.trans {e e' e'' : Engine} (h : Frame e e') (h' : Frame e' e'') : Frame e e'' where
  hooks := h'.hooks.trans h.hooks
  live := h'.live.trans h.live
  store := h'.store.trans h.store
  registry := h'.registry.trans h.registry
  length := h'.length.trans h.length
  graph g := (h.graph g).trans (h'.graph g)
  unreached g hg := by
    -- what is out of reach depends on what is kept
    have hg' : e'.reaches g = false := by rw [reaches, h.hooks, h.live]; exact hg
    rw [h'.unreached g hg', h.unreached g hg]

/-- A change of one graph within reach. -/
theorem Frame.modifyGraph {e : Engine} {g : GraphId} {f : Graph → Graph} (hg : e.reaches g = true)
    (hf : (e.graph g).Follows (f (e.graph g))) : Frame e (e.modifyGraph g f) where
  hooks := rfl
  live := rfl
  store := rfl
  registry := rfl
  length := List.length_modify ..
  graph g' := by
    rw [graph_modifyGraph]
    split
    · next h => rw [← h.1]; exact hf
    · exact .refl _
  unreached g' hg' := by
    rw [graph_modifyGraph]
    split
    · next h => rw [← h.1, hg] at hg'; cases hg'
    · rfl

/-- A change that leaves the graphs alone. -/
theorem Frame.of_graphs {e e' : Engine} (hooks : e'.hooks = e.hooks) (live : e'.live = e.live)
    (store : e'.store = e.store) (registry : e'.registry = e.registry)
    (graphs : e'.graphs = e.graphs) : Frame e e' := by
  have hgraph : ∀ g, e'.graph g = e.graph g := fun g => by rw [Engine.graph, graphs]; rfl
  exact ⟨hooks, live, store, registry, by rw [graphs], fun g => hgraph g ▸ .refl _,
    fun g _ => hgraph g⟩

/-- Logging leaves everything else alone. -/
theorem Frame.logAll (e : Engine) (lines : List LogLine) : Frame e (e.logAll lines) := by
  rw [logAll_eq]
  exact .of_graphs rfl rfl rfl rfl rfl

/-- A task made for a dropped graph is cancelled. -/
theorem track_of_dropped {e : Engine} {g : GraphId} (task : TaskId)
    (h : (e.graph g).dropped = true) :
    e.track g task = { e with scheduler := e.scheduler.cancel task }.log (orphanLog task) :=
  if_pos h

/-- A task made for a closed registry is cancelled. -/
theorem track_of_closed {e : Engine} {g : GraphId} (task : TaskId)
    (hd : ¬ (e.graph g).dropped = true) (hc : (e.graph g).tasks.closed = true) :
    e.track g task =
      ({ e with scheduler := e.scheduler.cancel task }.modifyGraph g
        ({ · with tasks := (e.graph g).tasks })).log (TaskRegistry.refusal task) := by
  simp only [track, if_neg hd, TaskRegistry.track, if_pos hc]
  rfl

/-- A task made for an open registry is put at its end, and those that have ended are taken out. -/
theorem track_of_open {e : Engine} {g : GraphId} (task : TaskId)
    (hd : ¬ (e.graph g).dropped = true) (hc : ¬ (e.graph g).tasks.closed = true) :
    e.track g task =
      e.modifyGraph g ({ · with tasks := { (e.graph g).tasks with
        tracked := (e.graph g).tasks.tracked.filter (!e.scheduler.isEnded ·) ++ [task] } }) := by
  simp only [track, if_neg hd, TaskRegistry.track, if_neg hc]
  rfl

/-- A task that was made is taken in by its graph, or else it is cancelled and that is logged.
Nothing else is changed. -/
theorem track_eq (e : Engine) (g : GraphId) (task : TaskId) :
    ∃ (s : Scheduler (Nat → Program)) (f : Graph → Graph) (entries : List Entry),
      (s = e.scheduler.cancel task ∨ s = e.scheduler) ∧ (∀ graph, (f graph).bus = graph.bus) ∧
        e.track g task = { e with
          scheduler := s
          graphs := e.graphs.modify g f
          journal := entries ++ e.journal } := by
  -- a graph that is dropped, one whose registry is closed, and one that is open
  by_cases hd : (e.graph g).dropped = true
  · refine ⟨_, id, [.logged (orphanLog task)], .inl rfl, fun _ => rfl, ?_⟩
    rw [track_of_dropped task hd, List.modify_id]
    rfl
  by_cases hc : (e.graph g).tasks.closed = true
  · refine ⟨_, _, [_], .inl rfl, ?_, track_of_closed task hd hc⟩
    exact fun _ => rfl
  · refine ⟨_, _, [], .inr rfl, ?_, track_of_open task hd hc⟩
    exact fun _ => rfl

/-- Only a graph that can be asked for tracks a task. -/
theorem Frame.track {e : Engine} {g : GraphId} (task : TaskId) (hg : e.reaches g = true) :
    Frame e (e.track g task) := by
  by_cases hd : (e.graph g).dropped = true
  · rw [track_of_dropped task hd]
    exact .of_graphs rfl rfl rfl rfl rfl
  -- a graph that was not dropped may gain tasks
  have hkept : ∀ tasks, (e.graph g).Follows { e.graph g with tasks := tasks } := fun tasks =>
    ⟨rfl, rfl, rfl, rfl, fun h => absurd h hd, fun _ _ h => h⟩
  by_cases hc : (e.graph g).tasks.closed = true
  · rw [track_of_closed task hd hc]
    have h₁ : Frame e { e with scheduler := e.scheduler.cancel task } :=
      .of_graphs rfl rfl rfl rfl rfl
    have h₂ := h₁.trans (.modifyGraph (f := ({ · with tasks := (e.graph g).tasks })) hg (hkept _))
    exact h₂.trans (.of_graphs rfl rfl rfl rfl rfl)
  · rw [track_of_open task hd hc]
    exact .modifyGraph hg (hkept _)

/-- What a move leaves alone. -/
theorem Move.frame {e e' : Engine} (h : Move e e') : Frame e e' := by
  cases h with
  | record entry _ => exact .of_graphs rfl rfl rfl rfl rfl
  | draw => exact .of_graphs rfl rfl rfl rfl rfl
  | cancel task => exact .of_graphs rfl rfl rfl rfl rfl
  | remove g key l hg =>
    refine .modifyGraph hg ⟨rfl, rfl, rfl, rfl, fun _ => rfl, fun _ k hk => ?_⟩
    rw [Bus.listeners_remove, hk]
    exact ite_self _
  | withdraw g l hg =>
    refine .modifyGraph hg ⟨rfl, rfl, rfl, rfl, fun _ => rfl, fun _ k hk => ?_⟩
    rw [Bus.listeners_withdraw, hk]
    rfl
  | subscribe g key l hg =>
    refine .modifyGraph hg ?_
    -- a graph that was dropped takes no listener
    split
    · exact .refl _
    · next hd => exact ⟨rfl, rfl, rfl, rfl, fun _ => rfl, fun h => absurd h hd⟩
  | schedule g timing body task s hg hs =>
    have h₁ : Frame e { e with scheduler := s } := .of_graphs rfl rfl rfl rfl rfl
    exact h₁.trans (.track task hg)
  | submit job pool _ => exact .of_graphs rfl rfl rfl rfl rfl

/-- What moves leave alone. -/
theorem Moves.frame {e e' : Engine} (h : Moves e e') : Frame e e' := by
  induction h with
  | refl => exact .refl e
  | tail _ hm ih => exact ih.trans hm.frame

/-! ### While nodes are initialised or unloaded -/

/-- While nodes are initialised or unloaded, a load waits for ever. -/
theorem load_of_hooks (run : Interpreter) (c : Context) {e : Engine} (h : e.hooks.isSome = true) :
    load run c e = .diverged :=
  if_pos h

/-- While nodes are initialised or unloaded, a clearing waits for ever. -/
theorem clear_of_hooks (run : Interpreter) {e : Engine} (h : e.hooks.isSome = true) :
    clear run e = .diverged :=
  if_pos h

/-- **Programs of nodes that are initialised or unloaded make quiet moves and nothing else.** A
command that would replace the live graph waits for the lock of the replacement under way. -/
theorem exec_quiet (fuel : Nat) (p : Program) (e : Engine) (h : e.hooks.isSome = true) :
    (exec (call fuel) p e).Ends (fun _ => QuietMoves e) (QuietMoves e) := by
  -- moves never change which graph's nodes are running
  have hhooks : ∀ e', QuietMoves e e' → e'.hooks.isSome = true := fun e' hm =>
    hm.moves.frame.hooks ▸ h
  have hload : ∀ fuel c e', QuietMoves e e' →
      (load (exec (call fuel)) c e').Ends (fun _ => QuietMoves e) (QuietMoves e) := by
    intro fuel c e' hm
    rw [load_of_hooks _ c (hhooks e' hm)]
    trivial
  have hclear : ∀ fuel e', QuietMoves e e' →
      (clear (exec (call fuel)) e').Ends (fun _ => QuietMoves e) (QuietMoves e) := by
    intro fuel e' hm
    rw [clear_of_hooks _ (hhooks e' hm)]
    trivial
  have hmove : ∀ {e' e''}, Quiet e' e'' → QuietMoves e e' → QuietMoves e e'' :=
    fun hm hms => hms.tail hm
  exact exec_ends hmove (call_ends hmove hload hclear fuel) p e .refl

/-- A stage is recorded, and then a program of the node runs. -/
theorem exec_stage (fuel : Nat) (p : Program) (e : Engine) {entry : Entry} (stage : Stage)
    (h : e.hooks.isSome = true) (ht : entry.starts = false) (hs : entry.stage? = some stage) :
    (exec (call fuel) p (e.record entry)).Ends
      (fun _ e' => Moves e e' ∧ e'.stages = e.stages ++ [stage]) (Moves e) := by
  have hrec : Moves e (e.record entry) := .single (.record e entry ht)
  refine (exec_quiet fuel p (e.record entry) h).mono ?_ fun e' hq => hrec.trans hq.moves
  intro _ e' hq
  -- the program itself brings no stage
  have hstages : e'.stages = e.stages ++ [stage] := by
    rw [hq.stages, stages_record, hs]
    rfl
  exact ⟨hrec.trans hq.moves, hstages⟩

/-- **Each stage stands where a program of its node is run**, and each of these programs runs at its
stages. That a node is unloaded, or begins to be initialised, is recorded right before the program
that does it runs, and that it has been initialised right behind the program, if that succeeds. -/
inductive Tended (g : GraphId) (nodes : List LiveNode) : Engine → List Stage → Engine → Prop
  | nil (e : Engine) : Tended g nodes e [] e
  | unloaded {e m e' : Engine} {n : LiveNode} {fuel : Nat} {r : Except WorkflowError Step}
      {stages : List Stage} (hn : n ∈ nodes)
      (h : exec (call fuel) (n.behaviour.unload n.node (e.setting g))
        (e.record (.unloaded g n.id)) = .returned r m)
      (hrest : Tended g nodes m stages e') :
      Tended g nodes e (.unloaded ⟨g, n.id⟩ :: stages) e'
  | initialised {e m e' : Engine} {n : LiveNode} {fuel : Nat} {step : Step} {stages : List Stage}
      (hn : n ∈ nodes)
      (h : exec (call fuel) (n.behaviour.init n.node (e.setting g))
        (e.record (.initialising g n.id)) = .returned (.ok step) m)
      (hrest : Tended g nodes (m.record (.initialised g n.id)) stages e') :
      Tended g nodes e (.initialising ⟨g, n.id⟩ :: .initialised ⟨g, n.id⟩ :: stages) e'
  | failed {e m e' : Engine} {n : LiveNode} {fuel : Nat} {err : WorkflowError} {stages : List Stage}
      (hn : n ∈ nodes)
      (h : exec (call fuel) (n.behaviour.init n.node (e.setting g))
        (e.record (.initialising g n.id)) = .returned (.error err) m)
      (hrest : Tended g nodes (m.log (initLog n err)) stages e') :
      Tended g nodes e (.initialising ⟨g, n.id⟩ :: stages) e'

/-- Programs of nodes that are unloaded or initialised make moves, and what is recorded of the nodes
meanwhile is their stages. -/
theorem Tended.moves_and_stages {g : GraphId} {nodes : List LiveNode} {e e' : Engine}
    {stages : List Stage} (ht : Tended g nodes e stages e') (h : e.hooks.isSome = true) :
    Moves e e' ∧ e'.stages = e.stages ++ stages := by
  induction ht with
  | nil e => exact ⟨.refl, (List.append_nil _).symm⟩
  | @unloaded e m e' n fuel r stages _ hrun _ ih =>
    obtain ⟨hm, hs⟩ := (exec_stage fuel _ e (.unloaded ⟨g, n.id⟩) h rfl rfl).returned hrun
    -- the hook stays the same, so the others run in it as well
    obtain ⟨hm', hs'⟩ := ih (hm.frame.hooks ▸ h)
    refine ⟨hm.trans hm', ?_⟩
    rw [hs', hs, List.append_assoc, List.singleton_append]
  | @initialised e m e' n fuel step stages _ hrun _ ih =>
    obtain ⟨hm, hs⟩ := (exec_stage fuel _ e (.initialising ⟨g, n.id⟩) h rfl rfl).returned hrun
    have hdone : Moves e (m.record (.initialised g n.id)) := hm.tail (.record m _ rfl)
    obtain ⟨hm', hs'⟩ := ih (hdone.frame.hooks ▸ h)
    refine ⟨hdone.trans hm', ?_⟩
    rw [hs', stages_record, hs, List.append_assoc, List.append_assoc]
    rfl
  | @failed e m e' n fuel err stages _ hrun _ ih =>
    obtain ⟨hm, hs⟩ := (exec_stage fuel _ e (.initialising ⟨g, n.id⟩) h rfl rfl).returned hrun
    -- the failure is logged, which brings no stage
    have hlog : Moves e (m.log (initLog n err)) := hm.tail (.log m _)
    obtain ⟨hm', hs'⟩ := ih (hlog.frame.hooks ▸ h)
    refine ⟨hlog.trans hm', ?_⟩
    rw [hs', stages_log, hs, List.append_assoc, List.singleton_append]

theorem Tended.moves {g : GraphId} {nodes : List LiveNode} {e e' : Engine} {stages : List Stage}
    (ht : Tended g nodes e stages e') (h : e.hooks.isSome = true) : Moves e e' :=
  (ht.moves_and_stages h).1

theorem Tended.stages_eq {g : GraphId} {nodes : List LiveNode} {e e' : Engine} {stages : List Stage}
    (ht : Tended g nodes e stages e') (h : e.hooks.isSome = true) :
    e'.stages = e.stages ++ stages :=
  (ht.moves_and_stages h).2

/-- Nodes are unloaded one after another, each of them once and in order. -/
theorem unloadAll_tended (fuel : Nat) (g : GraphId) {nodes all : List LiveNode} (e : Engine)
    (hall : nodes ⊆ all) (h : e.hooks.isSome = true) :
    (unloadAll (exec (call fuel)) g nodes e).Ends
      (fun _ => Tended g all e (unloads g (nodes.map (·.id)))) (Moves e) := by
  induction nodes generalizing e with
  | nil => exact .nil e
  | cons n rest ih =>
    obtain ⟨hn, hrest⟩ := List.cons_subset.mp hall
    refine (exec_stage fuel _ e (.unloaded ⟨g, n.id⟩) h rfl rfl).attend.bind ?_
    -- an unloading that fails is passed over
    rintro _ m ⟨hrun, hm, -⟩
    exact (ih m hrest (hm.frame.hooks ▸ h)).mono (fun _ _ ht => .unloaded hn hrun ht)
      fun _ hm' => hm.trans hm'

/-- The stages that an initialisation of nodes brings. If all are initialised, there are no others.
If one fails, it does not become initialised, and the nodes before it are unloaded: those that this
initialisation has reached and those that were initialised before. -/
inductive Attempted (g : GraphId) (before nodes : List LiveNode) :
    Except WorkflowError Unit → List Stage → Prop
  | succeeded : Attempted g before nodes (.ok ()) (inits g (nodes.map (·.id)))
  | failed (done : List LiveNode) {rest : List LiveNode} {n : LiveNode} (err : WorkflowError)
      (h : nodes = done ++ n :: rest) :
      Attempted g before nodes (.error err) (inits g (done.map (·.id)) ++
        .initialising ⟨g, n.id⟩ :: unloads g ((before ++ done).map (·.id)))

/-- An attempt goes on behind a node that was initialised. -/
theorem Attempted.cons {g : GraphId} {before rest : List LiveNode} {n : LiveNode}
    {r : Except WorkflowError Unit} {stages : List Stage}
    (h : Attempted g (before ++ [n]) rest r stages) :
    Attempted g before (n :: rest) r
      (.initialising ⟨g, n.id⟩ :: .initialised ⟨g, n.id⟩ :: stages) := by
  cases h with
  | succeeded => exact .succeeded
  | @failed done rest' n' err hrest =>
    -- the node stands before those that were reached behind it
    have hnodes : n :: rest = (n :: done) ++ n' :: rest' := by rw [hrest]; rfl
    have hbefore : before ++ [n] ++ done = before ++ n :: done := by simp
    rw [hbefore]
    exact .failed _ err hnodes

/-- Nodes are initialised one after another, and the stages are those of the attempt. -/
theorem initAll_tended (fuel : Nat) (g : GraphId) {before nodes all : List LiveNode} (e : Engine)
    (hbefore : before ⊆ all) (hall : nodes ⊆ all) (h : e.hooks.isSome = true) :
    (initAll (exec (call fuel)) g before nodes e).Ends
      (fun r e' => ∃ stages, Tended g all e stages e' ∧ Attempted g before nodes r stages)
      (Moves e) := by
  induction nodes generalizing before e with
  | nil => exact ⟨[], .nil e, .succeeded⟩
  | cons n rest ih =>
    obtain ⟨hn, hrest⟩ := List.cons_subset.mp hall
    refine (exec_stage fuel _ e (.initialising ⟨g, n.id⟩) h rfl rfl).attend.bind ?_
    rintro (err | step) m ⟨hrun, hm, -⟩
    · -- the nodes before the failing one are unloaded
      have hlog : Moves e (m.log (initLog n err)) := hm.tail (.log m _)
      have hun := unloadAll_tended fuel g (m.log (initLog n err)) hbefore (hlog.frame.hooks ▸ h)
      refine (hun.mono (fun _ _ ht => ht) fun _ hm' => hlog.trans hm').map ?_
      intro _ e' ht
      refine ⟨_, .failed hn hrun ht, ?_⟩
      have hfailed : Attempted g before (n :: rest) (.error err) (inits g [] ++
          Stage.initialising ⟨g, n.id⟩ :: unloads g ((before ++ []).map LiveNode.id)) :=
        .failed [] err rfl
      rwa [List.append_nil] at hfailed
    · have hdone : Moves e (m.record (.initialised g n.id)) := hm.tail (.record m _ rfl)
      have hbefore' : before ++ [n] ⊆ all :=
        List.append_subset.mpr ⟨hbefore, List.cons_subset.mpr ⟨hn, List.nil_subset _⟩⟩
      have htended := ih (m.record (.initialised g n.id)) hbefore' hrest (hdone.frame.hooks ▸ h)
      refine htended.mono ?_ fun _ hm' => hdone.trans hm'
      rintro r e' ⟨stages, ht, hattempted⟩
      exact ⟨_, .initialised hn hrun ht, hattempted.cons⟩

/-- Nodes that are initialised make moves. -/
theorem moves_of_initAll {fuel : Nat} {g : GraphId} {nodes : List LiveNode}
    {r : Except WorkflowError Unit} {e e' : Engine} (h : e.hooks.isSome = true)
    (hinit : initAll (exec (call fuel)) g [] nodes e = .returned r e') : Moves e e' := by
  have hends := initAll_tended fuel g e (List.nil_subset nodes) (List.Subset.refl nodes) h
  obtain ⟨_, ht, -⟩ := hends.returned hinit
  exact ht.moves h

end Engine

end Flowgraph
