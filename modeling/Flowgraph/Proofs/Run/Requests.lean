import Flowgraph.Proofs.Pool.Permits
import Flowgraph.Proofs.Run.Custody
import Flowgraph.Proofs.Task.Terms

/-!
# What programs ask for

The rules for arbitrary programs say what is kept whatever a program does. Here the programs are
looked at: a program is *within* a set of requests if it makes no others, whatever it is answered,
and neither does anything that it leaves behind as a task, a listener or a job. What is left behind
is stored in the engine.

* `Program.Within` — with one rule for each form of a program.
* `Engine.Extends` — what every engine keeps of those before it: its settings, the nodes of its
  graphs, and its journal. Which requests are allowed may depend on these.
* `Engine.Gains` — what an engine stores beyond what one before it stored is of a given kind, and no
  node was entered since. That is so of every request that needs no further program.
-/

namespace Flowgraph

/-- What a program asks the engine for that needs no further program. -/
inductive Request where
  | act (a : Action)
  | call (c : Command)

namespace Program

/-- A request that a program makes, at some point and with some answers before, or that a task, a
listener or a job makes that the program leaves behind. -/
inductive Asks : Program → Request → Prop
  | act (a : Action) (k : a.Answer → Program) : Asks (.act a k) (.act a)
  | afterAct {a : Action} {k : a.Answer → Program} {q : Request} (answer : a.Answer)
      (h : Asks (k answer) q) : Asks (.act a k) q
  | body {g : GraphId} {timing : Timing} {body : Nat → Program}
      {k : Except SchedulingError TaskId → Program} {q : Request} (run : Nat)
      (h : Asks (body run) q) : Asks (.schedule g timing body k) q
  | afterSchedule {g : GraphId} {timing : Timing} {body : Nat → Program}
      {k : Except SchedulingError TaskId → Program} {q : Request}
      (answer : Except SchedulingError TaskId) (h : Asks (k answer) q) :
      Asks (.schedule g timing body k) q
  | reaction {g : GraphId} {key : EventKey} {l : ListenerId} {reaction : Reaction}
      {k : Unit → Program} {q : Request} (event : Event) (before : Bool)
      (h : Asks (reaction event before) q) : Asks (.subscribe g key l reaction k) q
  | afterSubscribe {g : GraphId} {key : EventKey} {l : ListenerId} {reaction : Reaction}
      {k : Unit → Program} {q : Request} (h : Asks (k ()) q) :
      Asks (.subscribe g key l reaction k) q
  | job {job : Program} {k : Except SchedulingError Unit → Program} {q : Request}
      (h : Asks job q) : Asks (.submit job k) q
  | afterSubmit {job : Program} {k : Except SchedulingError Unit → Program} {q : Request}
      (answer : Except SchedulingError Unit) (h : Asks (k answer) q) : Asks (.submit job k) q
  | call (c : Command) (k : c.Answer → Program) : Asks (.call c k) (.call c)
  | afterCall {c : Command} {k : c.Answer → Program} {q : Request} (answer : c.Answer)
      (h : Asks (k answer) q) : Asks (.call c k) q

/-- A program may end with a result, with some answers before. -/
inductive Finishes : Program → Variables → Option String → Prop
  | finish (vars : Variables) (next : Option String) : Finishes (.finish vars next) vars next
  | act {a : Action} {k : a.Answer → Program} {vars : Variables} {next : Option String}
      (answer : a.Answer) (h : Finishes (k answer) vars next) : Finishes (.act a k) vars next
  | schedule {g : GraphId} {timing : Timing} {body : Nat → Program}
      {k : Except SchedulingError TaskId → Program} {vars : Variables} {next : Option String}
      (answer : Except SchedulingError TaskId) (h : Finishes (k answer) vars next) :
      Finishes (.schedule g timing body k) vars next
  | subscribe {g : GraphId} {key : EventKey} {l : ListenerId} {reaction : Reaction}
      {k : Unit → Program} {vars : Variables} {next : Option String}
      (h : Finishes (k ()) vars next) : Finishes (.subscribe g key l reaction k) vars next
  | submit {job : Program} {k : Except SchedulingError Unit → Program} {vars : Variables}
      {next : Option String} (answer : Except SchedulingError Unit)
      (h : Finishes (k answer) vars next) : Finishes (.submit job k) vars next
  | call {c : Command} {k : c.Answer → Program} {vars : Variables} {next : Option String}
      (answer : c.Answer) (h : Finishes (k answer) vars next) : Finishes (.call c k) vars next

/-- A program makes no other requests than those of a set, and leaves nothing behind that does. -/
def Within (A : Request → Prop) (p : Program) : Prop := ∀ q, p.Asks q → A q

variable {A A' : Request → Prop}

/-- A program within some requests is within more of them. -/
theorem Within.mono {p : Program} (h : p.Within A) (hA : ∀ q, A q → A' q) : p.Within A' :=
  fun q hq => hA q (h q hq)

/-- A program that is done asks for nothing. -/
@[simp] theorem within_finish (vars : Variables) (next : Option String) :
    (finish vars next).Within A := nofun

@[simp] theorem within_done : done.Within A := within_finish ∅ none

/-- A program that fails asks for nothing. -/
@[simp] theorem within_fail (err : WorkflowError) : (fail err).Within A := nofun

@[simp] theorem within_panic : panic.Within A := nofun

/-- An action is allowed, and what comes behind its answer asks for what is allowed. -/
@[simp] theorem within_act_iff {a : Action} {k : a.Answer → Program} :
    (Program.act a k).Within A ↔ A (.act a) ∧ ∀ answer, (k answer).Within A := by
  constructor
  · exact fun h => ⟨h _ (.act a k), fun answer q hq => h q (.afterAct answer hq)⟩
  · rintro ⟨ha, hk⟩ q hq
    -- a program asks for its action, or for something behind an answer
    cases hq with
    | act => exact ha
    | afterAct answer hq => exact hk answer q hq

/-- The making of a task is always allowed; its body may ask for no more than the program. -/
@[simp] theorem within_schedule_iff {g : GraphId} {timing : Timing} {body : Nat → Program}
    {k : Except SchedulingError TaskId → Program} :
    (Program.schedule g timing body k).Within A ↔
      (∀ run, (body run).Within A) ∧ ∀ answer, (k answer).Within A := by
  constructor
  · exact fun h => ⟨fun run q hq => h q (.body run hq),
      fun answer q hq => h q (.afterSchedule answer hq)⟩
  · rintro ⟨hbody, hk⟩ q hq
    -- what the body asks for counts although it runs later
    cases hq with
    | body run hq => exact hbody run q hq
    | afterSchedule answer hq => exact hk answer q hq

/-- The making of a listener is always allowed; its reaction may ask for no more than the
program. -/
@[simp] theorem within_subscribe_iff {g : GraphId} {key : EventKey} {l : ListenerId}
    {reaction : Reaction} {k : Unit → Program} :
    (Program.subscribe g key l reaction k).Within A ↔
      (∀ event before, (reaction event before).Within A) ∧ (k ()).Within A := by
  constructor
  · exact fun h => ⟨fun event before q hq => h q (.reaction event before hq),
      fun q hq => h q (.afterSubscribe hq)⟩
  · rintro ⟨hreaction, hk⟩ q hq
    -- what the reaction asks for counts although it runs later
    cases hq with
    | reaction event before hq => exact hreaction event before q hq
    | afterSubscribe hq => exact hk q hq

/-- The handing out of a job is always allowed; the job may ask for no more than the program. -/
@[simp] theorem within_submit_iff {job : Program} {k : Except SchedulingError Unit → Program} :
    (Program.submit job k).Within A ↔ job.Within A ∧ ∀ answer, (k answer).Within A := by
  constructor
  · exact fun h => ⟨fun q hq => h q (.job hq), fun answer q hq => h q (.afterSubmit answer hq)⟩
  · rintro ⟨hjob, hk⟩ q hq
    -- what the job asks for counts although a worker runs it
    cases hq with
    | job hq => exact hjob q hq
    | afterSubmit answer hq => exact hk answer q hq

/-- A command is allowed, and what comes behind its answer asks for what is allowed. -/
@[simp] theorem within_call_iff {c : Command} {k : c.Answer → Program} :
    (Program.call c k).Within A ↔ A (.call c) ∧ ∀ answer, (k answer).Within A := by
  constructor
  · exact fun h => ⟨h _ (.call c k), fun answer q hq => h q (.afterCall answer hq)⟩
  · rintro ⟨hc, hk⟩ q hq
    cases hq with
    | call => exact hc
    | afterCall answer hq => exact hk answer q hq

/-- A program that fails with a result asks for nothing. -/
theorem within_attempt {α : Type} {r : Except WorkflowError α} {k : α → Program}
    (hk : ∀ a, r = .ok a → (k a).Within A) : (attempt r k).Within A := by
  -- the program that hands on an error asks for nothing
  cases r with
  | error err => exact within_fail err
  | ok a => exact hk a rfl

@[simp] theorem within_conclude (r : Except WorkflowError Unit) : (conclude r).Within A :=
  within_attempt fun _ _ => within_done

@[simp] theorem within_log_iff {line : LogLine} {k : Program} :
    (Program.log line k).Within A ↔ A (.act (.log line)) ∧ k.Within A := by
  simp [Program.log]

/-- A walk that goes on at a node has to be allowed there. -/
@[simp] theorem within_walkOn_iff {w : Walk} {next : String} :
    (walkOn w next).Within A ↔ A (.call (.walk { w with pending := some next })) := by
  simp [walkOn]

/-- A walk that starts at a node has to be allowed there. -/
@[simp] theorem within_startWalk_iff {g : GraphId} {start : String} {vars : Variables} :
    (startWalk g start vars).Within A ↔
      A (.call (.walk { graph := g, vars := vars, pending := some start })) :=
  within_walkOn_iff

end Program

/-! ### Runs that come to an end -/

namespace Run

variable {α β : Type} {r : Run α}

/-- The engine that a run has left, if it came to an end. -/
def left? : Run α → Option Engine
  | .returned _ e => some e
  | .panicked e => some e
  | .diverged => none

/-- To see what a run leaves, it is enough to look at a part of it. -/
theorem exists_leaves {f : Engine → β} {b : β} (h : r.left?.map f = some b) :
    ∃ e, r.Leaves e ∧ f e = b := by
  -- a run that does not end leaves nothing to look at
  cases r with
  | returned a e => exact ⟨e, .returned a e, Option.some.inj h⟩
  | panicked e => exact ⟨e, .panicked e, Option.some.inj h⟩
  | diverged => cases h

end Run

/-! ### Visits -/

/-- A node is entered by a walk. -/
structure Visit where
  time : Nat
  node : String
  walk : Walk

/-- The visit that an entry of the journal tells of. -/
def Entry.visit? : Entry → Option Visit
  | .entered time node walk => some ⟨time, node, walk⟩
  | _ => none

namespace Engine

/-- The nodes that walks have entered, the earliest first. -/
def visits (e : Engine) : List Visit := e.journal.reverse.filterMap Entry.visit?

/-- An entry adds the visit that it tells of. -/
theorem visits_record (e : Engine) (entry : Entry) :
    (e.record entry).visits = e.visits ++ entry.visit?.toList := by
  rw [visits, visits, record, List.reverse_cons, List.filterMap_append]
  cases h : entry.visit? <;> simp [h]

/-- A line of the log tells of no visit. -/
@[simp] theorem visits_log (e : Engine) (line : LogLine) : (e.log line).visits = e.visits :=
  (visits_record e _).trans (List.append_nil _)

@[simp] theorem visits_logAll (e : Engine) (lines : List LogLine) :
    (e.logAll lines).visits = e.visits := by
  induction lines generalizing e with
  | nil => rfl
  | cons line rest ih => exact (ih (e.log line)).trans (visits_log e line)

/-! ### What engines keep of those before them -/

/-- An engine has the settings of one before it, the nodes of its graphs and its journal. -/
structure Extends (e e' : Engine) : Prop where
  config : e'.config = e.config
  length : e.graphs.length ≤ e'.graphs.length
  nodes : ∀ g, g < e.graphs.length → (e'.graph g).nodes = (e.graph g).nodes
  visits : e.visits ⊆ e'.visits

theorem Extends.refl (e : Engine) : Extends e e :=
  ⟨rfl, Nat.le_refl _, fun _ _ => rfl, List.Subset.refl _⟩

/-- What an engine has it keeps on the whole way. -/
theorem Extends.trans {e e' e'' : Engine} (h : Extends e e') (h' : Extends e' e'') :
    Extends e e'' where
  config := h'.config.trans h.config
  length := Nat.le_trans h.length h'.length
  nodes g hg := (h'.nodes g (Nat.lt_of_lt_of_le hg h.length)).trans (h.nodes g hg)
  visits := List.Subset.trans h.visits h'.visits

theorem Extends.record (e : Engine) (entry : Entry) : Extends e (e.record entry) where
  config := rfl
  length := Nat.le_refl _
  nodes _ _ := rfl
  visits := by
    rw [visits_record]
    exact List.subset_append_left ..

/-- A walk enters the node that is pending, and has made one more hop then. -/
theorem entered_of_arrival {e : Engine} {w w' : Walk} {n : LiveNode}
    (h : e.arrival w = .entered n w') :
    (∃ id, w.pending = some id ∧ (e.graph w.graph).node? id = some n) ∧
      e.exceeded? (w.hops + 1) = none ∧ w' = { w with hops := w.hops + 1, pending := none } := by
  unfold arrival at h
  split at h
  -- no node is pending
  · cases h
  · next id hid =>
    split at h
    -- the pending node is not there
    · cases h
    · next m hm =>
      dsimp only at h
      split at h
      -- the walk has made too many hops
      · cases h
      · next hlimit =>
        cases h
        exact ⟨⟨id, hid, hm⟩, hlimit, rfl⟩

/-- A walk enters a node of its graph. -/
theorem mem_of_arrival {e : Engine} {w w' : Walk} {n : LiveNode} (h : e.arrival w = .entered n w') :
    n ∈ (e.graph w.graph).nodes := by
  obtain ⟨⟨id, -, hn⟩, -, -⟩ := entered_of_arrival h
  exact List.mem_of_find?_eq_some hn

/-- A walk that enters a node stays in its graph. -/
theorem graph_of_arrival {e : Engine} {w w' : Walk} {n : LiveNode}
    (h : e.arrival w = .entered n w') : w'.graph = w.graph := by
  obtain ⟨-, -, rfl⟩ := entered_of_arrival h
  rfl

/-- The programs that an engine stores: those of listeners, tasks and jobs. -/
inductive Stores (e : Engine) : Program → Prop
  | reaction {g : GraphId} {key : EventKey} {l : Listener Reaction}
      (h : l ∈ (e.graph g).bus.listeners key) (event : Event) (before : Bool) :
      Stores e (l.reaction event before)
  | body {t : Task (Nat → Program)} (h : t ∈ e.scheduler.tasks) (run : Nat) : Stores e (t.body run)
  | job {job : Job Program} (h : job ∈ e.pool.jobs) : Stores e job.work

/-- What an engine stores beyond what one before it stored is of a given kind, as are the nodes and
types that it has beyond those, and no node was entered since. -/
structure Gains (P : Program → Prop) (B : Behaviour → Prop) (e e' : Engine) : Prop
    extends Extends e e' where
  listeners : ∀ g key, ∀ l ∈ (e'.graph g).bus.listeners key,
    l ∈ (e.graph g).bus.listeners key ∨ ∀ event before, P (l.reaction event before)
  proceeds : e.scheduler.Proceeds e'.scheduler
  made : ∀ id t', e'.scheduler.task? id = some t' → e.scheduler.task? id = none →
    ∀ run, P (t'.body run)
  jobs : ∀ job ∈ e'.pool.jobs, job ∈ e.pool.jobs ∨ P job.work
  members : ∀ g, ∀ n ∈ (e'.graph g).nodes, n ∈ (e.graph g).nodes ∨ B n.behaviour
  types : ∀ name t b, e'.registry.get? name = some t → t.behaviour = some b →
    e.registry.get? name = some t ∨ B b
  entered : e'.visits = e.visits

section Gains

variable {P : Program → Prop} {B : Behaviour → Prop}

/-- A program that is stored was stored before, or is one of those that may be gained. -/
theorem Gains.stores {e e' : Engine} (h : Gains P B e e') {p : Program} (hp : e'.Stores p) :
    e.Stores p ∨ P p := by
  cases hp with
  | reaction hl event before =>
    rcases h.listeners _ _ _ hl with hl | hnew
    · exact .inl (.reaction hl event before)
    · exact .inr (hnew event before)
  | @body t' ht' run =>
    obtain ⟨i, hi⟩ := List.mem_iff_getElem?.mp ht'
    have ht' : e'.scheduler.task? (i + 1) = some t' := hi
    -- either the number was given out since, or the task was there before
    cases ht : e.scheduler.task? (i + 1) with
    | none => exact .inr (h.made _ t' ht' ht run)
    | some t =>
      -- the task was there before and does what it did
      obtain ⟨t₁, ht₁, hkept⟩ := h.proceeds _ t ht
      rw [ht'] at ht₁
      cases ht₁
      rw [hkept.body]
      exact .inl (.body (Scheduler.mem_of_task? ht) run)
  | job hjob => exact (h.jobs _ hjob).imp_left .job

theorem Gains.refl (e : Engine) : Gains P B e e where
  toExtends := .refl e
  listeners _ _ _ := .inl
  proceeds := .refl _
  made id t' ht' hnone := by
    rw [hnone] at ht'
    cases ht'
  jobs _ := .inl
  members _ _ := .inl
  types _ _ _ ht _ := .inl ht
  entered := rfl

/-- What is gained in two steps is gained in all. -/
theorem Gains.trans {e e' e'' : Engine} (h : Gains P B e e') (h' : Gains P B e' e'') :
    Gains P B e e'' where
  toExtends := h.toExtends.trans h'.toExtends
  -- what the second step gains beyond the first is gained, and the rest is as in the first
  listeners g key l hl := (h'.listeners g key l hl).elim (h.listeners g key l) .inr
  proceeds := h.proceeds.trans h'.proceeds
  -- a task made by the end was made in the first stretch or in the second, and is kept by it
  made id t'' ht'' hnone := by
    cases ht' : e'.scheduler.task? id with
    | none => exact h'.made id t'' ht'' ht'
    | some t' =>
      obtain ⟨t₁, ht₁, hkept⟩ := h'.proceeds id t' ht'
      rw [ht''] at ht₁
      cases ht₁
      rw [hkept.body]
      exact h.made id t' ht' hnone
  jobs job hjob := (h'.jobs job hjob).elim (h.jobs job) .inr
  members g n hn := (h'.members g n hn).elim (h.members g n) .inr
  types name t b ht hb := (h'.types name t b ht hb).elim (h.types name t b · hb) .inr
  entered := h'.entered.trans h.entered

/-- The graphs and the node types stay as they are. -/
theorem Gains.of_graphs {e e' : Engine} (hconfig : e'.config = e.config)
    (hgraphs : e'.graphs = e.graphs) (hregistry : e'.registry = e.registry)
    (hvisits : e'.visits = e.visits)
    (hproceeds : e.scheduler.Proceeds e'.scheduler)
    (hmade : ∀ id t', e'.scheduler.task? id = some t' → e.scheduler.task? id = none →
      ∀ run, P (t'.body run))
    (hjobs : ∀ job ∈ e'.pool.jobs, job ∈ e.pool.jobs ∨ P job.work) : Gains P B e e' := by
  -- with the same list of graphs each number stands for the same graph
  have hgraph : ∀ g, e'.graph g = e.graph g := fun g => by rw [Engine.graph, hgraphs]; rfl
  exact {
    config := hconfig
    length := hgraphs ▸ Nat.le_refl _
    nodes := fun g _ => by rw [hgraph]
    visits := hvisits ▸ List.Subset.refl _
    listeners := fun g key l hl => .inl (hgraph g ▸ hl)
    proceeds := hproceeds
    made := hmade
    jobs := hjobs
    members := fun g n hn => .inl (hgraph g ▸ hn)
    types := fun name t b ht _ => .inl (hregistry ▸ ht)
    entered := hvisits }

/-- The graphs, the node types and the number of tasks stay as they are. -/
theorem Gains.of_length {e e' : Engine} (hconfig : e'.config = e.config)
    (hgraphs : e'.graphs = e.graphs) (hregistry : e'.registry = e.registry)
    (hvisits : e'.visits = e.visits) (hproceeds : e.scheduler.Proceeds e'.scheduler)
    (hlen : e'.scheduler.tasks.length = e.scheduler.tasks.length)
    (hjobs : ∀ job ∈ e'.pool.jobs, job ∈ e.pool.jobs ∨ P job.work) : Gains P B e e' :=
  .of_graphs hconfig hgraphs hregistry hvisits hproceeds
    (fun _ _ ht' hnone => absurd hnone (Scheduler.exists_task?_of_length hlen ht')) hjobs

/-- An entry that tells of no visit gains nothing. -/
theorem Gains.record (e : Engine) {entry : Entry} (h : entry.visit? = none) :
    Gains P B e (e.record entry) :=
  .of_length rfl rfl rfl (by rw [visits_record, h]; exact List.append_nil _) (.refl _) rfl
    fun _ => .inl

theorem Gains.log (e : Engine) (line : LogLine) : Gains P B e (e.log line) := .record e rfl

theorem Gains.logAll (e : Engine) (lines : List LogLine) : Gains P B e (e.logAll lines) := by
  induction lines generalizing e with
  | nil => exact .refl e
  | cons line rest ih => exact (Gains.log e line).trans (ih (e.log line))

/-- Only what is no program changes. -/
theorem Gains.bare {e e' : Engine} (hconfig : e'.config = e.config) (hgraphs : e'.graphs = e.graphs)
    (hregistry : e'.registry = e.registry) (hvisits : e'.visits = e.visits)
    (htasks : e'.scheduler.tasks = e.scheduler.tasks) (hjobs : e'.pool.jobs = e.pool.jobs) :
    Gains P B e e' :=
  .of_length hconfig hgraphs hregistry hvisits (Scheduler.proceeds_of_tasks htasks)
    (congrArg List.length htasks) fun _ hjob => .inl (hjobs ▸ hjob)

/-- Tasks come further, and none is made. -/
theorem Gains.schedule (e : Engine) {s : Scheduler (Nat → Program)}
    (hproceeds : e.scheduler.Proceeds s) (hlen : s.tasks.length = e.scheduler.tasks.length) :
    Gains P B e { e with scheduler := s } :=
  .of_length rfl rfl rfl rfl hproceeds hlen fun _ => .inl

/-- The worker pool changes. -/
theorem Gains.pool (e : Engine) {pool : Pool Program}
    (h : ∀ job ∈ pool.jobs, job ∈ e.pool.jobs ∨ P job.work) : Gains P B e { e with pool := pool } :=
  .of_length rfl rfl rfl rfl (.refl _) rfl h

/-- A graph changes, but for its nodes. -/
theorem Gains.modifyGraph (e : Engine) (g : GraphId) {f : Graph → Graph}
    (hnodes : (f (e.graph g)).nodes = (e.graph g).nodes)
    (hlisteners : ∀ key, ∀ l ∈ (f (e.graph g)).bus.listeners key,
      l ∈ (e.graph g).bus.listeners key ∨ ∀ event before, P (l.reaction event before)) :
    Gains P B e (e.modifyGraph g f) where
  config := rfl
  length := Nat.le_of_eq (List.length_modify ..).symm
  nodes g' _ := by
    rw [graph_modifyGraph]
    split
    · next h => rw [← h.1]; exact hnodes
    · rfl
  visits := List.Subset.refl _
  -- only the graph that changes may gain listeners
  listeners g' key := by
    rw [graph_modifyGraph]
    split
    · next h => rw [← h.1]; exact hlisteners key
    · exact fun _ => .inl
  proceeds := .refl _
  -- the scheduler is the same, so no task was made
  made id t' ht' hnone := absurd hnone (Scheduler.exists_task?_of_length rfl ht')
  jobs _ := .inl
  members g' := by
    rw [graph_modifyGraph]
    split
    · next h => rw [← h.1]; exact fun n hn => .inl (hnodes ▸ hn)
    · exact fun _ => .inl
  types _ _ _ ht _ := .inl ht
  entered := rfl

/-- A graph without listeners is put next to the others. -/
theorem Gains.addGraph (e : Engine) {graph : Graph} (hgraph : graph.Fresh)
    (hnodes : ∀ n ∈ graph.nodes, B n.behaviour) : Gains P B e (e.addGraph graph).2 where
  config := rfl
  length := by
    show _ ≤ (e.graphs ++ [graph]).length
    rw [List.length_append]
    exact Nat.le_add_right _ _
  nodes g hg := by rw [graph_addGraph_of_lt graph hg]
  visits := List.Subset.refl _
  -- the graph that is added has no listener yet, so each is an old one
  listeners g key l hl := by
    rw [graph_addGraph] at hl
    split at hl
    · rw [hgraph.bus] at hl
      cases hl
    · exact .inl hl
  proceeds := .refl _
  made id t' ht' hnone := absurd hnone (Scheduler.exists_task?_of_length rfl ht')
  jobs _ := .inl
  -- the nodes of the new graph may be gained, the others were there
  members g n hn := by
    rw [graph_addGraph] at hn
    split at hn
    · exact .inr (hnodes n hn)
    · exact .inl hn
  types _ _ _ ht _ := .inl ht
  entered := rfl

end Gains

/-! ### Requests that need no program -/

section Requests

variable {P : Program → Prop} {B : Behaviour → Prop}

/-- To cancel a task gains nothing. -/
theorem Gains.cancel (e : Engine) (task : TaskId) :
    Gains P B e { e with scheduler := e.scheduler.cancel task } :=
  .schedule e (Scheduler.proceeds_cancel _ task) (Scheduler.length_modify ..)

/-- To track a task, or to cancel it because its graph is gone, gains nothing. -/
theorem Gains.track (e : Engine) (g : GraphId) (task : TaskId) : Gains P B e (e.track g task) := by
  by_cases hd : (e.graph g).dropped = true
  · -- the graph is gone, and the task with it
    rw [track_of_dropped task hd]
    exact (Gains.cancel e task).trans (.log _ _)
  by_cases hc : (e.graph g).tasks.closed = true
  · -- the registry is closed, which changes nothing but the task
    rw [track_of_closed task hd hc]
    have hkeep : Gains P B { e with scheduler := e.scheduler.cancel task }
        ({ e with scheduler := e.scheduler.cancel task }.modifyGraph g
          ({ · with tasks := (e.graph g).tasks })) :=
      .modifyGraph _ g rfl fun _ _ => .inl
    exact ((Gains.cancel e task).trans hkeep).trans (.log _ _)
  · rw [track_of_open task hd hc]
    exact .modifyGraph e g rfl fun _ _ => .inl

/-- An action gains nothing. -/
theorem act_gains (e : Engine) (a : Action) :
    (e.act a).Ends (fun _ => Gains P B e) fun _ => False := by
  cases a with
  | note text => exact .record e rfl
  | log line => exact .log e line
  | send text => exact .record e rfl
  | draw low high => exact .bare rfl rfl rfl rfl rfl rfl
  | cancel task => exact .cancel e task
  | inspect task => exact .refl e
  | remove g key l =>
    rw [Engine.act]
    split
    · refine Gains.modifyGraph e g rfl fun key' l' hl => .inl ?_
      -- a removal takes one listener out
      have hl : l' ∈ ((e.graph g).bus.remove key l).2.listeners key' := hl
      rw [Bus.listeners_remove] at hl
      split at hl
      · exact List.mem_of_mem_eraseP hl
      · exact hl
    · trivial
  | withdraw g l =>
    rw [Engine.act]
    split
    · refine Gains.modifyGraph e g rfl fun key' l' hl => .inl ?_
      have hl : l' ∈ ((e.graph g).bus.withdraw l).listeners key' := hl
      rw [Bus.listeners_withdraw] at hl
      -- a withdrawal takes listeners out
      exact (List.mem_filter.mp hl).1
    · trivial
  | live =>
    rw [Engine.act]
    split
    · exact .refl e
    · trivial

/-- A request for a task gains its body at most. -/
theorem schedule_gains (e : Engine) (g : GraphId) (timing : Timing) {body : Nat → Program}
    (h : ∀ run, P (body run)) :
    (e.schedule g timing body).Ends (fun _ => Gains P B e) fun _ => False := by
  unfold Engine.schedule
  split
  · split
    · exact .refl e
    · next task s hs =>
      -- the one task that is new has the body that was asked for
      have made : Gains P B e { e with scheduler := s } := by
        refine .of_graphs rfl rfl rfl rfl (Scheduler.proceeds_schedule hs)
          (fun id t' ht' hnone => ?_) fun _ => .inl
        rw [Scheduler.made_of_schedule hs ht' hnone]
        exact h
      exact made.trans (.track _ g task)
  · trivial

/-- A request for a listener gains its reaction at most. -/
theorem subscribe_gains (e : Engine) (g : GraphId) (key : EventKey) (l : Listener Reaction)
    (h : ∀ event before, P (l.reaction event before)) :
    (e.subscribe g key l).Ends (fun _ => Gains P B e) fun _ => False := by
  unfold Engine.subscribe
  split
  · refine Gains.modifyGraph e g ?_ fun key' l' hl => ?_
    · split <;> rfl
    · split at hl
      · exact .inl hl
      · -- the new listener stands behind the others under its key
        have hl : l' ∈ ((e.graph g).bus.on key l).listeners key' := hl
        rw [Bus.listeners_on] at hl
        split at hl
        · rcases List.mem_append.mp hl with hl | hl
          · exact .inl hl
          · rw [List.mem_singleton.mp hl]
            exact .inr h
        · exact .inl hl
  · trivial

/-- A request for a job gains the job at most. -/
theorem submit_gains (e : Engine) {job : Program} (h : P job) : Gains P B e (e.submit job).2 := by
  unfold Engine.submit
  split
  · next pool hpool =>
    obtain ⟨-, -, rfl⟩ := Pool.of_submit hpool
    refine Gains.pool e fun j hj => ?_
    -- the new job stands behind those that were accepted before
    rcases List.mem_append.mp hj with hj | hj
    · exact .inl hj
    · rw [List.mem_singleton.mp hj]
      exact .inr h
  · exact .log e _
  · exact .refl e

/-! ### Graphs come and go -/

/-- A graph that is dropped only loses. -/
theorem Gains.drop (e : Engine) (g : GraphId) : Gains P B e (e.drop g).2 := by
  have hcancel : Gains P B e
      { e with scheduler := (e.graph g).tasks.tracked.foldl Scheduler.cancel e.scheduler } :=
    .schedule e (Scheduler.edits_foldl_cancel _ _).changes.proceeds
      (Scheduler.length_foldl_cancel ..)
  -- no listener is left, so there is none to account for
  exact hcancel.trans (.modifyGraph _ g rfl nofun)

/-- A graph that is given up only loses. -/
theorem Gains.abandon (e : Engine) (g : GraphId) : Gains P B e (abandon g e) := by
  have hfree : Gains P B e { e with hooks := none } := .bare rfl rfl rfl rfl rfl rfl
  exact hfree.trans (.modifyGraph _ g rfl nofun)

end Requests

/-! ### What is kept in any case -/

/-- What is set next to the settings, the graphs and the journal does not count. -/
theorem Extends.of_graphs {e e' : Engine} (hconfig : e'.config = e.config)
    (hgraphs : e'.graphs = e.graphs) (hvisits : e'.visits = e.visits) : Extends e e' :=
  ⟨hconfig, hgraphs ▸ Nat.le_refl _, fun g _ => by rw [graph, hgraphs]; rfl,
    hvisits ▸ List.Subset.refl _⟩

/-- A graph may change as long as its nodes stay. -/
theorem Extends.modifyGraph (e : Engine) (g : GraphId) {f : Graph → Graph}
    (h : (f (e.graph g)).nodes = (e.graph g).nodes) : Extends e (e.modifyGraph g f) :=
  -- what listeners do plays no part here, so anything may be gained
  (Gains.modifyGraph (P := fun _ => True) (B := fun _ => True) e g h
    fun _ _ _ => .inr fun _ _ => trivial).toExtends

/-- A new graph changes none of those before. -/
theorem Extends.addGraph (e : Engine) {graph : Graph} (h : graph.Fresh) :
    Extends e (e.addGraph graph).2 :=
  (Gains.addGraph (P := fun _ => True) (B := fun _ => True) e h fun _ _ => trivial).toExtends

/-- A move takes nothing away. -/
theorem Move.extends {e e' : Engine} (hm : Move e e') : Extends e e' := by
  -- a move changes neither the settings nor the nodes of a graph
  cases hm with
  | record entry _ => exact .record e entry
  | draw => exact .of_graphs rfl rfl rfl
  | cancel task => exact .of_graphs rfl rfl rfl
  | remove g key l _ => exact .modifyGraph e g rfl
  | withdraw g l _ => exact .modifyGraph e g rfl
  | subscribe g key l _ =>
    refine .modifyGraph e g ?_
    split <;> rfl
  | schedule g timing body task s _ _ =>
    have hmade : Extends e { e with scheduler := s } := .of_graphs rfl rfl rfl
    exact hmade.trans (Gains.track (P := fun _ => True) (B := fun _ => True) _ g task).toExtends
  | submit job pool _ => exact .of_graphs rfl rfl rfl

/-- The turns in the life of a graph add graphs, and take no nodes from those that are there. -/
theorem Deed.extends {e e' : Engine} (hd : Deed e e') : Extends e e' := by
  -- which graph may be asked for plays no part
  have hfree : Extends e { e with hooks := none } := .of_graphs rfl rfl rfl
  cases hd with
  | move hm => exact hm.extends
  | retire empty _ hempty _ => exact (Extends.addGraph e hempty).trans (.of_graphs rfl rfl rfl)
  | release g _ =>
    exact hfree.trans (Gains.drop (P := fun _ => True) (B := fun _ => True)
      { e with hooks := none } g).toExtends
  | abandon g _ =>
    exact (Gains.abandon (P := fun _ => True) (B := fun _ => True) e g).toExtends
  | entitle generation c _ =>
    exact (Extends.modifyGraph e e.live rfl).trans (.of_graphs rfl rfl rfl)
  | raise graph _ hfresh => exact (Extends.addGraph e hfresh).trans (.of_graphs rfl rfl rfl)
  | promote g _ =>
    exact (hfree.trans (.modifyGraph { e with hooks := none } e.live rfl)).trans
      (.of_graphs rfl rfl rfl)

/-- The clock and the workers enter no node. -/
theorem Pulse.extends {e e' : Engine} (hp : Pulse e e') : Extends e e' := by
  -- the starts of tasks and jobs are recorded, and no visit is
  cases hp with
  | start limit task due _ =>
    have hbegun : Extends e { e with scheduler := e.scheduler.begin task due } :=
      .of_graphs rfl rfl rfl
    exact hbegun.trans (.record _ _)
  | job number => exact .record e _
  | settle => exact .of_graphs rfl rfl rfl
  | complete task => exact .of_graphs rfl rfl rfl
  | tick time => exact .of_graphs rfl rfl rfl
  | pool pool => exact .of_graphs rfl rfl rfl

/-- What happens at once takes no nodes, settings or visits away. -/
theorem Change.extends {e e' : Engine} (hc : Change e e') : Extends e e' := by
  cases hc with
  | deed hd => exact hd.extends
  | pulse hp => exact hp.extends
  | supply hs => cases hs <;> exact .of_graphs rfl rfl rfl

/-- **Engines keep the settings, the nodes and the journal of those before them.** -/
theorem Evolves.extends {e e' : Engine} (h : Evolves e e') : Extends e e' := by
  -- step by step
  induction h with
  | refl => exact .refl e
  | tail _ hc ih => exact ih.trans hc.extends

/-! ### Programs that give no command -/

end Engine

namespace Program

open Engine

/-- A program gives no command, and what it leaves behind is of a kind. -/
inductive Arms (P : Program → Prop) : Program → Prop
  | finish (vars : Variables) (next : Option String) : Arms P (.finish vars next)
  | fail (err : WorkflowError) : Arms P (.fail err)
  | act (a : Action) {k : a.Answer → Program} (h : ∀ answer, Arms P (k answer)) : Arms P (.act a k)
  | schedule (g : GraphId) (timing : Timing) {body : Nat → Program}
      {k : Except SchedulingError TaskId → Program} (hbody : ∀ run, P (body run))
      (h : ∀ answer, Arms P (k answer)) : Arms P (.schedule g timing body k)
  | subscribe (g : GraphId) (key : EventKey) (l : ListenerId) {reaction : Reaction}
      {k : Unit → Program} (hreaction : ∀ event before, P (reaction event before))
      (h : Arms P (k ())) : Arms P (.subscribe g key l reaction k)

/-- What such a program leaves behind is all that an engine gains by it. -/
theorem Arms.gains {nested : (c : Command) → Engine → Run c.Answer} {P : Program → Prop}
    {B : Behaviour → Prop} {p : Program} (h : p.Arms P) (e : Engine) :
    (Engine.exec nested p e).Ends (fun _ => Gains P B e) fun _ => False := by
  -- what was gained so far comes in front
  have htrans : ∀ {e e' : Engine} {r : Run (Except WorkflowError Step)}, Gains P B e e' →
      r.Ends (fun _ => Gains P B e') (fun _ => False) →
      r.Ends (fun _ => Gains P B e) fun _ => False :=
    fun hg hr => hr.mono (fun _ _ => hg.trans) fun _ => id
  induction h generalizing e with
  | finish vars next => exact .refl e
  | fail err => exact .refl e
  | act a _ ih => exact (act_gains e a).bind fun answer e' hg => htrans hg (ih answer e')
  | schedule g timing hbody _ ih =>
    exact (schedule_gains e g timing hbody).bind fun answer e' hg => htrans hg (ih answer e')
  | subscribe g key l hreaction _ ih =>
    exact (subscribe_gains e g key ⟨l, _⟩ hreaction).bind fun _ e' hg => htrans hg (ih e')

end Program

namespace Engine

/-! ### Results -/

/-- A result of a program is one of those that it may end with. -/
theorem finishes_of_exec {nested : (c : Command) → Engine → Run c.Answer} {p : Program}
    {e e' : Engine} {step : Step} (h : exec nested p e = .returned (.ok step) e') :
    p.Finishes step.vars step.next := by
  -- the program that ends is a part of this one, behind the answers that it was given
  induction p generalizing e with
  | finish vars next =>
    cases h
    exact .finish vars next
  | fail err => cases h
  | panic => cases h
  | act a k ih =>
    obtain ⟨answer, m, -, hk⟩ := Run.exists_of_bind h
    exact .act answer (ih answer hk)
  | schedule g timing body k _ ih =>
    obtain ⟨answer, m, -, hk⟩ := Run.exists_of_bind h
    exact .schedule answer (ih answer hk)
  | subscribe g key l reaction k _ ih =>
    obtain ⟨answer, m, -, hk⟩ := Run.exists_of_bind h
    exact .subscribe (ih answer hk)
  -- a job is handed in at once, so its answer is no run
  | submit job k _ ih => exact .submit _ (ih _ h)
  | call c k ih =>
    obtain ⟨answer, m, -, hk⟩ := Run.exists_of_bind h
    exact .call answer (ih answer hk)

end Engine

end Flowgraph
