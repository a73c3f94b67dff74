import Flowgraph.Proofs.Pool.Permits
import Flowgraph.Proofs.Run.Requests
import Mathlib.Data.List.Forall2

/-!
# Engines side by side

Two engines go *abreast* if they do the same but for the delivery of messages: their worker pools,
what they log and what they hand to the host may differ in any way, and everything else is the same.
The graphs have the same nodes and the same listeners, the same tasks wait, the clock shows the same
time, and the same has happened. The programs that they store need not be the same, since the jobs
that these hand in differ with the sink.

* `Program.Delivers` — programs that deliver a message: they log and send, and then end, well or
  badly.
* `Program.Abreast` — programs that ask for the same, step by step, but for the jobs that they hand
  in and what they log. Both go on in the same way whether or not the jobs are accepted.
* `Program.Jobless` — programs that hand in no jobs. They go abreast with themselves.
* `Engine.Abreast` — engines that go abreast.
* `Engine.Aside` — what happens aside: in the pool, in the log and at the sink.
* `exec_abreast` — programs that go abreast run alike in engines that go abreast.
-/

namespace Flowgraph

/-! ### Lists side by side -/

section Lists

variable {α β : Type} {R : α → β → Prop} {l : List α} {l' : List β}

/-- Related lists have related items at each place. -/
theorem rel_getElem? (h : List.Forall₂ R l l') (i : Nat) : Option.Rel R l[i]? l'[i]? := by
  induction h generalizing i with
  | nil => exact .none
  | cons hab _ ih =>
    cases i with
    | zero => exact .some hab
    | succ i => exact ih i

/-- Related changes at one place keep lists related. -/
theorem rel_modify {f : α → α} {f' : β → β} (hf : ∀ a b, R a b → R (f a) (f' b))
    (h : List.Forall₂ R l l') (i : Nat) : List.Forall₂ R (l.modify i f) (l'.modify i f') := by
  induction h generalizing i with
  | nil =>
    rw [List.modify_nil, List.modify_nil]
    exact .nil
  | cons hab hrest ih =>
    cases i with
    | zero => exact .cons (hf _ _ hab) hrest
    | succ i => exact .cons hab (ih i)

variable {p : α → Bool} {p' : β → Bool} (hp : ∀ a b, R a b → p a = p' b)
include hp

/-- A test that agrees on related items finds related ones. -/
theorem rel_find? (h : List.Forall₂ R l l') : Option.Rel R (l.find? p) (l'.find? p') := by
  induction h with
  | nil => exact .none
  | @cons a b _ _ hab _ ih =>
    rw [List.find?_cons, List.find?_cons, ← hp a b hab]
    -- the test has the same outcome on both heads
    cases p a with
    | true => exact .some hab
    | false => exact ih

/-- Where a test agrees, what is left when the first hit is erased is related. -/
theorem rel_eraseP (h : List.Forall₂ R l l') : List.Forall₂ R (l.eraseP p) (l'.eraseP p') := by
  induction h with
  | nil => exact .nil
  | @cons a b _ _ hab hrest ih =>
    rw [List.eraseP_cons, List.eraseP_cons, ← hp a b hab]
    -- the first hit is at the same place in both lists
    cases p a with
    | true => exact hrest
    | false => exact .cons hab ih

/-- Where a test agrees, it has a hit in both lists or in neither. -/
theorem any_eq_of_rel (h : List.Forall₂ R l l') : l.any p = l'.any p' := by
  induction h with
  | nil => rfl
  | @cons a b _ _ hab _ ih => rw [List.any_cons, List.any_cons, hp a b hab, ih]

omit hp in
/-- What is gathered from related items, by what they are and where they stand, is the same. -/
theorem filterMap_zipIdx_eq {γ : Type} {f : α × Nat → Option γ} {f' : β × Nat → Option γ}
    (hf : ∀ a b, R a b → ∀ i, f (a, i) = f' (b, i)) (h : List.Forall₂ R l l') (i : Nat) :
    (l.zipIdx i).filterMap f = (l'.zipIdx i).filterMap f' := by
  induction h generalizing i with
  | nil => rfl
  | cons hab _ ih =>
    rw [List.zipIdx_cons, List.zipIdx_cons, List.filterMap_cons, List.filterMap_cons, hf _ _ hab i,
      ih]

end Lists

/-! ### Programs -/

namespace Program

/-- A program that delivers a message: it logs and sends, and then it ends, well or badly. -/
inductive Delivers : Program → Prop
  | finish (vars : Variables) (next : Option String) : Delivers (.finish vars next)
  | fail (err : WorkflowError) : Delivers (.fail err)
  | panic : Delivers .panic
  | log (line : LogLine) {k : Unit → Program} (hk : Delivers (k ())) : Delivers (.act (.log line) k)
  | send (text : String) {k : Unit → Program} (hk : Delivers (k ())) :
      Delivers (.act (.send text) k)

/-- **Two programs that ask for the same, step by step**, but for what they log and for the jobs
that they hand in. These deliver messages, and whether they are accepted makes no difference. -/
inductive Abreast : Program → Program → Prop
  | finish (vars : Variables) (next : Option String) :
      Abreast (.finish vars next) (.finish vars next)
  | fail (err : WorkflowError) : Abreast (.fail err) (.fail err)
  | panic : Abreast .panic .panic
  | act (a : Action) {k k' : a.Answer → Program} (hk : ∀ answer, Abreast (k answer) (k' answer)) :
      Abreast (.act a k) (.act a k')
  | schedule (g : GraphId) (timing : Timing) {body body' : Nat → Program}
      {k k' : Except SchedulingError TaskId → Program}
      (hbody : ∀ run, Abreast (body run) (body' run))
      (hk : ∀ answer, Abreast (k answer) (k' answer)) :
      Abreast (.schedule g timing body k) (.schedule g timing body' k')
  | subscribe (g : GraphId) (key : EventKey) (l : ListenerId) {reaction reaction' : Reaction}
      {k k' : Unit → Program}
      (hreaction : ∀ event before, Abreast (reaction event before) (reaction' event before))
      (hk : Abreast (k ()) (k' ())) :
      Abreast (.subscribe g key l reaction k) (.subscribe g key l reaction' k')
  | submit {job job' : Program} (hjob : job.Delivers) (hjob' : job'.Delivers)
      {k k' : Except SchedulingError Unit → Program}
      (hk : ∀ answer answer', Abreast (k answer) (k' answer')) :
      Abreast (.submit job k) (.submit job' k')
  | call (c : Command) {k k' : c.Answer → Program} (hk : ∀ answer, Abreast (k answer) (k' answer)) :
      Abreast (.call c k) (.call c k')
  | logLeft (line : LogLine) {k : Unit → Program} {p : Program} (h : Abreast (k ()) p) :
      Abreast (.act (.log line) k) p
  | logRight (line : LogLine) {p : Program} {k : Unit → Program} (h : Abreast p (k ())) :
      Abreast p (.act (.log line) k)

/-- A result is handed on to programs that keep abreast, or both fail with its error. -/
theorem Abreast.attempt {α : Type} (r : Except WorkflowError α) {k k' : α → Program}
    (hk : ∀ a, Abreast (k a) (k' a)) : Abreast (.attempt r k) (.attempt r k') := by
  cases r with
  | error err => exact .fail err
  | ok a => exact hk a

/-- A program that hands in no jobs, and leaves nothing behind that does. -/
inductive Jobless : Program → Prop
  | finish (vars : Variables) (next : Option String) : Jobless (.finish vars next)
  | fail (err : WorkflowError) : Jobless (.fail err)
  | panic : Jobless .panic
  | act (a : Action) {k : a.Answer → Program} (hk : ∀ answer, Jobless (k answer)) :
      Jobless (.act a k)
  | schedule (g : GraphId) (timing : Timing) {body : Nat → Program}
      {k : Except SchedulingError TaskId → Program} (hbody : ∀ run, Jobless (body run))
      (hk : ∀ answer, Jobless (k answer)) : Jobless (.schedule g timing body k)
  | subscribe (g : GraphId) (key : EventKey) (l : ListenerId) {reaction : Reaction}
      {k : Unit → Program} (hreaction : ∀ event before, Jobless (reaction event before))
      (hk : Jobless (k ())) : Jobless (.subscribe g key l reaction k)
  | call (c : Command) {k : c.Answer → Program} (hk : ∀ answer, Jobless (k answer)) :
      Jobless (.call c k)

namespace Jobless

/-- To hand on a result takes no job. -/
theorem attempt {α : Type} (r : Except WorkflowError α) {k : α → Program}
    (hk : ∀ a, Jobless (k a)) : Jobless (.attempt r k) := by
  -- an error ends the program
  cases r with
  | error err => exact .fail err
  | ok a => exact hk a

theorem done : Jobless .done := .finish ∅ none

/-- To go on with a walk takes no job. -/
theorem walkOn (w : Walk) (next : String) : Jobless (.walkOn w next) :=
  -- what the walk answers is handed on, and nothing comes behind it
  .call _ fun r => .attempt r fun _ => .done

/-- Without jobs there is nothing in which a program could differ from itself. -/
theorem abreast {p : Program} (h : p.Jobless) : p.Abreast p := by
  induction h with
  | finish vars next => exact .finish vars next
  | fail err => exact .fail err
  | panic => exact .panic
  | act a _ ih => exact .act a ih
  | schedule g timing _ _ ihbody ih => exact .schedule g timing ihbody ih
  | subscribe g key l _ _ ihreaction ih => exact .subscribe g key l ihreaction ih
  | call c _ ih => exact .call c ih

end Jobless

end Program

/-- Listeners of one name whose reactions keep abreast. -/
structure Listener.Abreast (l l' : Listener Reaction) : Prop where
  id : l.id = l'.id
  reaction : ∀ event before, Program.Abreast (l.reaction event before) (l'.reaction event before)

/-- Tasks that were made at one time for one graph, have come equally far at equal times, and do the
same. -/
structure Task.Abreast (t t' : Task (Nat → Program)) : Prop where
  timing : t.timing = t'.timing
  created : t.created = t'.created
  owner : t.owner = t'.owner
  runs : t.runs = t'.runs
  running : t.running = t'.running
  rested : t.rested = t'.rested
  cancelled : t.cancelled = t'.cancelled
  ended : t.ended = t'.ended
  body : ∀ run, Program.Abreast (t.body run) (t'.body run)

namespace Task.Abreast

variable {t t' : Task (Nat → Program)}

/-- Tasks abreast are due at the same time. -/
theorem due? (h : Task.Abreast t t') : t.due? = t'.due? := by
  rw [Task.due?, Task.due?, h.cancelled, h.ended, h.running, h.timing, h.created, h.rested, h.runs]

/-- Runs begin side by side. -/
theorem begin (h : Task.Abreast t t') : Task.Abreast t.begin t'.begin :=
  { h with
    runs := congrArg (· + 1) h.runs
    running := rfl }

/-- Runs that come to their end at one time end side by side. -/
theorem complete (h : Task.Abreast t t') (now : Nat) :
    Task.Abreast (t.complete now) (t'.complete now) := by
  -- a task without a run under way stays as it is
  cases hrun : t.running with
  | false =>
    rw [Task.complete_of_not_running hrun, Task.complete_of_not_running (h.running ▸ hrun)]
    exact h
  | true =>
    rw [Task.complete_of_running hrun, Task.complete_of_running (h.running ▸ hrun)]
    refine { h with running := rfl, rested := rfl, ended := ?_ }
    -- whether that was the last run depends on what agrees
    rw [h.ended, h.timing, h.created, h.runs]

end Task.Abreast

/-- Behaviours with programs that go abreast, however large the worker pools are. -/
structure Behaviour.Abreast (b b' : Behaviour) : Prop where
  init : ∀ n (s s' : Setting), s.graph = s'.graph → s.nodes = s'.nodes → s.catalog = s'.catalog →
    Program.Abreast (b.init n s) (b'.init n s')
  unload : ∀ n (s s' : Setting), s.graph = s'.graph → s.nodes = s'.nodes → s.catalog = s'.catalog →
    Program.Abreast (b.unload n s) (b'.unload n s')
  execute : ∀ n w, Program.Abreast (b.execute n w) (b'.execute n w)

/-- Nodes that are wired in the same way and whose programs keep abreast. -/
structure LiveNode.Abreast (n n' : LiveNode) : Prop where
  node : n.node = n'.node
  behaviour : n.behaviour.Abreast n'.behaviour

/-- Types of one description whose nodes keep abreast. -/
structure NodeType.Abreast (t t' : NodeType Behaviour) : Prop where
  metadata : t.metadata = t'.metadata
  behaviour : Option.Rel Behaviour.Abreast t.behaviour t'.behaviour

/-- Under each name there are node types that go abreast, or none. -/
def Registry.Abreast (r r' : Registry Behaviour) : Prop :=
  ∀ name, Option.Rel NodeType.Abreast (r.get? name) (r'.get? name)

/-- Graphs that differ only in what their nodes and listeners say to the host, and in the jobs that
they hand out. -/
structure Graph.Abreast (graph graph' : Graph) : Prop where
  generation : graph.generation = graph'.generation
  context : graph.context = graph'.context
  nodes : List.Forall₂ LiveNode.Abreast graph.nodes graph'.nodes
  listeners : ∀ key,
    List.Forall₂ Listener.Abreast (graph.bus.listeners key) (graph'.bus.listeners key)
  tasks : graph.tasks = graph'.tasks
  dropped : graph.dropped = graph'.dropped

/-- A graph without nodes and listeners goes abreast with itself. -/
theorem Graph.Abreast.bare {graph : Graph} (hnodes : graph.nodes = []) (hbus : graph.bus = {}) :
    Graph.Abreast graph graph where
  generation := rfl
  context := rfl
  nodes := hnodes ▸ .nil
  listeners key := by
    rw [hbus]
    exact .nil
  tasks := rfl
  dropped := rfl

/-! ### Schedulers -/

/-- Schedulers of one time whose tasks keep abreast. -/
structure Scheduler.Abreast (s s' : Scheduler (Nat → Program)) : Prop where
  now : s.now = s'.now
  tasks : List.Forall₂ Task.Abreast s.tasks s'.tasks

namespace Scheduler.Abreast

variable {s s' : Scheduler (Nat → Program)}

/-- The tasks of one number are abreast. -/
theorem task? (h : s.Abreast s') (id : TaskId) :
    Option.Rel Task.Abreast (s.task? id) (s'.task? id) := by
  cases id with
  | zero => exact .none
  | succ n => exact rel_getElem? h.tasks n

/-- A task is cancelled in both schedulers or in neither. -/
theorem isCancelled (h : s.Abreast s') (id : TaskId) : s.isCancelled id = s'.isCancelled id := by
  have ht := h.task? id
  rw [Scheduler.isCancelled, Scheduler.isCancelled]
  generalize s.task? id = t at ht ⊢
  generalize s'.task? id = t' at ht ⊢
  -- a task that is not there counts as cancelled in both
  cases ht with
  | none => rfl
  | some ht => exact ht.cancelled

/-- A task has ended in both schedulers or in neither. -/
theorem isEnded (h : s.Abreast s') (id : TaskId) : s.isEnded id = s'.isEnded id := by
  have ht := h.task? id
  rw [Scheduler.isEnded, Scheduler.isEnded]
  generalize s.task? id = t at ht ⊢
  generalize s'.task? id = t' at ht ⊢
  -- a task that is not there counts as ended in both
  cases ht with
  | none => rfl
  | some ht => exact ht.ended

/-- Tasks that are changed in step keep abreast. -/
theorem modify (h : s.Abreast s') (id : TaskId)
    {f f' : Task (Nat → Program) → Task (Nat → Program)}
    (hf : ∀ t t', Task.Abreast t t' → Task.Abreast (f t) (f' t')) :
    (s.modify id f).Abreast (s'.modify id f') := by
  -- no task has the number zero
  cases id with
  | zero => exact h
  | succ n => exact ⟨h.now, rel_modify hf h.tasks n⟩

/-- A task is cancelled in both. -/
theorem cancel (h : s.Abreast s') (id : TaskId) : (s.cancel id).Abreast (s'.cancel id) :=
  h.modify id fun _ _ ht => { ht with cancelled := rfl }

/-- Tasks are cancelled in both, one after another. -/
theorem cancelAll (h : s.Abreast s') (ids : List TaskId) :
    (ids.foldl Scheduler.cancel s).Abreast (ids.foldl Scheduler.cancel s') := by
  induction ids generalizing s s' with
  | nil => exact h
  | cons id rest ih => exact ih (h.cancel id)

/-- Cancelled tasks end in both. -/
theorem settle (h : s.Abreast s') : s.settle.Abreast s'.settle := by
  refine ⟨h.now, List.rel_map (fun t t' ht => ?_) h.tasks⟩
  refine { ht with ended := ?_ }
  show (t.ended || t.cancelled) = (t'.ended || t'.cancelled)
  rw [ht.ended, ht.cancelled]

/-- A run begins in both. -/
theorem begin (h : s.Abreast s') (id : TaskId) (due : Nat) :
    (s.begin id due).Abreast (s'.begin id due) := by
  have hrun : (s.modify id Task.begin).Abreast (s'.modify id Task.begin) :=
    h.modify id fun _ _ ht => ht.begin
  -- the clocks agree, and both move on to the time at which the run was due
  exact ⟨congrArg (max · due) h.now, hrun.tasks⟩

/-- A run ends in both. -/
theorem complete (h : s.Abreast s') (id : TaskId) : (s.complete id).Abreast (s'.complete id) := by
  -- both runs end at the same time
  rw [Scheduler.complete, Scheduler.complete, ← h.now]
  exact h.modify id fun _ _ ht => ht.complete s.now

/-- Runs are under way in both, or in neither. -/
theorem resting (h : s.Abreast s') : s.resting = s'.resting := by
  obtain ⟨_, htasks⟩ := h
  rw [Scheduler.resting, Scheduler.resting]
  generalize s.tasks = tasks at htasks ⊢
  generalize s'.tasks = tasks' at htasks ⊢
  -- task by task, a run is under way in both or in neither
  induction htasks with
  | nil => rfl
  | cons ht _ ih => rw [List.all_cons, List.all_cons, ht.running, ih]

/-- The same task is to run next. -/
theorem next? (h : s.Abreast s') (limit : Nat) : s.next? limit = s'.next? limit := by
  have hdue : dueUpTo limit s.tasks = dueUpTo limit s'.tasks :=
    filterMap_zipIdx_eq (fun t t' ht i => by dsimp only; rw [ht.due?]) h.tasks 0
  rw [Scheduler.next?, Scheduler.next?, hdue]

/-- A task is made in both, or refused in both. -/
theorem schedule (h : s.Abreast s') (owner : Option Nat) (timing : Timing)
    {body body' : Nat → Program} (hbody : ∀ run, Program.Abreast (body run) (body' run)) :
    (∃ err, s.schedule owner timing body = .error err ∧
      s'.schedule owner timing body' = .error err) ∨
      ∃ task m m', s.schedule owner timing body = .ok (task, m) ∧
        s'.schedule owner timing body' = .ok (task, m') ∧ m.Abreast m' := by
  unfold Scheduler.schedule
  rw [← h.tasks.length_eq]
  dsimp only
  rw [← h.now]
  -- whether a timing is refused depends on the time alone
  cases timing.check s.now with
  | error err => exact .inl ⟨err, rfl, rfl⟩
  | ok _ =>
    refine .inr ⟨_, _, _, rfl, rfl, rfl, List.rel_append h.tasks (.cons ?_ .nil)⟩
    exact ⟨rfl, rfl, rfl, rfl, rfl, rfl, rfl, rfl, hbody⟩

end Scheduler.Abreast

/-! ### Engines -/

/-- What is said aside: to the log, to the host, and of the workers. -/
def Entry.isAside : Entry → Bool
  | .logged _ => true
  | .sent _ => true
  | .worked _ => true
  | _ => false

/-- What has happened, the latest first, but for what is said aside. -/
def Journal.course (j : Journal) : Journal := j.filter (!·.isAside)

/-- All that the accepted jobs do is to deliver messages. -/
def Pool.Delivers (pool : Pool Program) : Prop := ∀ job ∈ pool.jobs, job.work.Delivers

namespace Engine

/-- **Engines that go abreast**: nothing but the worker pools and what is said aside differs. -/
structure Abreast (e e' : Engine) : Prop where
  maxHops : e.config.maxHops = e'.config.maxHops
  registry : Registry.Abreast e.registry e'.registry
  catalog : e.catalog = e'.catalog
  store : e.store = e'.store
  scheduler : e.scheduler.Abreast e'.scheduler
  graphs : List.Forall₂ Graph.Abreast e.graphs e'.graphs
  live : e.live = e'.live
  hooks : e.hooks = e'.hooks
  dice : e.dice = e'.dice
  drawn : e.drawn = e'.drawn
  course : e.journal.course = e'.journal.course
  pool : e.pool.Delivers
  pool' : e'.pool.Delivers

/-- What happens aside, in the pool, in the log and at the sink. -/
inductive Aside (e : Engine) : Engine → Prop
  | mk (said : Journal) (pool : Pool Program) (hsaid : ∀ entry ∈ said, entry.isAside = true)
      (hpool : e.pool.Delivers → pool.Delivers) :
      Aside e { e with journal := said ++ e.journal, pool := pool }

end Engine

/-- How runs end side by side: with the same answer, or both broken off, and then the engines go
abreast; or neither comes to an end. -/
inductive Run.Abreast {α : Type} : Run α → Run α → Prop
  | returned (a : α) {e e' : Engine} (h : e.Abreast e') : Abreast (.returned a e) (.returned a e')
  | panicked {e e' : Engine} (h : e.Abreast e') : Abreast (.panicked e) (.panicked e')
  | diverged : Abreast .diverged .diverged

namespace Run.Abreast

variable {α β : Type} {r r' : Run α}

/-- Runs abreast that go on abreast are so as a whole. -/
theorem bind {k k' : α → Engine → Run β} (h : r.Abreast r')
    (hk : ∀ a m m', m.Abreast m' → (k a m).Abreast (k' a m')) :
    (r.bind k).Abreast (r'.bind k') := by
  cases h with
  | returned a hm => exact hk a _ _ hm
  | panicked hm => exact .panicked hm
  | diverged => exact .diverged

theorem map (f : α → β) (h : r.Abreast r') : (r.map f).Abreast (r'.map f) :=
  h.bind fun a _ _ hm => .returned (f a) hm

/-- What mends broken runs may change both engines in step. -/
theorem onPanic {f : Engine → Engine} (h : r.Abreast r')
    (hf : ∀ m m', m.Abreast m' → (f m).Abreast (f m')) : (r.onPanic f).Abreast (r'.onPanic f) := by
  cases h with
  | returned a hm => exact .returned a hm
  | panicked hm => exact .panicked (hf _ _ hm)
  | diverged => exact .diverged

end Run.Abreast

namespace Engine

variable {e e' m m' : Engine}

/-! ### What happens aside -/

theorem Aside.refl (e : Engine) : Aside e e := .mk [] e.pool (List.forall_mem_nil _) id

/-- What goes on aside twice goes on aside. -/
theorem Aside.trans (h : Aside e m) (h' : Aside m m') : Aside e m' := by
  obtain ⟨said, pool, hsaid, hpool⟩ := h
  obtain ⟨said', pool', hsaid', hpool'⟩ := h'
  have hboth := Aside.mk (e := e) (said' ++ said) pool'
    (List.forall_mem_append.mpr ⟨hsaid', hsaid⟩) (hpool' ∘ hpool)
  -- what was said later stands in front
  rw [List.append_assoc] at hboth
  exact hboth

/-- An entry that no course tells of. -/
theorem Aside.record (e : Engine) {entry : Entry} (h : entry.isAside = true) :
    Aside e (e.record entry) :=
  .mk [entry] e.pool (List.forall_mem_singleton.mpr h) id

theorem Aside.log (e : Engine) (line : LogLine) : Aside e (e.log line) := .record e rfl

/-- The log is no part of the course. -/
theorem Aside.logAll (e : Engine) (lines : List LogLine) : Aside e (e.logAll lines) := by
  rw [logAll_eq]
  refine .mk _ e.pool (fun entry hentry => ?_) id
  obtain ⟨line, -, rfl⟩ := List.mem_map.mp (List.mem_reverse.mp hentry)
  rfl

/-- The pool is no part of the course, as long as its jobs deliver. -/
theorem Aside.pool (e : Engine) {pool : Pool Program} (h : e.pool.Delivers → pool.Delivers) :
    Aside e { e with pool := pool } :=
  .mk [] pool (List.forall_mem_nil _) h

/-- A job that delivers a message is accepted or refused. -/
theorem Aside.submit (e : Engine) {job : Program} (hjob : job.Delivers) :
    Aside e (e.submit job).2 := by
  unfold Engine.submit
  split
  · next pool hsubmit =>
    -- the one job that is new delivers a message
    obtain ⟨-, -, rfl⟩ := Pool.of_submit hsubmit
    exact .pool e fun hpool =>
      List.forall_mem_append.mpr ⟨hpool, List.forall_mem_singleton.mpr hjob⟩
  · -- a full pool is reported
    exact .log e _
  · exact .refl e

/-- **A delivery happens aside**, whichever way it ends. -/
theorem Aside.of_delivers {nested : (c : Command) → Engine → Run c.Answer} {p : Program}
    (hp : p.Delivers) (e : Engine) : (exec nested p e).Ends (fun _ => Aside e) (Aside e) := by
  -- on the way to its end the program only adds entries that are aside
  induction hp generalizing e with
  | finish vars next => exact .refl e
  | fail err => exact .refl e
  | panic => exact .refl e
  | log line _ ih =>
    have hlog : Aside e (e.log line) := .log e line
    exact (ih (e.log line)).mono (fun _ _ => hlog.trans) fun _ => hlog.trans
  | send text _ ih =>
    have hsent : Aside e (e.record (.sent text)) := .record e rfl
    exact (ih (e.record (.sent text))).mono (fun _ _ => hsent.trans) fun _ => hsent.trans

/-- Entries aside add nothing to the course. -/
theorem course_append {said : Journal} (hsaid : ∀ entry ∈ said, entry.isAside = true)
    (j : Journal) : Journal.course (said ++ j) = j.course := by
  have hnone : said.filter (!·.isAside) = [] :=
    List.filter_eq_nil_iff.mpr fun entry hentry => by rw [hsaid entry hentry]; exact nofun
  rw [Journal.course, List.filter_append, hnone]
  rfl

/-- **What happens aside in one engine does not keep it from going abreast with another.** -/
theorem Abreast.left (h : Abreast e e') (ha : Aside e m) : Abreast m e' := by
  obtain ⟨said, pool, hsaid, hpool⟩ := ha
  -- the course is the same without the entries aside
  exact { h with course := (course_append hsaid e.journal).trans h.course, pool := hpool h.pool }

/-- The second engine may go on by itself with what is aside. -/
theorem Abreast.right (h : Abreast e e') (ha : Aside e' m') : Abreast e m' := by
  obtain ⟨said, pool, hsaid, hpool⟩ := ha
  exact { h with
    course := h.course.trans (course_append hsaid e'.journal).symm, pool' := hpool h.pool' }

/-! ### What engines have that go abreast -/

theorem Abreast.now (h : Abreast e e') : e.now = e'.now := h.scheduler.now

/-- The graphs of one number are abreast. -/
theorem Abreast.graph (h : Abreast e e') (g : GraphId) :
    Graph.Abreast (e.graph g) (e'.graph g) := by
  have hg := rel_getElem? h.graphs g
  rw [Engine.graph, Engine.graph]
  generalize e.graphs[g]? = graph at hg ⊢
  generalize e'.graphs[g]? = graph' at hg ⊢
  -- a graph that is not there has neither nodes nor listeners
  cases hg with
  | none => exact .bare rfl rfl
  | some hg => exact hg

/-- The live graphs are abreast. -/
theorem Abreast.liveGraph (h : Abreast e e') : Graph.Abreast e.liveGraph e'.liveGraph := by
  rw [Engine.liveGraph, Engine.liveGraph, ← h.live]
  exact h.graph e.live

/-- A graph can be asked for in both engines or in neither. -/
theorem Abreast.reaches (h : Abreast e e') (g : GraphId) : e.reaches g = e'.reaches g := by
  rw [Engine.reaches, Engine.reaches, h.hooks, h.live]

/-- The nodes of a graph are the same, though their behaviours need not be. -/
theorem Abreast.nodes (h : Abreast e e') (g : GraphId) :
    (e.graph g).nodes.map (·.node) = (e'.graph g).nodes.map (·.node) := by
  have hnodes := List.rel_map (P := Eq) (fun _ _ hn => hn.node) (h.graph g).nodes
  rwa [List.forall₂_eq_eq_eq] at hnodes

/-! ### Changes that are made to both -/

/-- An entry in both journals. -/
theorem Abreast.record (h : Abreast e e') (entry : Entry) :
    Abreast (e.record entry) (e'.record entry) := by
  refine { h with course := ?_ }
  show Journal.course (entry :: e.journal) = Journal.course (entry :: e'.journal)
  rw [Journal.course, Journal.course, List.filter_cons, List.filter_cons]
  -- either the entry belongs to the course of both, or to that of neither
  split
  · exact congrArg (entry :: ·) h.course
  · exact h.course

/-- Schedulers abreast take the place of schedulers abreast. -/
theorem Abreast.withScheduler (h : Abreast e e') {s s' : Scheduler (Nat → Program)}
    (hs : s.Abreast s') : Abreast { e with scheduler := s } { e' with scheduler := s' } :=
  { h with scheduler := hs }

/-- The same store takes the place of the same store. -/
theorem Abreast.withStore (h : Abreast e e') {store store' : Store} (hstore : store = store') :
    Abreast { e with store := store } { e' with store := store' } :=
  { h with store := hstore }

/-- The nodes of the same graph begin or cease to run. -/
theorem Abreast.withHooks (h : Abreast e e') (hooks : Option GraphId) :
    Abreast { e with hooks := hooks } { e' with hooks := hooks } :=
  { h with hooks := rfl }

/-- A graph is changed in step. -/
theorem Abreast.modifyGraph (h : Abreast e e') (g : GraphId) {f f' : Graph → Graph}
    (hf : ∀ graph graph', Graph.Abreast graph graph' → Graph.Abreast (f graph) (f' graph')) :
    Abreast (e.modifyGraph g f) (e'.modifyGraph g f') :=
  { h with graphs := rel_modify hf h.graphs g }

/-- Graphs abreast get the same number. -/
theorem Abreast.addGraph (h : Abreast e e') {graph graph' : Graph}
    (hg : Graph.Abreast graph graph') : Abreast (e.addGraph graph).2 (e'.addGraph graph').2 :=
  { h with graphs := List.rel_append h.graphs (.cons hg .nil) }

/-- Engines go abreast whatever they log. -/
theorem Abreast.log (h : Abreast e e') (line line' : LogLine) :
    Abreast (e.log line) (e'.log line') :=
  (h.left (.log e line)).right (.log e' line')

/-- What is logged need not be the same, since the course does not tell of it. -/
theorem Abreast.logAll (h : Abreast e e') (lines lines' : List LogLine) :
    Abreast (e.logAll lines) (e'.logAll lines') :=
  (h.left (.logAll e lines)).right (.logAll e' lines')

/-! ### Requests -/

/-- A task is tracked by both graphs, or cancelled because they are gone. -/
theorem Abreast.track (h : Abreast e e') (g : GraphId) (task : TaskId) :
    Abreast (e.track g task) (e'.track g task) := by
  have hg := h.graph g
  by_cases hd : (e.graph g).dropped = true
  · rw [track_of_dropped task hd, track_of_dropped task (hg.dropped ▸ hd)]
    exact (h.withScheduler (h.scheduler.cancel task)).log _ _
  by_cases hc : (e.graph g).tasks.closed = true
  · rw [track_of_closed task hd hc, track_of_closed task (hg.dropped ▸ hd) (hg.tasks ▸ hc),
      hg.tasks]
    refine Abreast.log (Abreast.modifyGraph (h.withScheduler (h.scheduler.cancel task)) g ?_) _ _
    exact fun _ _ hgraph => { hgraph with tasks := rfl }
  · rw [track_of_open task hd hc, track_of_open task (hg.dropped ▸ hd) (hg.tasks ▸ hc), hg.tasks]
    -- a task that has ended makes room in both registries
    have hended : (!e.scheduler.isEnded ·) = (!e'.scheduler.isEnded ·) := by
      funext id
      rw [h.scheduler.isEnded id]
    rw [hended]
    exact h.modifyGraph g fun _ _ hgraph => { hgraph with tasks := rfl }

/-- An action answers the same in both engines. -/
theorem Abreast.act (h : Abreast e e') (a : Action) : (e.act a).Abreast (e'.act a) := by
  cases a with
  | note text =>
    rw [Engine.act, Engine.act, ← h.now]
    exact .returned () (h.record _)
  | log line => exact .returned () (h.log line line)
  | send text => exact .returned () (h.record _)
  | draw low high =>
    -- equal dice after equally many draws give the same number
    have hx : e'.dice e'.drawn low high = e.dice e.drawn low high := by rw [h.dice, h.drawn]
    rw [Engine.act, Engine.act, hx]
    exact .returned _ { h with drawn := congrArg (· + 1) h.drawn }
  | cancel task => exact .returned () (h.withScheduler (h.scheduler.cancel task))
  | inspect task =>
    rw [Engine.act, Engine.act, ← h.scheduler.isCancelled, ← h.scheduler.isEnded]
    exact .returned _ h
  | remove g key l =>
    -- listeners that stand abreast have one number, so the same one is meant in both
    have hids : ∀ a b, Listener.Abreast a b → decide (a.id = l) = decide (b.id = l) :=
      fun a b hab => by
      rw [hab.id]
    have hls := (h.graph g).listeners
    rw [Engine.act, Engine.act, ← h.reaches g]
    split
    · dsimp only
      rw [Bus.fst_remove, Bus.fst_remove, ← any_eq_of_rel hids (hls key)]
      refine .returned _ (h.modifyGraph g fun _ _ hgraph =>
        { hgraph with listeners := fun k => ?_ })
      rw [Bus.listeners_remove, Bus.listeners_remove]
      split
      · exact rel_eraseP hids (hls k)
      · exact hls k
    · exact .diverged
  | withdraw g l =>
    rw [Engine.act, Engine.act, ← h.reaches g]
    split
    · refine .returned () (h.modifyGraph g fun _ _ hgraph =>
        { hgraph with listeners := fun k => ?_ })
      -- the listener is taken out under every key
      rw [Bus.listeners_withdraw, Bus.listeners_withdraw]
      exact List.rel_filter (fun a b hab => by simp only [hab.id]) (hgraph.listeners k)
    · exact .diverged
  | live =>
    rw [Engine.act, Engine.act, ← h.hooks, ← h.live]
    split
    · exact .returned _ h
    · exact .diverged

/-- Listeners abreast are registered with graphs abreast. -/
theorem Abreast.subscribe (h : Abreast e e') (g : GraphId) (key : EventKey)
    {l l' : Listener Reaction} (hl : Listener.Abreast l l') :
    (e.subscribe g key l).Abreast (e'.subscribe g key l') := by
  rw [Engine.subscribe, Engine.subscribe, ← h.reaches g]
  split
  · -- a dropped graph takes no listener, and it is dropped on both sides
    refine .returned () (h.modifyGraph g fun graph graph' hgraph => ?_)
    by_cases hd : graph.dropped = true
    · rw [if_pos hd, if_pos (hgraph.dropped ▸ hd)]
      exact hgraph
    · rw [if_neg hd, if_neg (hgraph.dropped ▸ hd)]
      refine { hgraph with listeners := fun k => ?_ }
      rw [Bus.listeners_on, Bus.listeners_on]
      split
      · exact List.rel_append (hgraph.listeners k) (.cons hl .nil)
      · exact hgraph.listeners k
  · exact .diverged

/-- Tasks with bodies abreast are made or refused in both. -/
theorem Abreast.schedule (h : Abreast e e') (g : GraphId) (timing : Timing)
    {body body' : Nat → Program} (hbody : ∀ run, Program.Abreast (body run) (body' run)) :
    (e.schedule g timing body).Abreast (e'.schedule g timing body') := by
  rw [Engine.schedule, Engine.schedule, ← h.reaches g]
  split
  · obtain ⟨err, hs, hs'⟩ | ⟨task, s, s', hs, hs', hsched⟩ :=
      h.scheduler.schedule (some g) timing hbody
    · -- both refuse the timing, and nothing has changed
      rw [hs, hs']
      exact .returned _ h
    · rw [hs, hs']
      exact .returned _ ((h.withScheduler hsched).track g task)
  · exact .diverged

/-- Jobs are handed in, of which either may be refused. -/
theorem Abreast.submit (h : Abreast e e') {job job' : Program} (hjob : job.Delivers)
    (hjob' : job'.Delivers) : Abreast (e.submit job).2 (e'.submit job').2 :=
  (h.left (.submit e hjob)).right (.submit e' hjob')

/-! ### Programs -/

/-- What runs nested commands, in engines that go abreast. -/
def NestedAbreast (nested nested' : (c : Command) → Engine → Run c.Answer) : Prop :=
  ∀ c m m', Abreast m m' → (nested c m).Abreast (nested' c m')

/-- **Programs that ask for the same run alike.** -/
theorem exec_abreast {nested nested' : (c : Command) → Engine → Run c.Answer}
    (hnested : NestedAbreast nested nested') {p p' : Program} (hp : p.Abreast p')
    (h : Abreast e e') : (exec nested p e).Abreast (exec nested' p' e') := by
  -- each request is answered alike and leaves engines that go abreast, for the rest of the programs
  induction hp generalizing e e' with
  | finish vars next => exact .returned _ h
  | fail err => exact .returned _ h
  | panic => exact .panicked h
  | act a _ ih => exact (h.act a).bind fun answer _ _ hm => ih answer hm
  | schedule g timing hbody _ _ ih =>
    exact (h.schedule g timing hbody).bind fun answer _ _ hm => ih answer hm
  | @subscribe g key l reaction reaction' _ _ hreaction _ _ ih =>
    have hl : Listener.Abreast ⟨l, reaction⟩ ⟨l, reaction'⟩ := ⟨rfl, hreaction⟩
    exact (h.subscribe g key hl).bind fun _ _ _ hm => ih hm
  | submit hjob hjob' _ ih => exact ih _ _ (h.submit hjob hjob')
  | call c _ ih => exact (hnested c e e' h).bind fun answer _ _ hm => ih answer hm
  -- only one of the engines goes on, and that is aside
  | logLeft line _ ih => exact ih (h.left (.log e line))
  | logRight line _ ih => exact ih (h.right (.log e' line))

end Engine

end Flowgraph
