import Flowgraph.Builtin.Types
import Flowgraph.Proofs.Run.Requests

/-!
# How walks pass the built-in nodes

A node of a built-in type does one of three things with a walk that enters it: it lets the walk go
on, it hands the rest of the walk to a task, or it fails. Which one, and with which variables, hangs
on the node, the variables of the walk and at most one draw, and on nothing else: the clock, the
worker pool and other walks have no part in it.

* `Program.Passes` — what a program comes to, whatever it is answered but for the draw.
* `Program.Passes.exec` — running such a program comes to that.
* `Builtin.Role` — the ways in which built-in node types execute. What a node reads from its fields
  comes first (`Builtin.Role.effect`), and where its output leads to last (`Builtin.Role.passage`).
-/

namespace Flowgraph

/-- What a draw gives, for each range. -/
abbrev Roll := Float → Float → Float

/-- What a node does with a walk that has entered it. -/
inductive Passage where
  | onward (vars : Variables) (next : Option String)
  /-- The walk ends, and a task goes on with the rest of it after a delay. -/
  | handed (delay : Duration) (next : String)
  | failed (err : WorkflowError)

/-- The node that comes next, whether at once or later. -/
def Passage.next? : Passage → Option String
  | .onward _ next => next
  | .handed _ next => some next
  | .failed _ => none

namespace Program

/-- A program lets a walk pass in a way. The draws say whether it makes one, which gives `roll`. -/
inductive Passes (w : Walk) (roll : Roll) : Program → Passage → Bool → Prop
  | finish (vars : Variables) (next : Option String) :
      Passes w roll (.finish vars next) (.onward vars next) false
  | fail (err : WorkflowError) : Passes w roll (.fail err) (.failed err) false
  | log (line : LogLine) {p : Program} {passage : Passage} {draws : Bool}
      (h : Passes w roll p passage draws) : Passes w roll (.log line p) passage draws
  | draw (low high : Float) {k : Float → Program} {passage : Passage}
      (h : Passes w roll (k (roll low high)) passage false) :
      Passes w roll (.act (.draw low high) k) passage true
  /-- Whether the job is accepted makes no difference. -/
  | submit (job : Program) {k : Except SchedulingError Unit → Program} {passage : Passage}
      {draws : Bool} (h : ∀ answer, Passes w roll (k answer) passage draws) :
      Passes w roll (.submit job k) passage draws
  | hand (delay : Duration) (next : String) :
      Passes w roll (.schedule w.graph (.once delay) (fun _ => .walkOn w next) fun _ =>
        .finish w.vars none) (.handed delay next) false

end Program

namespace Engine

/-- A task is there to go on with a walk, once, at a time. -/
structure Continues (t : Task (Nat → Program)) (w : Walk) (next : String) (due : Nat) : Prop where
  body : t.body = fun _ => .walkOn w next
  owner : t.owner = some w.graph
  once : ∃ delay, t.timing = .once delay ∧ t.created + delay.ceilMillis = due

/-- A task is still to go on with a walk, unless it is cancelled. -/
structure Carries (t : Task (Nat → Program)) (w : Walk) (next : String) (due : Nat) : Prop
    extends Continues t w next due where
  runs : t.runs = 0
  running : t.running = false
  ended : t.ended = false

/-- How a program ends that lets a walk pass. -/
inductive Passed (w : Walk) (e m : Engine) : Passage → Except WorkflowError Flowgraph.Step → Prop
  | onward (vars : Variables) (next : Option String) (h : m.scheduler = e.scheduler) :
      Passed w e m (.onward vars next) (.ok ⟨vars, next⟩)
  /-- Whether the graph was dropped, and so the task cancelled, makes no difference here. -/
  | handed (delay : Duration) (next : String) {t : Task (Nat → Program)}
      (hlen : m.scheduler.tasks.length = e.scheduler.tasks.length + 1)
      (ht : m.scheduler.task? (e.scheduler.tasks.length + 1) = some t)
      (hcarries : Carries t w next (e.now + delay.ceilMillis)) :
      Passed w e m (.handed delay next) (.ok ⟨w.vars, none⟩)
  | failed (err : WorkflowError) (h : m.scheduler = e.scheduler) :
      Passed w e m (.failed err) (.error err)

/-- Nothing but the pool, the journal and the number of draws changes when a walk passes a node, and
the scheduler gains the task that goes on with it. -/
structure Passing (e m : Engine) (draws : Bool) : Prop where
  moves : Moves e m
  visits : m.visits = e.visits
  dice : m.dice = e.dice
  drawn : m.drawn = e.drawn + draws.toNat

theorem Passing.refl (e : Engine) : Passing e e false := ⟨.refl, rfl, rfl, rfl⟩

theorem Passing.log (e : Engine) (line : LogLine) : Passing e (e.log line) false :=
  ⟨.single (.log e line), visits_log e line, rfl, rfl⟩

/-- There is at most one draw on the way. -/
theorem Passing.before {e m m' : Engine} {draws : Bool} (h : Passing e m false)
    (h' : Passing m m' draws) : Passing e m' draws where
  moves := h.moves.trans h'.moves
  visits := h'.visits.trans h.visits
  dice := h'.dice.trans h.dice
  drawn := by rw [h'.drawn, h.drawn]; rfl

theorem Passing.after_draw {e m' : Engine} (h : Passing { e with drawn := e.drawn + 1 } m' false) :
    Passing e m' true where
  moves := .head (.draw e) h.moves
  visits := h.visits
  dice := h.dice
  drawn := h.drawn

theorem passing_submit (e : Engine) (job : Program) : Passing e (e.submit job).2 false := by
  have hmoves := (submit_moves e job).moves
  unfold submit at hmoves ⊢
  split at hmoves
  · exact ⟨hmoves, rfl, rfl, rfl⟩
  · exact .log e _
  · exact .refl e

theorem scheduler_submit (e : Engine) (job : Program) :
    (e.submit job).2.scheduler = e.scheduler := by
  unfold submit
  split <;> rfl

theorem supply_track (e : Engine) (g : GraphId) (task : TaskId) :
    (e.track g task).dice = e.dice ∧ (e.track g task).drawn = e.drawn := by
  obtain ⟨_, _, _, -, -, htrack⟩ := track_eq e g task
  rw [htrack]
  exact ⟨rfl, rfl⟩

/-- A walk hands the rest of itself to a task. -/
theorem schedule_once (e : Engine) (w : Walk) (delay : Duration) (next : String)
    (hreach : e.reaches w.graph = true) :
    ∃ answer m, e.schedule w.graph (.once delay) (fun _ => .walkOn w next) = .returned answer m ∧
      Passing e m false ∧ Passed w e m (.handed delay next) (.ok ⟨w.vars, none⟩) := by
  let t : Task (Nat → Program) :=
    { timing := .once delay, created := e.now, owner := some w.graph,
      body := fun _ => .walkOn w next }
  let s : Scheduler (Nat → Program) := { e.scheduler with tasks := e.scheduler.tasks ++ [t] }
  let id := e.scheduler.tasks.length + 1
  have hs : e.scheduler.schedule (some w.graph) (.once delay) (fun _ => .walkOn w next) =
      .ok (id, s) := rfl
  have hschedule : e.schedule w.graph (.once delay) (fun _ => .walkOn w next) =
      .returned (.ok id) ({ e with scheduler := s }.track w.graph id) := by
    rw [Engine.schedule, if_pos hreach, hs]
  have hmove : Move e ({ e with scheduler := s }.track w.graph id) :=
    .schedule e w.graph _ _ id s hreach hs
  have hvisits := (Gains.track (P := fun _ => True) (B := fun _ => True)
    { e with scheduler := s } w.graph id).entered
  obtain ⟨hdice, hdrawn⟩ := supply_track { e with scheduler := s } w.graph id
  refine ⟨_, _, hschedule, ⟨.single hmove, hvisits, hdice, hdrawn⟩, ?_⟩
  have hnew : s.task? id = some t := List.getElem?_concat_length ..
  have hlen : s.tasks.length = e.scheduler.tasks.length + 1 := List.length_append
  rcases scheduler_track { e with scheduler := s } w.graph id with hm | hm
  · -- a dropped graph gains no task, so it is cancelled
    refine .handed delay next (t := { t with cancelled := true }) ?_ ?_
      ⟨⟨rfl, rfl, delay, rfl, rfl⟩, rfl, rfl, rfl⟩
    · rw [hm]
      exact (Scheduler.length_modify ..).trans hlen
    · rw [hm]
      show (s.cancel id).task? id = _
      rw [Scheduler.cancel, Scheduler.task?_modify_self, hnew]
      rfl
  · refine .handed delay next (t := t) ?_ ?_ ⟨⟨rfl, rfl, delay, rfl, rfl⟩, rfl, rfl, rfl⟩
    · rw [hm]
      exact hlen
    · rw [hm]
      exact hnew

/-- What comes before a passage leaves the tasks alone. -/
theorem Passed.after {w : Walk} {e m m' : Engine} {passage : Passage}
    {r : Except WorkflowError Flowgraph.Step} (hp : Passed w m m' passage r)
    (h : m.scheduler = e.scheduler) : Passed w e m' passage r := by
  have hnow : m.now = e.now := congrArg Scheduler.now h
  cases hp with
  | onward vars next hs => exact .onward vars next (hs.trans h)
  | failed err hs => exact .failed err (hs.trans h)
  | handed delay next hlen ht hcarries =>
    rw [h] at hlen ht
    rw [hnow] at hcarries
    exact .handed delay next hlen ht hcarries

end Engine

section Exec

open Engine

variable {nested : (c : Command) → Engine → Run c.Answer} {w : Walk} {roll : Roll} {p : Program}
  {passage : Passage} {draws : Bool}

/-- **Running a program that lets a walk pass comes to the passage**, unless the graph of the walk
cannot be asked for. -/
theorem Program.Passes.exec (h : p.Passes w roll passage draws) {e : Engine}
    (hroll : draws = true → roll = e.dice e.drawn) :
    (∃ r m, Engine.exec nested p e = .returned r m ∧ Passing e m draws ∧ Passed w e m passage r) ∨
      (e.reaches w.graph = false ∧ Engine.exec nested p e = .diverged) := by
  induction h generalizing e with
  | finish vars next => exact .inl ⟨_, e, rfl, .refl e, .onward vars next rfl⟩
  | fail err => exact .inl ⟨_, e, rfl, .refl e, .failed err rfl⟩
  | log line _ ih =>
    refine (ih (e := e.log line) hroll).imp_left ?_
    rintro ⟨r, m, hexec, hpassing, hpassed⟩
    exact ⟨r, m, hexec, (Passing.log e line).before hpassing, hpassed.after rfl⟩
  | draw low high _ ih =>
    -- the one draw that there is gives what was foreseen
    rw [hroll rfl] at ih
    refine (ih (e := { e with drawn := e.drawn + 1 }) nofun).imp_left ?_
    rintro ⟨r, m, hexec, hpassing, hpassed⟩
    exact ⟨r, m, hexec, hpassing.after_draw, hpassed.after rfl⟩
  | submit job _ ih =>
    have hsubmit := passing_submit e job
    have hframe := hsubmit.moves.frame
    have hreach : (e.submit job).2.reaches w.graph = e.reaches w.graph := by
      rw [reaches, hframe.hooks, hframe.live]
      rfl
    rw [← hreach]
    refine (ih (e.submit job).1 (e := (e.submit job).2) fun hd => ?_).imp_left ?_
    · rw [hroll hd, hsubmit.dice, hsubmit.drawn]
      rfl
    · rintro ⟨r, m, hexec, hpassing, hpassed⟩
      exact ⟨r, m, hexec, hsubmit.before hpassing, hpassed.after (scheduler_submit e job)⟩
  | hand delay next =>
    cases hreach : e.reaches w.graph with
    | false =>
      refine .inr ⟨rfl, ?_⟩
      rw [Engine.exec, Engine.schedule, if_neg (by rw [hreach]; exact Bool.false_ne_true)]
      rfl
    | true =>
      obtain ⟨answer, m, hschedule, hpassing, hpassed⟩ := schedule_once e w delay next hreach
      refine .inl ⟨_, m, ?_, hpassing, hpassed⟩
      rw [Engine.exec, hschedule]
      rfl

theorem Program.Passes.returns (h : p.Passes w roll passage draws) {e : Engine}
    (hroll : draws = true → roll = e.dice e.drawn) (hreach : e.reaches w.graph = true) :
    ∃ r m, Engine.exec nested p e = .returned r m ∧ Passing e m draws ∧ Passed w e m passage r := by
  rcases h.exec hroll with h | ⟨hno, -⟩
  · exact h
  · rw [hreach] at hno
    cases hno

theorem Program.Passes.returned (h : p.Passes w roll passage draws) {e m : Engine}
    {r : Except WorkflowError Step} (hroll : draws = true → roll = e.dice e.drawn)
    (hexec : Engine.exec nested p e = .returned r m) :
    Passing e m draws ∧ Passed w e m passage r := by
  rcases h.exec hroll with ⟨r', m', hexec', h⟩ | ⟨-, hexec'⟩
  · rw [hexec] at hexec'
    cases hexec'
    exact h
  · rw [hexec] at hexec'
    cases hexec'

end Exec

/-! ### The built-in node types -/

namespace Builtin

/-- What a node makes of the variables of a walk, before it looks where its output leads to. -/
inductive Effect where
  | pass (vars : Variables)
  | delay (d : Duration)

/-- Where a walk goes, by what a node makes of its variables and where the node's output leads. -/
def Effect.passage (vars : Variables) (next : Except WorkflowError (Option String)) :
    Except WorkflowError Effect → Passage
  | .error err => .failed err
  | .ok (.pass vars) =>
    match next with
    | .error err => .failed err
    | .ok next => .onward vars next
  | .ok (.delay d) =>
    match next with
    | .error err => .failed err
    | .ok none => .onward vars none
    | .ok (some next) => .handed d next

/-- The node that a walk goes on to, now or later, is the one behind the output. -/
theorem Effect.next_of_passage {vars : Variables} {next : Except WorkflowError (Option String)}
    {effect : Except WorkflowError Effect} {id : String}
    (h : (Effect.passage vars next effect).next? = some id) : next = .ok (some id) := by
  cases effect with
  | error err => cases h
  -- an effect changes the variables or the time, not the next node
  | ok effect =>
    cases effect with
    | pass vars =>
      cases next with
      | error err => cases h
      | ok next => exact congrArg Except.ok h
    | delay d =>
      cases next with
      | error err => cases h
      | ok next =>
        cases next with
        | none => cases h
        | some next => exact congrArg Except.ok h

/-- How nodes of the built-in types execute. Triggers just let a walk pass. -/
inductive Role where
  | plain
  | wait
  | random
  | chat
  | whisper

namespace Role

/-- What a node of a role does when a walk enters it. -/
def execute (sink : Sink) : Role → NodeInstance → Walk → Program
  | .plain => fun n w => .attempt n.next fun next => .finish w.vars next
  | .wait => Wait.execute
  | .random => MathRandom.execute
  | .chat => Chat.execute sink
  | .whisper => Chat.executeWhisper sink

/-- Whether there is something to draw. -/
def isOpen : MathRandom.Choices → Bool
  | .one _ => false
  | .range _ _ => true

/-- The number that is chosen. -/
def chosen (roll : Roll) : MathRandom.Choices → Float
  | .one x => x
  | .range low high => roll low high

/-- Whether the numbers that a node reads leave it something to draw. -/
def draws (n : NodeInstance) (vars : Variables) : Role → Bool
  | .random =>
    match n.readDouble MathRandom.minField vars, n.readDouble MathRandom.maxField vars with
    | .ok min, .ok max => isOpen (MathRandom.choices min max)
    | _, _ => false
  | _ => false

/-- A number is published. -/
def published (n : NodeInstance) (vars : Variables) (x : Float) : Except WorkflowError Effect :=
  (n.publisher MathRandom.resultField).map fun p => .pass (p.publish vars (.number x))

/-- What a node reads from its fields and makes of it. -/
def effect (n : NodeInstance) (vars : Variables) (roll : Roll) : Role → Except WorkflowError Effect
  | .plain => .ok (.pass vars)
  | .wait => (n.readSeconds Wait.delayField vars).map .delay
  | .random =>
    (n.readDouble MathRandom.minField vars).bind fun min =>
    (n.readDouble MathRandom.maxField vars).bind fun max =>
    published n vars (chosen roll (MathRandom.choices min max))
  | .chat => (n.readString Chat.messageField vars).map fun _ => .pass vars
  | .whisper =>
    (n.readString Chat.playerField vars).bind fun _ =>
    (n.readString Chat.messageField vars).map fun _ => .pass vars

/-- How a walk passes a node of a role. -/
def passage (n : NodeInstance) (vars : Variables) (roll : Roll) (role : Role) : Passage :=
  Effect.passage vars n.next (role.effect n vars roll)

/-- What a node does with a walk hangs on its fields and on where its output leads to. -/
theorem effect_congr {n n' : NodeInstance} (h : n.fields = n'.fields) (vars : Variables)
    (roll : Roll) (role : Role) :
    role.effect n vars roll = role.effect n' vars roll ∧
      role.draws n vars = role.draws n' vars := by
  -- what a role reads it reads through these two
  have hconsumer : n.consumer = n'.consumer := by
    funext name
    simp only [NodeInstance.consumer, NodeInstance.field?, h]
  have hproducer : n.producer = n'.producer := by
    funext name
    simp only [NodeInstance.producer, NodeInstance.field?, h]
  cases role <;>
    simp only [effect, draws, published, NodeInstance.readSeconds, NodeInstance.readDouble,
      NodeInstance.readString, NodeInstance.publisher, NodeInstance.read, hconsumer, hproducer,
      and_self]

/-- What a draw gives makes no difference where nothing is drawn. -/
theorem effect_of_not_draws {n : NodeInstance} {vars : Variables} {role : Role}
    (h : role.draws n vars = false) (roll roll' : Roll) :
    role.effect n vars roll = role.effect n vars roll' := by
  cases role with
  | random =>
    unfold draws at h
    unfold effect
    cases hmin : n.readDouble MathRandom.minField vars with
    | error err => rfl
    | ok min =>
      cases hmax : n.readDouble MathRandom.maxField vars with
      | error err => rfl
      | ok max =>
        rw [hmin, hmax] at h
        have h : isOpen (MathRandom.choices min max) = false := h
        -- only the choice depends on the number drawn, and one of a single number does not
        show published n vars (chosen roll _) = published n vars (chosen roll' _)
        cases hchoices : MathRandom.choices min max with
        | one x => rfl
        | range low high =>
          rw [hchoices] at h
          cases h
  -- no other node has any use for the number
  | _ => rfl

/-! #### Programs -/

variable {w : Walk} {roll : Roll}

theorem passes_leave (n : NodeInstance) (vars : Variables) :
    (Program.attempt n.next fun next => .finish vars next).Passes w roll
      (Effect.passage w.vars n.next (.ok (.pass vars))) false := by
  cases hnext : n.next with
  | error err => exact .fail err
  | ok next => exact .finish vars next

theorem passes_dispatch (n : NodeInstance) (job : Program) :
    (Chat.dispatch n w job).Passes w roll (Effect.passage w.vars n.next (.ok (.pass w.vars)))
      false := by
  refine .submit job fun answer => ?_
  -- a job that is refused is reported, and the walk goes on as well
  cases answer with
  | ok _ => exact passes_leave n w.vars
  | error err => exact .log _ (passes_leave n w.vars)

theorem passes_wait (n : NodeInstance) :
    (Wait.execute n w).Passes w roll (passage n w.vars roll .wait) false := by
  rw [Wait.execute, passage, effect]
  cases n.readSeconds Wait.delayField w.vars with
  | error err => exact .fail err
  | ok delay =>
    show Program.Passes w roll (.attempt n.next _)
      (Effect.passage w.vars n.next (.ok (.delay delay))) false
    cases n.next with
    | error err => exact .fail err
    | ok next =>
      cases next with
      -- with nothing behind the output there is no task
      | none => exact .finish w.vars none
      | some next => exact .hand delay next

theorem passes_published (n : NodeInstance) (x : Float) :
    (Program.attempt (n.publisher MathRandom.resultField) fun p =>
      .attempt n.next fun next => .finish (p.publish w.vars (.number x)) next).Passes w roll
        (Effect.passage w.vars n.next (published n w.vars x)) false := by
  rw [published]
  cases n.publisher MathRandom.resultField with
  | error err => exact .fail err
  | ok p => exact passes_leave n _

theorem passes_choose {choices : MathRandom.Choices} {k : Float → Program}
    {passage : Float → Passage} (h : ∀ x, (k x).Passes w roll (passage x) false) :
    Program.Passes w roll (match choices with
      | .one x => k x
      | .range low high => .act (.draw low high) k)
      (passage (chosen roll choices)) (isOpen choices) := by
  cases choices with
  | one x => exact h x
  | range low high => exact .draw low high (h _)

theorem passes_random (n : NodeInstance) :
    (MathRandom.execute n w).Passes w roll (passage n w.vars roll .random)
      (draws n w.vars .random) := by
  rw [MathRandom.execute, passage, effect, draws]
  cases n.readDouble MathRandom.minField w.vars with
  | error err => exact .fail err
  | ok min =>
    cases n.readDouble MathRandom.maxField w.vars with
    | error err => exact .fail err
    | ok max => exact passes_choose (passes_published n)

theorem passes_chat (sink : Sink) (n : NodeInstance) :
    (Chat.execute sink n w).Passes w roll (passage n w.vars roll .chat) false := by
  rw [Chat.execute, passage, effect]
  cases n.readString Chat.messageField w.vars with
  | error err => exact .fail err
  | ok message => exact passes_dispatch n (sink.broadcast message)

theorem passes_whisper (sink : Sink) (n : NodeInstance) :
    (Chat.executeWhisper sink n w).Passes w roll (passage n w.vars roll .whisper) false := by
  rw [Chat.executeWhisper, passage, effect]
  cases n.readString Chat.playerField w.vars with
  | error err => exact .fail err
  | ok player =>
    cases n.readString Chat.messageField w.vars with
    | error err => exact .fail err
    | ok message =>
      show Program.Passes w roll (if _ then _ else _) _ false
      split
      · -- there is nobody to whisper to
        exact .log _ (passes_leave n w.vars)
      · exact passes_dispatch n (sink.whisper player message)

/-- **What a node of a built-in type does with a walk.** -/
theorem passes (sink : Sink) (role : Role) (n : NodeInstance) :
    (role.execute sink n w).Passes w roll (role.passage n w.vars roll) (role.draws n w.vars) := by
  cases role with
  | plain => exact passes_leave n w.vars
  | wait => exact passes_wait n
  | random => exact passes_random n
  | chat => exact passes_chat sink n
  | whisper => exact passes_whisper sink n

end Role

/-- The role of the nodes of a type, by the name of the type. -/
def roleNamed (name : String) : Role :=
  if name = Wait.name then .wait
  else if name = MathRandom.name then .random
  else if name = Chat.metadata.name then .chat
  else if name = Chat.whisperMetadata.name then .whisper
  else .plain

/-- **Every built-in node type plays its role.** -/
theorem execute_eq (sink : Sink) {t : NodeType Behaviour} (ht : t ∈ nodeTypes sink)
    {b : Behaviour} (hb : t.behaviour = some b) :
    b.execute = (roleNamed t.metadata.name).execute sink := by
  have hall : ∀ t ∈ nodeTypes sink, ∀ b, t.behaviour = some b →
      b.execute = (roleNamed t.metadata.name).execute sink := by
    simp only [nodeTypes, List.forall_mem_cons, Option.some.injEq, forall_eq']
    exact ⟨rfl, rfl, rfl, rfl, rfl, rfl, List.forall_mem_nil _⟩
  exact hall t ht b hb

end Builtin

namespace NodeInstance

/-- The role of a node, by its type. -/
def role (n : NodeInstance) : Builtin.Role := Builtin.roleNamed n.nodeType

/-- What a node does with a walk that carries some variables, given what a draw gives. -/
def passage (n : NodeInstance) (vars : Variables) (roll : Roll) : Passage :=
  n.role.passage n vars roll

/-- Whether a node draws for a walk that carries some variables. -/
def draws (n : NodeInstance) (vars : Variables) : Bool := n.role.draws n vars

end NodeInstance

end Flowgraph
