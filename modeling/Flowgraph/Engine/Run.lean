import Flowgraph.Engine.Lifecycle

/-!
# Running programs

`Engine.exec` runs a program, given what answers its commands, and `Engine.call` answers commands by
running programs. The first follows the program and always ends; the second is where a run can go on
for ever, so it is given *fuel*, of which each nested command and each step of a walk takes one.
With too little fuel the run counts as one that does not end.

* A walk enters its pending node, runs its program, and goes on from where the program leads to. The
  guard on the number of hops is tried before the program is run.
* An event is delivered to the listeners that were registered when the delivery began. One that
  fails or breaks off is reported and does not keep the others from being called.
-/

namespace Flowgraph.Engine

/-- Runs a program. -/
def exec (nested : (c : Command) → Engine → Run c.Answer) : Interpreter
  | .finish vars next, e => .returned (.ok ⟨vars, next⟩) e
  | .fail err, e => .returned (.error err) e
  | .panic, e => .panicked e
  | .act a k, e => (e.act a).bind fun answer e => exec nested (k answer) e
  | .schedule g timing body k, e =>
    (e.schedule g timing body).bind fun answer e => exec nested (k answer) e
  | .subscribe g key listener reaction k, e =>
    (e.subscribe g key ⟨listener, reaction⟩).bind fun answer e => exec nested (k answer) e
  | .submit job k, e =>
    let (answer, e) := e.submit job
    exec nested (k answer) e
  | .call c k, e => (nested c e).bind fun answer e => exec nested (k answer) e

/-! ### Events -/

/-- What is reported of a listener that fails. -/
def listenerLog (key : EventKey) (err : WorkflowError) : LogLine :=
  .error ("Listener for " ++ key.text ++ " failed: " ++ err.message)

/-- What is reported of a listener that breaks off. -/
def listenerPanicLog (key : EventKey) : LogLine :=
  .error ("Listener for " ++ key.text ++ " panicked")

/-- Gives an event to listeners, one after another, and counts those that fail. -/
def deliver (run : Interpreter) (event : Event) (before : Bool) :
    List (Listener Reaction) → Engine → Run Nat
  | [], e => .returned 0 e
  | l :: rest, e =>
    match run (l.reaction event before) (e.record (.heard l.id event.key before)) with
    | .returned (.ok _) e => deliver run event before rest e
    | .returned (.error err) e =>
      (deliver run event before rest (e.log (listenerLog event.key err))).map (· + 1)
    | .panicked e =>
      (deliver run event before rest (e.log (listenerPanicLog event.key))).map (· + 1)
    | .diverged => .diverged

/-- Fires an event at the live graph, and counts the listeners that failed. -/
def fire (run : Interpreter) (event : Event) (before : Bool) (e : Engine) : Run Nat :=
  if e.hooks.isSome then .diverged
  -- the list is taken once: what listeners register or take away shows in the next delivery
  else deliver run event before (e.liveGraph.bus.listeners event.key) e

/-! ### Walks -/

/-- What is reported of a walk that reaches a node that is not there. -/
def strayLog (id : String) : LogLine :=
  .warning ("Walk reached unknown node '" ++ id ++ "', stopping")

/-- What is reported of a walk that has made too many hops. -/
def hopsLog (limit : Nat) (id : String) : LogLine :=
  .error ("Walk exceeded " ++ toString limit ++ " hops at node '" ++ id ++ "'")

/-- The limit, if a number of hops is beyond it. -/
def exceeded? (e : Engine) (hops : UInt32) : Option Nat :=
  e.config.maxHops.filter (· < hops.toNat)

/-- What a walk comes to next. -/
inductive Arrival where
  | over
  | stray (id : String)
  /-- The guard stops the walk. -/
  | stopped (limit : Nat) (id : String)
  | entered (n : LiveNode) (w : Walk)

/-- What becomes of a walk at the node that it is to enter. -/
def arrival (e : Engine) (w : Walk) : Arrival :=
  match w.pending with
  | none => .over
  | some id =>
    match (e.graph w.graph).node? id with
    | none => .stray id
    | some n =>
      -- the count is raised before the guard looks at it, and wraps around
      let hops := w.hops + 1
      match e.exceeded? hops with
      | some limit => .stopped limit id
      | none => .entered n { w with hops := hops, pending := none }

/-- Runs the program of a node that a walk has entered, and says where the walk stands then. -/
def enter (run : Interpreter) (n : LiveNode) (w : Walk) (e : Engine) :
    Run (Except WorkflowError Walk) :=
  (run (n.behaviour.execute n.node w) (e.record (.entered e.now n.id w))).map
    fun r => r.map fun step => { w with vars := step.vars, pending := step.next }

/-! ### Commands -/

/-- Carries out a command. What is run on the way has one unit of fuel less. -/
def call : Nat → (c : Command) → Engine → Run c.Answer
  | 0, _, _ => .diverged
  | fuel + 1, .walk w, e =>
    match e.arrival w with
    | .over => .returned (.ok ()) e
    | .stray id => .returned (.ok ()) (e.log (strayLog id))
    | .stopped limit id =>
      .returned (.error (.hopLimitExceeded limit id)) (e.log (hopsLog limit id))
    | .entered n w =>
      match enter (exec (call fuel)) n w e with
      -- the walk goes on in this place, so its length costs no nesting
      | .returned (.ok w) e => call fuel (.walk w) e
      | .returned (.error err) e => .returned (.error err) e
      | .panicked e => .panicked e
      | .diverged => .diverged
  | fuel + 1, .fire event before, e => fire (exec (call fuel)) event before e
  | fuel + 1, .load c, e => load (exec (call fuel)) c e
  | fuel + 1, .restore, e => restore (exec (call fuel)) e
  | fuel + 1, .clear, e => clear (exec (call fuel)) e

/-- Runs a program for the host. -/
def perform (fuel : Nat) (p : Program) (e : Engine) : Run (Except WorkflowError Step) :=
  exec (call fuel) p e

end Flowgraph.Engine
