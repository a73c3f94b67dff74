import Flowgraph.Engine.Run

/-!
# Time and work

What an engine does on its own: it runs tasks when they are due and jobs when workers get to them. A
body or a job that fails or breaks off is reported, and everything else goes on.

* `Engine.advance` moves the clock and runs what is due on the way.
* `Engine.work` runs the accepted jobs.
* `Engine.shutdown` takes the live graph down and closes the worker pool.
-/

namespace Flowgraph.Engine

/-! ### Tasks -/

/-- Reports how a body or a job ended, if it did not end well. -/
def guarded (r : Run (Except WorkflowError Step)) (failed : WorkflowError → LogLine)
    (panicked : LogLine) : Run Unit :=
  match r with
  | .returned (.ok _) e => .returned () e
  | .returned (.error err) e => .returned () (e.log (failed err))
  | .panicked e => .returned () (e.log panicked)
  | .diverged => .diverged

/-- What is reported of a run that fails. -/
def taskLog (task : TaskId) (err : WorkflowError) : LogLine :=
  .error ("Scheduled task " ++ toString task ++ " failed: " ++ err.message)

/-- What is reported of a run that breaks off. -/
def taskPanicLog (task : TaskId) : LogLine :=
  .error ("Scheduled task " ++ toString task ++ " panicked")

/-- Runs a task. It rests from the end of this run, however that came. -/
def runTask (run : Interpreter) (task : TaskId) (due : Nat) (e : Engine) : Run Unit :=
  match e.scheduler.task? task with
  | none => .returned () e
  | some t =>
    -- the body is given the number of this run, though the run is counted already
    let e := { e with scheduler := e.scheduler.begin task due }
    (guarded (run (t.body t.runs) (e.record (.started e.now task))) (taskLog task)
      (taskPanicLog task)).bind fun _ e =>
        .returned () { e with scheduler := e.scheduler.complete task }

/-- Tasks that were cancelled end. -/
def settle (e : Engine) : Engine := { e with scheduler := e.scheduler.settle }

/-- Moves the clock to a time, running everything that is due up to then. The clock stands still
while a body is under way. -/
def advanceTo (fuel : Nat) (time : Nat) : Nat → Engine → Run Unit
  | 0, _ => .diverged
  | rounds + 1, e =>
    if e.scheduler.resting then
      -- a task that was cancelled since the last round is not run
      let e := e.settle
      match e.scheduler.next? time with
      | none => .returned () { e with scheduler := { e.scheduler with now := max e.now time } }
      | some (task, due) =>
        (runTask (exec (call fuel)) task due e).bind fun _ e => advanceTo fuel time rounds e
    else .diverged

/-- Lets time pass, and runs the tasks that are due meanwhile. -/
def advance (fuel : Nat) (millis : Nat) (e : Engine) : Run Unit :=
  advanceTo fuel (e.now + millis) fuel e

/-! ### Jobs -/

/-- What is reported of a job that fails. -/
def jobLog (err : WorkflowError) : LogLine := .error ("Worker job failed: " ++ err.message)

/-- What is reported of a job that breaks off. -/
def jobPanicLog : LogLine := .error "Worker job panicked"

/-- Runs a job, and frees its worker, however the job has ended. -/
def runJob (run : Interpreter) (job : Job Program) (e : Engine) : Run Unit :=
  (guarded (run job.work (e.record (.worked job.number))) jobLog jobPanicLog).bind
    fun _ e => .returned () { e with pool := e.pool.finish job.number }

/-- Runs accepted jobs until there is none. -/
def workOff (fuel : Nat) : Nat → Engine → Run Unit
  | 0, _ => .diverged
  | rounds + 1, e =>
    match e.pool.jobs with
    | [] => .returned () e
    -- the job stays in the list while it runs and takes itself out at its end
    | job :: _ => (runJob (exec (call fuel)) job e).bind fun _ e => workOff fuel rounds e

/-- Runs the accepted jobs, and those that they hand in. -/
def work (fuel : Nat) (e : Engine) : Run Unit := workOff fuel fuel e

/-! ### The end -/

/-- Closes the worker pool and says whether it was drained. If jobs hold it up, the clock moves on
by the time to wait. A pool that is closed already counts as drained. -/
def closePool (fuel : Nat) (timeout : Duration) (e : Engine) : Run Bool :=
  if e.pool.closed then .returned true e
  else
    let number := e.pool.shutdowns
    let e := { e with pool := e.pool.startDrain }
    if e.pool.isDrained number then
      .returned true ({ e with pool := e.pool.endDrain number }.log Pool.closedLog)
    else
      (advance fuel timeout.ceilMillis e).bind fun _ e =>
        -- asked before the shutdown ends, since a closed pool always counts as drained
        let drained := e.pool.isDrained number
        let e := { e with pool := e.pool.endDrain number }
        let e := if drained then e else e.log (e.pool.drainLog timeout)
        .returned drained (e.log Pool.closedLog)

/-- Clears the graph, and closes the pool once its jobs are done or too much time has passed. -/
def shutdown (fuel : Nat) (e : Engine) : Run Bool :=
  (call fuel .clear e).bind fun _ e => closePool fuel (.ofMillis e.config.drainMillis) e

end Flowgraph.Engine
