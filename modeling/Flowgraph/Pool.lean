import Flowgraph.Error
import Flowgraph.Log

/-!
# The worker pool

A fixed number of workers, and the jobs that they have accepted and not yet finished. Nothing waits
for a worker: a job that finds none free is refused. Each accepted job holds a *permit* until it
finishes.

A shutdown gathers permits, the free ones at once and the others as jobs finish. When it has all of
them the pool is *drained*, and the permits are never given back; when it has waited long enough
without getting all, it gives back those it has. Either way the pool is then closed, and accepts no
job any more. Several shutdowns may be under way: those that began earlier are given permits first,
and the end of one of them ends the others.

* `Pool.submit` accepts or refuses a job, `Pool.finish` ends one.
* `Pool.startDrain` and `Pool.endDrain` are the two ends of a shutdown.
-/

namespace Flowgraph

/-- A job that was accepted, with its number among the accepted ones. -/
structure Job (β : Type) where
  number : Nat
  work : β

/-- A shutdown that is under way, with its number and the permits that it has gathered. -/
structure Drain where
  number : Nat
  gathered : Nat

/-- A pool of workers: its free ones, its jobs, and the shutdowns that wait for them. -/
structure Pool (β : Type) where
  size : Nat
  available : Nat
  /-- The shutdowns under way, the oldest first. -/
  drains : List Drain := []
  /-- The number of shutdowns so far. -/
  shutdowns : Nat := 0
  closed : Bool := false
  /-- The accepted jobs that are not finished, the oldest first. -/
  jobs : List (Job β) := []
  accepted : Nat := 0

namespace Pool

variable {β : Type}

/-- A pool of the given size; at least one worker is needed. -/
def ofSize (size : Nat) : Pool β :=
  let size := max size 1
  { size := size, available := size }

/-- What is reported when a pool without workers is asked for. -/
def sizeLog (size : Nat) : List LogLine :=
  if size = 0 then [.warning "Worker pool size 0 requested, using 1"] else []

/-- The workers that are not free. -/
def active (p : Pool β) : Nat := p.size - p.available

/-! ### Jobs -/

/-- Takes a job, if the pool is open and a worker is free. -/
def submit (p : Pool β) (work : β) : Except SchedulingError (Pool β) :=
  if p.closed then .error .poolClosed
  else if p.available = 0 then .error (.poolSaturated p.size)
  else .ok { p with
    available := p.available - 1
    jobs := p.jobs ++ [⟨p.accepted, work⟩]
    accepted := p.accepted + 1 }

/-- The number of permits that a shutdown asks for: all of them, but no more than 32 bits can
count. -/
def drainPermits (p : Pool β) : Nat := min p.size Decimal.maxNat32

/-- Hands permits out to shutdowns, the oldest first, and says how many are left over. None of them
takes more than the limit. -/
def handOut (limit : Nat) : List Drain → Nat → List Drain × Nat
  | [], permits => ([], permits)
  | d :: rest, permits =>
    let taken := min permits (limit - d.gathered)
    let (rest, left) := handOut limit rest (permits - taken)
    ({ d with gathered := d.gathered + taken } :: rest, left)

/-- Gives permits back: to shutdowns that still lack some, and the others to the free ones. In a
closed pool no shutdown waits for permits any more. -/
def release (p : Pool β) (permits : Nat) : Pool β :=
  if p.closed then { p with available := p.available + permits }
  else
    let (drains, left) := handOut p.drainPermits p.drains permits
    { p with drains := drains, available := p.available + left }

/-- A job has come to its end, and frees its worker. -/
def finish (p : Pool β) (number : Nat) : Pool β :=
  if p.jobs.any (·.number = number) then
    { p with jobs := p.jobs.eraseP (·.number = number) }.release 1
  else p

/-! ### Shutdown -/

/-- Starts a shutdown, which gathers the free permits. A closed pool stays as it is. -/
def startDrain (p : Pool β) : Pool β :=
  if p.closed then p
  else
    let k := min p.available p.drainPermits
    { p with
      available := p.available - k
      drains := p.drains ++ [⟨p.shutdowns, k⟩]
      shutdowns := p.shutdowns + 1 }

/-- The permits that a shutdown has gathered. -/
def gathered (p : Pool β) (number : Nat) : Nat :=
  ((p.drains.find? (·.number = number)).map (·.gathered)).getD 0

/-- What a shutdown answers if it ends now: whether it has all the permits that it asks for. A pool
that is closed already counts as drained. -/
def isDrained (p : Pool β) (number : Nat) : Bool :=
  p.closed || p.gathered number = p.drainPermits

/-- Leaves a shutdown out, with the permits that it has gathered. -/
def without (p : Pool β) (number : Nat) : Pool β :=
  { p with drains := p.drains.filter (·.number ≠ number) }

/-- Takes no more jobs. -/
def close (p : Pool β) : Pool β := { p with closed := true }

/-- The permits that a shutdown gives back when it ends. Those of a pool that it has drained it
keeps for good. -/
def returned (p : Pool β) (number : Nat) : Nat :=
  if !p.closed && p.isDrained number then 0 else p.gathered number

/-- Ends a shutdown. -/
def endDrain (p : Pool β) (number : Nat) : Pool β :=
  ((p.without number).release (p.returned number)).close

/-- What is reported when jobs take too long to end. -/
def drainLog (p : Pool β) (timeout : Duration) : LogLine :=
  .warning ("Worker pool drain timed out after " ++ timeout.text ++ " with " ++ toString p.active
    ++ " jobs running")

/-- What is reported when the pool was closed. -/
def closedLog : LogLine := .info "Worker pool shut down"

end Pool

end Flowgraph
