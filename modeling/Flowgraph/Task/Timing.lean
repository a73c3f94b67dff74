import Flowgraph.Error

/-!
# Timing

When a task runs: once after a delay, or again and again. A task at a *fixed rate* is due at its
start plus whole periods, however long its runs take; a task with a *fixed delay* pauses between the
end of a run and the next. The clock shows whole milliseconds and a task is due at the first of them
that is not too early.

* `Timing.due?` is the time of a run, given the end of the run before.
* `Timing.due?_fixedDelay_succ` — where a run ends at the time at which it was due, the next time
  follows from the first one and the number of pauses. So in whole milliseconds the two kinds come
  to one timetable (`due?_fixedRate_ofMillis`, `due?_fixedDelay_ofMillis`).
* `Timing.check` says which timings are refused.
-/

namespace Flowgraph

/-- When a task runs. -/
inductive Timing where
  /-- A single run after a delay. -/
  | once (delay : Duration)
  /-- A run after an initial delay and after each period. -/
  | fixedRate (initial period : Duration)
  /-- A run after an initial delay, then after a pause behind each run. -/
  | fixedDelay (initial pause : Duration)

namespace Timing

/-- The end of the clock, `2 ^ 63` seconds. -/
def horizon : Nat := Nat.pow 2 63 * 1000000000

/-- Refuses a zero period, and a fixed rate whose first or second run is beyond the clock. -/
def check (now : Nat) : Timing → Except SchedulingError Unit
  | .once _ => .ok ()
  | .fixedRate initial period =>
    if period = Duration.zero then .error (.invalidPeriod period)
    else
      let start := (Duration.ofMillis now).nanos + initial.nanos
      if horizon ≤ start then .error (.invalidPeriod initial)
      else if horizon ≤ start + period.nanos then .error (.invalidPeriod period)
      else .ok ()
  | .fixedDelay _ pause =>
    if pause = Duration.zero then .error (.invalidPeriod pause) else .ok ()

/-- The time of the run with a number, for a task that was made at `created` and whose last run came
to its end at `rested`; a task that runs once has no further ones. -/
def due? (created rested : Nat) : Timing → Nat → Option Nat
  | .once delay, 0 => some (created + delay.ceilMillis)
  | .once _, _ + 1 => none
  | .fixedRate initial period, run =>
    some (created + (Duration.mk (initial.nanos + run * period.nanos)).ceilMillis)
  | .fixedDelay initial _, 0 => some (created + initial.ceilMillis)
  | .fixedDelay _ pause, _ + 1 => some (rested + pause.ceilMillis)

/-- In whole milliseconds a fixed rate is due at the first time plus whole periods. -/
theorem due?_fixedRate_ofMillis (created rested initial period run : Nat) :
    due? created rested (.fixedRate (.ofMillis initial) (.ofMillis period)) run =
      some (created + initial + run * period) := by
  have h :
      Duration.mk ((Duration.ofMillis initial).nanos + run * (Duration.ofMillis period).nanos) =
        Duration.ofMillis (initial + run * period) := by
    simp only [Duration.ofMillis, Nat.add_mul, Nat.mul_assoc]
  simp only [due?, h, Duration.ceilMillis_ofMillis, Nat.add_assoc]

/-- A run that ends at once, at the time at which it was due, is followed by the next one at the
first time plus whole pauses. -/
theorem due?_fixedDelay_succ {created rested run : Nat} {initial pause : Duration}
    (h : rested = created + initial.ceilMillis + run * pause.ceilMillis) :
    due? created rested (.fixedDelay initial pause) (run + 1) =
      some (created + initial.ceilMillis + (run + 1) * pause.ceilMillis) := by
  rw [due?, h, Nat.succ_mul, Nat.add_assoc _ (run * _)]

/-- In whole milliseconds a fixed delay comes to the times of a fixed rate, if the run before has
ended at its own time. -/
theorem due?_fixedDelay_ofMillis {created rested initial period run : Nat}
    (h : run = 0 ∨ rested + period = created + initial + run * period) :
    due? created rested (.fixedDelay (.ofMillis initial) (.ofMillis period)) run =
      some (created + initial + run * period) := by
  cases run with
  | zero => simp only [due?, Duration.ceilMillis_ofMillis, Nat.zero_mul, Nat.add_zero]
  | succ run =>
    have hrested : rested = created + initial + run * period := by
      rw [Nat.succ_mul, ← Nat.add_assoc] at h
      exact Nat.add_right_cancel (h.resolve_left (Nat.succ_ne_zero run))
    have hceil : rested = created + (Duration.ofMillis initial).ceilMillis +
        run * (Duration.ofMillis period).ceilMillis := by
      simpa only [Duration.ceilMillis_ofMillis] using hrested
    simpa only [Duration.ceilMillis_ofMillis] using due?_fixedDelay_succ hceil

end Timing

end Flowgraph
