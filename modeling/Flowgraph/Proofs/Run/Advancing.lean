import Flowgraph.Proofs.Run.Starts
import Mathlib.Algebra.GroupWithZero.Nat
import Mathlib.Algebra.Order.BigOperators.Group.Finset

/-!
# The clock moves on

On its way to a time the clock goes from one run of a task to the next. A body that never comes to
its end holds it up, and so do bodies that make new tasks for the same time over and over. Nothing
else does: where every body comes to its end, and there are only so many tasks, the clock arrives.

A task comes only so far up to a time, since its period is not zero. What is *left* for a task is
how far it has yet to come, and the lap in which it runs takes some of that away and adds nothing to
what is left for the others.

* `Advances` — the clock is moved on in steps.
* `Advances.arrives` — behind each step the clock shows the time, and nothing is due any more.
* `Lap`, `Lively` — the laps of the clock's way, and what lets it go on.
* `Scheduler.progress_run`, `Lap.left_lt` — a run takes its task further, and so less is left.
* `AllBrisk.lively` — tasks that take no time do.
* `exists_rounds` — **the clock arrives**, after so many rounds.
-/

namespace Flowgraph

namespace Engine

variable {e e' m : Engine} {task : TaskId} {fuel time due : Nat}

/-! ### Steps of the clock -/

/-- The clock is moved on, step by step. -/
inductive Advances : Engine → List Nat → Engine → Prop
  | nil (e : Engine) : Advances e [] e
  | cons {e m e' : Engine} {millis : Nat} {rest : List Nat} (fuel rounds : Nat)
      (h : advanceTo fuel (e.now + millis) rounds e = .returned () m) (hrest : Advances m rest e') :
      Advances e (millis :: rest) e'

theorem Advances.single (fuel millis : Nat) (h : advance fuel millis e = .returned () e') :
    Advances e [millis] e' := .cons fuel fuel h (.nil e')

/-- The start of the run that is next does not pass the limit. -/
theorem now_startTask_le {limit : Nat} (hnow : e.now ≤ limit)
    (hnext : e.scheduler.next? limit = some (task, due)) : (e.startTask task due).now ≤ limit := by
  obtain ⟨-, hdue, -⟩ := Scheduler.due_of_next? hnext
  rw [now_startTask]
  exact Nat.max_le.mpr ⟨hnow, hdue⟩

theorem Deeds.now (h : Deeds e e') : e'.now = e.now := h.steady.now

/-- The clock stands still while a body runs. -/
theorem now_of_runTask {limit : Nat} (hnext : e.scheduler.next? limit = some (task, due))
    (h : runTask (exec (call fuel)) task due e = .returned () e') :
    e'.now = (e.startTask task due).now := by
  obtain ⟨t, m, m', -, hbody, hlog, rfl⟩ := ran_of_runTask hnext h
  have hm : m.now = (e.startTask task due).now := (deeds_of_exec hbody).now
  have hm' : m'.now = m.now := by
    rcases hlog with rfl | ⟨line, rfl⟩ <;> rfl
  have hcomplete : (m'.scheduler.complete task).now = m'.now := by cases task <;> rfl
  exact hcomplete.trans (hm'.trans hm)

/-- **Behind a step the clock shows the time**, everything in between is made up of beats, no body
is under way, and nothing is due any more. -/
theorem arrives_of_advanceTo {rounds : Nat} (h : advanceTo fuel time rounds e = .returned () e')
    (hnow : e.now ≤ time) : Beats e e' ∧ e'.now = time ∧ e'.scheduler.resting = true ∧
      e'.scheduler.next? e'.now = none := by
  induction rounds generalizing e with
  | zero => cases h
  | succ rounds ih =>
    rw [advanceTo] at h
    have hsettle : Beats e e.settle := .single (.settle e)
    have hnow' : e.settle.now ≤ time := hnow
    split at h
    · next hresting =>
      have hresting : e.settle.scheduler.resting = true :=
        (Scheduler.resting_settle _).trans hresting
      dsimp only at h
      split at h
      · -- nothing is due, and the clock is set to the time
        next hnext =>
        cases h
        have htime : max e.settle.now time = time := Nat.max_eq_right hnow'
        have htick : Beat e.settle { e.settle with
            scheduler := { e.settle.scheduler with now := max e.settle.now time } } :=
          ⟨.pulse (.tick e.settle time), .of_next?_none hresting hnext⟩
        refine ⟨hsettle.tail htick, htime, hresting, ?_⟩
        show e.settle.scheduler.next? (max e.settle.now time) = none
        rw [htime]
        exact hnext
      · -- a task is due, no later than the time, and the other rounds see to the rest
        next task due hnext =>
        obtain ⟨_, m, hrun, hrest⟩ := Run.exists_of_bind h
        have hm : m.now ≤ time := by
          rw [now_of_runTask hnext hrun]
          exact now_startTask_le hnow' hnext
        obtain ⟨hbeats, harrives⟩ := ih hrest hm
        exact ⟨(hsettle.trans (beats_of_runTask hresting hnext hrun)).trans hbeats, harrives⟩
    · cases h

/-- **Behind all steps the clock shows the sum**, in however many steps it is moved on. -/
theorem Advances.arrives {steps : List Nat} (h : Advances e steps e') :
    Beats e e' ∧ e'.now = e.now + steps.sum ∧
      (steps ≠ [] → e'.scheduler.resting = true ∧ e'.scheduler.next? e'.now = none) := by
  induction h with
  | nil e => exact ⟨.refl, rfl, fun hne => absurd rfl hne⟩
  | @cons e m e' millis rest fuel rounds h hrest ih =>
    obtain ⟨hbeats, hnow, hidle⟩ := arrives_of_advanceTo h (Nat.le_add_right ..)
    obtain ⟨hbeats', hnow', hidle'⟩ := ih
    refine ⟨hbeats.trans hbeats', ?_, fun _ => ?_⟩
    · rw [hnow', hnow, List.sum_cons, Nat.add_assoc]
    · cases hrest with
      | nil => exact hidle
      -- what is due last is said of the last step
      | cons => exact hidle' (List.cons_ne_nil _ _)

end Engine

/-! ### What is left for a task -/

/-- More than a task comes forward up to a time: a period is a nanosecond at least. -/
def Timing.cap (time : Nat) : Nat := (time + 1) * 1000000

theorem Duration.pos_of_ne_zero {d : Duration} (h : d ≠ Duration.zero) : 0 < d.nanos :=
  Nat.pos_of_ne_zero fun heq => h (congrArg Duration.mk heq)

/-- A period of no length is refused. -/
theorem Timing.pos_of_check {initial period : Duration} {now : Nat}
    (h : (fixedRate initial period).check now = .ok () ∨
      (fixedDelay initial period).check now = .ok ()) : 0 < period.nanos := by
  refine Duration.pos_of_ne_zero fun hzero => ?_
  rcases h with h | h <;>
  · rw [check, if_pos hzero] at h
    cases h

/-- How far a task has come: the number of its runs, or for one that pauses behind each run, how far
the clock was when the last one ended. -/
def Timing.progress (rested : Nat) : Timing → Nat → Nat
  | .once _, run => run
  | .fixedRate _ _, run => run
  | .fixedDelay _ _, 0 => 0
  | .fixedDelay _ _, _ + 1 => rested + 1

@[simp] theorem Timing.progress_zero (timing : Timing) (rested : Nat) :
    timing.progress rested 0 = 0 := by
  cases timing <;> rfl

/-- A task whose timing was accepted comes only so far up to a time. -/
theorem Timing.progress_lt_cap {timing : Timing} {now created rested run due time : Nat}
    (hcheck : timing.check now = .ok ()) (h : timing.due? created rested run = some due)
    (hle : due ≤ time) : timing.progress rested run < cap time := by
  rw [cap]
  cases timing with
  | once delay =>
    cases run with
    | zero => exact Nat.mul_pos (Nat.succ_pos _) (by decide)
    | succ run => cases h
  | fixedRate initial period =>
    cases h
    have hpos : 0 < period.nanos := pos_of_check (.inl hcheck)
    have hrun : run ≤ run * period.nanos := Nat.le_mul_of_pos_right run hpos
    rw [Duration.ceilMillis] at hle
    rw [progress]
    dsimp only at hle
    omega
  | fixedDelay initial pause =>
    cases run with
    | zero => exact Nat.mul_pos (Nat.succ_pos _) (by decide)
    | succ run =>
      cases h
      have hpos : 0 < pause.nanos := pos_of_check (.inr hcheck)
      -- a pause lasts a millisecond at least
      have hpause : 0 < pause.ceilMillis := Nat.div_pos (by omega) (by decide)
      rw [progress]
      omega

/-- Each run that ends takes the task further. -/
theorem Timing.progress_lt {timing : Timing} {checked created rested run due now : Nat}
    (hcheck : timing.check checked = .ok ()) (h : timing.due? created rested run = some due)
    (hnow : due ≤ now) : timing.progress rested run < timing.progress now (run + 1) := by
  cases timing with
  | once delay =>
    cases run with
    | zero => exact Nat.one_pos
    | succ run => cases h
  | fixedRate initial period => exact Nat.lt_succ_self run
  | fixedDelay initial pause =>
    cases run with
    | zero => exact Nat.succ_pos now
    | succ run =>
      cases h
      -- a pause that passes the check is not zero, so the next time is a later one
      have hpos : 0 < pause.nanos := pos_of_check (.inr hcheck)
      have hpause : 0 < pause.ceilMillis := Nat.div_pos (by omega) (by decide)
      show rested + 1 < now + 1
      omega

namespace Task

variable {β : Type} {t : Task β}

/-- How far a task has come. -/
def progress (t : Task β) : Nat := t.timing.progress t.rested t.runs

theorem Unrun.progress_eq {now : Nat} (h : t.Unrun now) : t.progress = 0 := by
  rw [progress, h.runs, Timing.progress_zero]

/-- A task that is not running any more rests. -/
theorem running_complete (t : Task β) (now : Nat) : (t.complete now).running = false := by
  cases hrun : t.running with
  | false => rw [complete_of_not_running hrun, hrun]
  | true => rw [complete_of_running hrun]

theorem progress_complete (hrun : t.running = true) (now : Nat) :
    (t.complete now).progress = t.timing.progress now t.runs := by
  rw [complete_of_running hrun]
  rfl

end Task

namespace Scheduler

variable {β : Type} {s s' : Scheduler β}

/-- How far a task has come. One that is not there yet has not come anywhere. -/
def progress (s : Scheduler β) (id : TaskId) : Nat := ((s.task? id).map (·.progress)).getD 0

/-- What is left for the tasks up to a number. -/
def left (cap bound : Nat) (s : Scheduler β) : Nat :=
  ∑ id ∈ Finset.range (bound + 1), (cap - s.progress id)

/-- The timings of all tasks were accepted. -/
def Checked (s : Scheduler β) : Prop :=
  ∀ id t, s.task? id = some t → ∃ now, t.timing.check now = .ok ()

theorem progress_of_task? {id : TaskId} {t : Task β} (h : s.task? id = some t) :
    s.progress id = t.progress := by
  rw [progress, h]
  rfl

theorem progress_congr {id : TaskId} (h : s'.task? id = s.task? id) :
    s'.progress id = s.progress id := by
  rw [progress, h, progress]

/-- Making and cancelling tasks takes none of them further. -/
theorem Steady.progress_eq (h : s.Steady s') (id : TaskId) : s'.progress id = s.progress id := by
  cases ht : s.task? id with
  | some t =>
    rw [progress_of_task? ht]
    rcases h.kept id t ht with hk | hk
    · exact progress_of_task? hk
    · exact (progress_of_task? hk).trans rfl
  -- a task that was made in between has come no way yet
  | none =>
    have hnone : s.progress id = 0 := by
      rw [progress, ht]
      rfl
    rw [hnone]
    cases ht' : s'.task? id with
    | some t' => exact (progress_of_task? ht').trans (h.made id t' ht' ht).progress_eq
    | none =>
      rw [progress, ht']
      rfl

theorem progress_settle (s : Scheduler β) (id : TaskId) : s.settle.progress id = s.progress id := by
  rw [progress, task?_settle, Option.map_map, progress]
  rfl

/-- Where one task comes further and the others stay, less is left. -/
theorem left_lt {cap bound : Nat} {id : TaskId} (hid : id ≤ bound) (hcap : s.progress id < cap)
    (hlt : s.progress id < s'.progress id)
    (hother : ∀ id', id' ≠ id → s'.progress id' = s.progress id') :
    left cap bound s' < left cap bound s := by
  refine Finset.sum_lt_sum (fun id' _ => ?_) ⟨id, Finset.mem_range.mpr (Nat.lt_succ_of_le hid), ?_⟩
  · by_cases hne : id' = id
    · subst hne
      exact Nat.sub_le_sub_left (Nat.le_of_lt hlt) cap
    · rw [hother id' hne]
  · exact Nat.sub_lt_sub_left hcap hlt

section Run

variable {id : TaskId} {t : Task β} {due : Nat}

/-- The other tasks do not notice that a run starts. -/
theorem task?_begin_of_ne {id' : TaskId} (h : id' ≠ id) (s : Scheduler β) (due : Nat) :
    (s.begin id due).task? id' = s.task? id' := by
  rw [task?_begin, task?_modify_of_ne _ (Ne.symm h)]

theorem task?_complete_of_ne {id' : TaskId} (h : id' ≠ id) (s : Scheduler β) :
    (s.complete id).task? id' = s.task? id' :=
  task?_modify_of_ne _ (Ne.symm h)

/-- A run that starts is under way until it is completed, whatever its body does. -/
theorem Steady.began (ht : s.task? id = some t) (h : (s.begin id due).Steady s') :
    ∃ t', s'.task? id = some t' ∧ t'.timing = t.timing ∧ t'.runs = t.runs + 1 ∧
      t'.running = true := by
  have hbegun : (s.begin id due).task? id = some t.begin := by
    rw [task?_begin, task?_modify_self, ht]
    rfl
  rcases h.kept id _ hbegun with hk | hk
  · exact ⟨_, hk, rfl, rfl, rfl⟩
  · exact ⟨_, hk, rfl, rfl, rfl⟩

/-- **The run of a task takes this task further**, and leaves the others where they are. -/
theorem progress_run {now : Nat} (ht : s.task? id = some t) (hdue : t.due? = some due)
    (hcheck : t.timing.check now = .ok ()) (h : (s.begin id due).Steady s') :
    s.progress id < (s'.complete id).progress id ∧
      ∀ id', id' ≠ id → (s'.complete id).progress id' = s.progress id' := by
  refine ⟨?_, fun id' hne => ?_⟩
  · obtain ⟨t', ht', htiming, hruns, hrun⟩ := h.began ht
    have hcomplete : (s'.complete id).task? id = some (t'.complete s'.now) := by
      rw [complete, task?_modify_self, ht']
      rfl
    -- the clock stands where the run has started
    have hnow : due ≤ s'.now := h.now ▸ Nat.le_max_right ..
    rw [progress_of_task? ht, progress_of_task? hcomplete, Task.progress_complete hrun, htiming,
      hruns]
    exact Timing.progress_lt hcheck (Task.due?_eq_some hdue).2.2.2 hnow
  · rw [progress_congr (task?_complete_of_ne hne s'), h.progress_eq,
      progress_congr (task?_begin_of_ne hne s due)]

/-- When the run of a task has come to its end, no run is under way that was not before. -/
theorem resting_run (hresting : s.resting = true) (h : (s.begin id due).Steady s') :
    (s'.complete id).resting = true := by
  refine resting_iff.mpr fun id' t₁ ht₁ => ?_
  by_cases hne : id' = id
  · -- the task itself has completed its run
    subst hne
    rw [complete, task?_modify_self] at ht₁
    obtain ⟨t', -, rfl⟩ := Option.map_eq_some_iff.mp ht₁
    exact t'.running_complete s'.now
  · rw [task?_complete_of_ne hne] at ht₁
    cases ht : s.task? id' with
    | none =>
      have hnone : (s.begin id due).task? id' = none := (task?_begin_of_ne hne s due).trans ht
      exact (h.made id' t₁ ht₁ hnone).running
    | some t =>
      have hrests := resting_iff.mp hresting id' t ht
      rcases h.kept id' t ((task?_begin_of_ne hne s due).trans ht) with hk | hk <;>
      · rw [ht₁] at hk
        cases hk
        exact hrests

end Run

/-- A scheduler with the same tasks or fewer changes has no timing that was not accepted. -/
theorem Checked.of_length (h : s.Checked) (hlen : s'.tasks.length = s.tasks.length)
    (hk : s.Proceeds s') : s'.Checked := by
  intro id t' ht'
  cases ht : s.task? id with
  | none => exact absurd ht (exists_task?_of_length hlen ht')
  | some t =>
    obtain ⟨t'', ht'', hproceeds⟩ := hk id t ht
    cases ht'.symm.trans ht''
    rw [hproceeds.timing]
    exact h id t ht

theorem Checked.schedule (h : s.Checked) {owner : Option Nat} {timing : Timing} {body : β}
    {id : TaskId} (hs : s.schedule owner timing body = .ok (id, s')) : s'.Checked := by
  intro id' t' ht'
  cases ht : s.task? id' with
  | none =>
    rw [made_of_schedule hs ht' ht]
    exact ⟨s.now, (of_schedule hs).1⟩
  | some t =>
    obtain ⟨t'', ht'', hproceeds⟩ := proceeds_schedule hs id' t ht
    cases ht'.symm.trans ht''
    rw [hproceeds.timing]
    exact h id' t ht

theorem Change.checked (hc : Change s s') (h : s.Checked) : s'.Checked := by
  have hproceeds := hc.proceeds
  cases hc with
  | edit he =>
    cases he with
    | cancel id => exact h.of_length (length_modify ..) hproceeds
    | schedule hs => exact h.schedule hs
  | settle => exact h.of_length (List.length_map _) hproceeds
  | start id due => exact h.of_length (length_modify ..) hproceeds
  | complete id => exact h.of_length (length_modify ..) hproceeds
  | tick now => exact h.of_length rfl hproceeds

theorem Changes.checked (hs : Changes s s') (h : s.Checked) : s'.Checked := by
  induction hs with
  | refl => exact h
  | tail _ hc ih => exact hc.checked ih

end Scheduler

namespace Engine

variable {e e' m : Engine} {task : TaskId} {fuel time due bound : Nat}

/-- **The timings of all tasks stay accepted ones.** -/
theorem Beat.checked (hb : Beat e e') (h : e.scheduler.Checked) : e'.scheduler.Checked :=
  hb.change.reschedules.checked h

theorem Beats.checked (hs : Beats e e') (h : e.scheduler.Checked) : e'.scheduler.Checked := by
  induction hs with
  | refl => exact h
  | tail _ hb ih => exact hb.checked ih

/-! ### Laps -/

/-- A lap of the clock's way to a time: while no body is under way, the task that is to run next
runs. -/
inductive Lap (fuel time : Nat) (e : Engine) : Engine → Prop
  | mk {task : TaskId} {due : Nat} {e' : Engine} (hresting : e.scheduler.resting = true)
      (hnext : e.settle.scheduler.next? time = some (task, due))
      (h : runTask (exec (call fuel)) task due e.settle = .returned () e') : Lap fuel time e e'

/-- Nothing holds up the clock on its way to a time. -/
structure Lively (fuel time bound : Nat) (e : Engine) : Prop where
  /-- No body is under way. -/
  resting : e.scheduler.resting = true
  /-- The body of each task that comes to run comes to its end, well or not. -/
  ends : ∀ m, Relation.ReflTransGen (Lap fuel time) e m → ∀ task due t,
    m.settle.scheduler.next? time = some (task, due) → m.settle.scheduler.task? task = some t →
    ∃ m', (exec (call fuel) (t.body t.runs) (m.settle.startTask task due)).Leaves m'
  /-- There are only so many tasks. -/
  few : ∀ m, Relation.ReflTransGen (Lap fuel time) e m → m.scheduler.tasks.length ≤ bound

/-- However a body ends, a report is all that is made of it. -/
theorem guarded_of_leaves {r : Run (Except WorkflowError Flowgraph.Step)} (h : r.Leaves m)
    (failed : WorkflowError → LogLine) (panicked : LogLine) :
    ∃ m', guarded r failed panicked = .returned () m' ∧ (m' = m ∨ ∃ line, m' = m.log line) := by
  cases h with
  | returned a m =>
    cases a with
    | ok step => exact ⟨m, rfl, .inl rfl⟩
    | error err => exact ⟨_, rfl, .inr ⟨_, rfl⟩⟩
  | panicked m => exact ⟨_, rfl, .inr ⟨_, rfl⟩⟩

/-- **Whichever way its body ends, the run of a task comes to its end.** -/
theorem runTask_of_leaves {t : Task (Nat → Program)} (ht : e.scheduler.task? task = some t)
    (h : (exec (call fuel) (t.body t.runs) (e.startTask task due)).Leaves m) :
    ∃ m', runTask (exec (call fuel)) task due e =
        .returned () { m' with scheduler := m'.scheduler.complete task } ∧
      (m' = m ∨ ∃ line, m' = m.log line) := by
  obtain ⟨m', hguarded, hlog⟩ := guarded_of_leaves h (taskLog task) (taskPanicLog task)
  refine ⟨m', ?_, hlog⟩
  unfold runTask
  rw [ht]
  exact congrArg (Run.bind · _) hguarded

/-- Between the start and the end of a run, a body makes and cancels tasks at most. -/
theorem steady_of_runTask {limit : Nat} (hnext : e.scheduler.next? limit = some (task, due))
    (h : runTask (exec (call fuel)) task due e = .returned () m) :
    ∃ s, (e.scheduler.begin task due).Steady s ∧ m.scheduler = s.complete task := by
  obtain ⟨t, m₁, m₂, -, hbody, hlog, rfl⟩ := ran_of_runTask hnext h
  refine ⟨m₁.scheduler, (deeds_of_exec hbody).steady, ?_⟩
  rcases hlog with rfl | ⟨line, rfl⟩ <;> rfl

/-- A lap leaves less to be done. -/
theorem Lap.left_lt (hlap : Lap fuel time e m) (hchecked : e.scheduler.Checked)
    (hfew : e.scheduler.tasks.length ≤ bound) :
    m.scheduler.left (Timing.cap time) bound < e.scheduler.left (Timing.cap time) bound := by
  obtain ⟨-, hnext, hrun⟩ := hlap
  rename_i task due
  obtain ⟨⟨t, ht, hdue⟩, hle, -⟩ := Scheduler.due_of_next? hnext
  obtain ⟨now, hcheck⟩ := (Beat.settle e).checked hchecked task t ht
  obtain ⟨s, hsteady, hm⟩ := steady_of_runTask hnext hrun
  obtain ⟨hlt, hother⟩ := Scheduler.progress_run ht hdue hcheck hsteady
  have hid : task ≤ bound := by
    refine Nat.le_trans (Scheduler.le_length_of_task? ht) ?_
    exact Nat.le_trans (Nat.le_of_eq (List.length_map _)) hfew
  -- the run is due in time, so the task has not come all the way
  have hcap : e.settle.scheduler.progress task < Timing.cap time := by
    rw [Scheduler.progress_of_task? ht]
    exact Timing.progress_lt_cap hcheck (Task.due?_eq_some hdue).2.2.2 hle
  calc m.scheduler.left (Timing.cap time) bound
      = (s.complete task).left (Timing.cap time) bound := by rw [hm]
    _ < e.settle.scheduler.left (Timing.cap time) bound :=
        Scheduler.left_lt hid hcap hlt hother
    _ = e.scheduler.left (Timing.cap time) bound :=
        Finset.sum_congr rfl fun id _ => by rw [Engine.settle, Scheduler.progress_settle]

/-- Behind a lap no body is under way. -/
theorem Lap.resting (hlap : Lap fuel time e m) : m.scheduler.resting = true := by
  obtain ⟨h, hnext, hrun⟩ := hlap
  obtain ⟨s, hsteady, hm⟩ := steady_of_runTask hnext hrun
  rw [hm]
  exact Scheduler.resting_run ((Scheduler.resting_settle _).trans h) hsteady

theorem Lively.next (h : Lively fuel time bound e) (hlap : Lap fuel time e m) :
    Lively fuel time bound m where
  resting := hlap.resting
  ends m' hm' := h.ends m' (.head hlap hm')
  few m' hm' := h.few m' (.head hlap hm')

theorem Lap.beats (hlap : Lap fuel time e m) : Beats e m := by
  obtain ⟨hresting, hnext, hrun⟩ := hlap
  exact .head (.settle e)
    (beats_of_runTask ((Scheduler.resting_settle _).trans hresting) hnext hrun)

/-- A body that takes no time: wherever it is run it comes to its end, and it makes no task. -/
def Brisk (fuel : Nat) (body : Nat → Program) : Prop :=
  ∀ run m, ∃ m', (exec (call fuel) (body run) m).Leaves m' ∧
    m'.scheduler.tasks.length = m.scheduler.tasks.length

theorem Brisk.length_eq {body : Nat → Program} (h : Brisk fuel body) {run : Nat}
    (hleaves : (exec (call fuel) (body run) e).Leaves m) :
    m.scheduler.tasks.length = e.scheduler.tasks.length := by
  obtain ⟨m', hm', hlength⟩ := h run e
  -- a program leaves one engine only
  generalize exec (call fuel) (body run) e = r at hleaves hm'
  cases hleaves with
  | returned => cases hm'; exact hlength
  | panicked => cases hm'; exact hlength

/-- All tasks take no time. -/
def AllBrisk (fuel : Nat) (e : Engine) : Prop :=
  ∀ id t, e.scheduler.task? id = some t → Brisk fuel t.body

/-- Where no task is made, all tasks go on taking no time. -/
theorem AllBrisk.of_length (h : AllBrisk fuel e) (hs : Beats e m)
    (hlen : m.scheduler.tasks.length = e.scheduler.tasks.length) : AllBrisk fuel m := by
  intro id t' ht'
  cases ht : e.scheduler.task? id with
  | none => exact absurd ht (Scheduler.exists_task?_of_length hlen ht')
  | some t =>
    obtain ⟨t'', ht'', hproceeds⟩ := hs.evolves.proceeds id t ht
    cases ht'.symm.trans ht''
    rw [hproceeds.body]
    exact h id t ht

theorem Lap.length_eq (hlap : Lap fuel time e m) (h : AllBrisk fuel e) :
    m.scheduler.tasks.length = e.scheduler.tasks.length := by
  obtain ⟨-, hnext, hrun⟩ := hlap
  rename_i task due
  have hsettle : e.settle.scheduler.tasks.length = e.scheduler.tasks.length := List.length_map _
  obtain ⟨t, m₁, m₂, ht, hbody, hlog, rfl⟩ := ran_of_runTask hnext hrun
  have hbrisk : Brisk fuel t.body := h.of_length (.single (.settle e)) hsettle task t ht
  have hm₂ : m₂.scheduler = m₁.scheduler := by
    rcases hlog with rfl | ⟨line, rfl⟩ <;> rfl
  -- none of the four steps makes a task
  calc (m₂.scheduler.complete task).tasks.length
      = m₂.scheduler.tasks.length := Scheduler.length_modify ..
    _ = m₁.scheduler.tasks.length := by rw [hm₂]
    _ = (e.settle.startTask task due).scheduler.tasks.length := hbrisk.length_eq hbody
    _ = e.settle.scheduler.tasks.length := Scheduler.length_modify ..
    _ = e.scheduler.tasks.length := hsettle

/-- **Tasks that take no time do not hold up the clock.** -/
theorem AllBrisk.lively (h : AllBrisk fuel e) (hresting : e.scheduler.resting = true)
    (time : Nat) : Lively fuel time e.scheduler.tasks.length e := by
  -- laps of brisk bodies make no tasks, so the bound on their number is the first one
  have hlaps : ∀ m, Relation.ReflTransGen (Lap fuel time) e m →
      Beats e m ∧ m.scheduler.tasks.length = e.scheduler.tasks.length := by
    intro m hm
    induction hm with
    | refl => exact ⟨.refl, rfl⟩
    | tail _ hlap ih =>
      obtain ⟨hbeats, hlength⟩ := ih
      exact ⟨hbeats.trans hlap.beats, (hlap.length_eq (h.of_length hbeats hlength)).trans hlength⟩
  refine ⟨hresting, fun m hm task due t _ ht => ?_, fun m hm => Nat.le_of_eq (hlaps m hm).2⟩
  obtain ⟨hbeats, hlength⟩ := hlaps m hm
  have hsettle : m.settle.scheduler.tasks.length = e.scheduler.tasks.length :=
    (List.length_map _).trans hlength
  obtain ⟨m', hm', -⟩ := h.of_length (hbeats.tail (.settle m)) hsettle task t ht t.runs
    (m.settle.startTask task due)
  exact ⟨m', hm'⟩

/-- **The clock arrives**: after so many rounds, an advance to a time returns. -/
theorem exists_rounds (h : Lively fuel time bound e) (hchecked : e.scheduler.Checked) :
    ∃ rounds e', ∀ more, rounds ≤ more → advanceTo fuel time more e = .returned () e' := by
  -- each lap leaves less to be done
  induction hleft : e.scheduler.left (Timing.cap time) bound using Nat.strong_induction_on
    generalizing e with
  | _ n ih =>
    cases hnext : e.settle.scheduler.next? time with
    | none =>
      refine ⟨1, { e.settle with
        scheduler := { e.settle.scheduler with now := max e.settle.now time } },
        fun more hmore => ?_⟩
      obtain ⟨more, rfl⟩ := Nat.exists_eq_add_of_le' hmore
      rw [advanceTo, if_pos h.resting]
      dsimp only
      rw [hnext]
    | some next =>
      obtain ⟨task, due⟩ := next
      obtain ⟨⟨t, ht, -⟩, -, -⟩ := Scheduler.due_of_next? hnext
      obtain ⟨m, hbody⟩ := h.ends e .refl task due t hnext ht
      obtain ⟨m', hrun, -⟩ := runTask_of_leaves ht hbody
      have hlap : Lap fuel time e _ := .mk h.resting hnext hrun
      have hless := hlap.left_lt hchecked (h.few e .refl)
      rw [hleft] at hless
      obtain ⟨rounds, e', hrounds⟩ :=
        ih _ hless (h.next hlap) (hlap.beats.checked hchecked) rfl
      refine ⟨rounds + 1, e', fun more hmore => ?_⟩
      obtain ⟨more, rfl⟩ := Nat.exists_eq_add_of_le' hmore
      rw [← Nat.add_assoc, advanceTo, if_pos h.resting]
      dsimp only
      rw [hnext]
      show (runTask (exec (call fuel)) task due e.settle).bind _ = _
      rw [hrun]
      exact hrounds (more + rounds) (Nat.le_add_left ..)

end Engine

end Flowgraph
