import Flowgraph.Proofs.Walk.Course

/-!
# Walks are taken up again

A walk that waits is not forgotten. However a run goes on, the task that waits with the walk stays
as it is until it is cancelled or the scheduler comes to it; then the walk is run on, to its end or
to the next task. So at every point of a run a walk that was started has either come to its end, or
a task is there for it, and that task is not overdue.

* `Scheduler.Spares` — what a stretch of a run leaves of a task that it does not run.
* `Tracked` — a walk can be followed up to a point of a run.
* `Tracked.elapses` — and so it can at every later one.
* `Tracked.settled` — when all is done that is due, the walk has ended or its task is not due yet.
-/

namespace Flowgraph

/-- A task that runs once has not begun to. -/
structure Task.Idle {β : Type} (t : Task β) : Prop where
  once : ∃ delay, t.timing = .once delay
  runs : t.runs = 0
  running : t.running = false
  ended : t.ended = false

namespace Scheduler

variable {β : Type} {s s' s'' : Scheduler β} {id : TaskId}

/-- A task that is idle stays so, unless it is cancelled. -/
def Spares (id : TaskId) (s s' : Scheduler β) : Prop :=
  ∀ t, s.task? id = some t → t.cancelled = true ∨ t.Idle →
    ∃ t', s'.task? id = some t' ∧ t.Proceeds t' ∧ (t'.cancelled = true ∨ t'.Idle)

theorem Spares.trans (h : Spares id s s') (h' : Spares id s' s'') : Spares id s s'' := by
  intro t ht hidle
  obtain ⟨t', ht', hproceeds, hidle'⟩ := h t ht hidle
  obtain ⟨t'', ht'', hproceeds', hidle''⟩ := h' t' ht' hidle'
  exact ⟨t'', ht'', hproceeds.trans hproceeds', hidle''⟩

theorem Spares.of_eq (h : s'.task? id = s.task? id) : Spares id s s' :=
  fun t ht hidle => ⟨t, h.trans ht, .refl t, hidle⟩

theorem Spares.of_tasks (h : s'.tasks = s.tasks) : Spares id s s' := .of_eq (task?_congr h id)

theorem Steady.spares (h : s.Steady s') : Spares id s s' := by
  intro t ht hidle
  rcases h.kept id t ht with hk | hk
  · exact ⟨t, hk, .refl t, hidle⟩
  · exact ⟨_, hk, ⟨rfl, rfl, rfl, rfl, Nat.le_refl _, fun _ => rfl, fun h => h⟩, .inl rfl⟩

theorem Spares.settle (s : Scheduler β) : Spares id s s.settle := by
  intro t ht hidle
  obtain ⟨t', ht', hproceeds⟩ := proceeds_settle s id t ht
  refine ⟨t', ht', hproceeds, ?_⟩
  rw [task?_settle, ht] at ht'
  cases ht'
  -- settling ends a task that was cancelled, and no other
  refine (Bool.eq_false_or_eq_true t.cancelled).imp (fun h => h) fun hnot => ?_
  rcases hidle with hcancelled | hidle
  · rw [hcancelled] at hnot
    cases hnot
  · refine ⟨hidle.once, hidle.runs, hidle.running, ?_⟩
    show (t.ended || t.cancelled) = false
    rw [hidle.ended, hnot]
    rfl

/-- A task that has yet to run does not end with the run of another, nor with one of its own. -/
theorem Spares.complete (s : Scheduler β) (id' : TaskId) : Spares id s (s.complete id') := by
  intro t ht hidle
  obtain ⟨t', ht', hproceeds⟩ := proceeds_complete s id' id t ht
  refine ⟨t', ht', hproceeds, hidle.imp hproceeds.cancelled fun hidle => ?_⟩
  -- another task is left alone, and of this one no run is under way
  by_cases h : id' = id
  · subst h
    rw [Scheduler.complete, task?_modify_self, ht, Option.map_some,
      Task.complete_of_not_running hidle.running] at ht'
    cases ht'
    exact hidle
  · rw [Scheduler.complete, task?_modify_of_ne _ h, ht] at ht'
    cases ht'
    exact hidle

theorem Spares.begin {id' : TaskId} (h : id' ≠ id) (s : Scheduler β) (due : Nat) :
    Spares id s (s.begin id' due) := by
  refine .of_eq ?_
  have hmodify := task?_modify_of_ne (s := s) Task.begin h
  rw [← hmodify]
  exact task?_congr rfl id

end Scheduler

namespace Engine

variable {sink : Builtin.Sink} {e e' m x x' : Engine} {g : GraphId} {w : Walk} {s : Stand}
  {task : TaskId}

/-- A stretch of a run is the run of a task, or spares it. -/
theorem Stretch.runs_or_spares (h : Stretch e e') (task : TaskId) :
    (∃ fuel limit due, e.scheduler.resting = true ∧ e.scheduler.next? limit = some (task, due) ∧
      runTask (exec (call fuel)) task due e = .returned () e') ∨
      Scheduler.Spares task e.scheduler e'.scheduler := by
  cases h with
  | task fuel limit task' due hresting hnext h =>
    -- the run of another task begins and completes that task only
    by_cases hsame : task' = task
    · subst hsame
      exact .inl ⟨fuel, limit, due, hresting, hnext, h⟩
    · obtain ⟨t, m, m', -, hbody, hlog, rfl⟩ := ran_of_runTask hnext h
      have hdeeds : Deeds (e.startTask task' due) m := deeds_of_exec hbody
      have hm' : m'.scheduler = m.scheduler := by
        rcases hlog with rfl | ⟨line, rfl⟩
        · rfl
        · rfl
      have hbegun : Scheduler.Spares task e.scheduler (e.startTask task' due).scheduler :=
        .begin hsame e.scheduler due
      have hended : Scheduler.Spares task m.scheduler (m'.scheduler.complete task') := by
        rw [hm']
        exact .complete m.scheduler task'
      exact .inr ((hbegun.trans hdeeds.steady.spares).trans hended)
  | lull hb hnone =>
    refine .inr ?_
    cases hb.change with
    | deed hd => exact hd.steady.spares
    | supply hs => exact .of_tasks (congrArg Scheduler.tasks hs.scheduler)
    | pulse hp =>
      cases hp with
      | settle => exact .settle e.scheduler
      | complete task' => exact .complete e.scheduler task'
      | tick time => exact .of_tasks rfl
      | job number => exact .of_tasks rfl
      | pool pool => exact .of_tasks rfl
      | start limit task' due _ =>
        -- the start of a run would have been noted
        exact (hnone.not_started rfl rfl).elim

/-- A walk does not break off. -/
theorem Enacts.call_ne_panicked {fuel : Nat} (he : Enacts sink w.graph e) :
    call fuel (.walk w) e ≠ .panicked m := by
  intro h
  induction fuel generalizing w e with
  | zero => cases h
  | succ fuel ih =>
    rw [call] at h
    split at h
    · cases h
    · cases h
    · cases h
    · next n w' ha =>
      rw [enter_eq, he.roles _ (mem_of_arrival ha)] at h
      -- what a node of the graph runs returns, or waits for ever
      rcases (n.node.role.passes sink n.node).exec fun _ => rfl with
        ⟨r, m', hexec, hpassing, -⟩ | ⟨-, hexec⟩
      · rw [hexec] at h
        cases r with
        | error err => cases h
        | ok step =>
          exact ih (w := { w' with vars := step.vars, pending := step.next })
            (he.past ha hpassing :) h
      · rw [hexec] at h
        cases h

/-- A walk through a graph has been followed up to a point of a run: it came to its end before, or a
task is there for it. -/
inductive Tracked (g : GraphId) (e : Engine) (s : Stand) (x : Engine) : Prop
  | ended {vs : List Visit} {rs : List Roll} {m : Engine} {how : Ending}
      (h : Pursuit e s vs rs m (.ended how)) (hm : Elapses m x) : Tracked g e s x
  | waiting {vs : List Visit} {rs : List Roll} {task : TaskId} {t : Task (Nat → Program)} {w : Walk}
      {next : String} {due : Nat} (h : Pursuit e s vs rs x (.waiting task))
      (ht : x.scheduler.task? task = some t) (hg : w.graph = g) (hc : Continues t w next due)
      (hidle : t.cancelled = true ∨ t.Idle) : Tracked g e s x

theorem Carries.idle {t : Task (Nat → Program)} {next : String} {due : Nat}
    (h : Carries t w next due) : t.Idle := by
  obtain ⟨delay, htiming, -⟩ := h.once
  exact ⟨⟨delay, htiming⟩, h.runs, h.running, h.ended⟩

theorem Tracked.before {s' : Stand} {vs : List Visit} {rs : List Roll}
    (h : Pursuit e s vs rs m s') (ht : Tracked g m s' x) : Tracked g e s x := by
  cases ht with
  | ended hp hm => exact .ended (h.trans hp) hm
  | waiting hp htask hg hc hidle => exact .waiting (h.trans hp) htask hg hc hidle

/-- A walk that is run is followed to where the run comes to its end. -/
theorem tracked_of_call {fuel : Nat} {r : Except WorkflowError Unit} (he : Enacts sink w.graph e)
    (h : call fuel (.walk w) e = .returned r x) : Tracked w.graph e (.walking w) x := by
  obtain ⟨vs, rs, s, hpursuit, hanswers, -⟩ := pursuit_of_call he h
  cases hanswers with
  | finished => exact .ended hpursuit .refl
  | stray id => exact .ended hpursuit .refl
  | failed err => exact .ended hpursuit .refl
  | waiting ht hg hcarries =>
    exact .waiting hpursuit ht hg hcarries.toContinues (.inr hcarries.idle)

/-- A walk waits on for as long as its task does not run. -/
theorem Tracked.spared (h : Elapses x x')
    (hspares : ∀ task, Scheduler.Spares task x.scheduler x'.scheduler)
    (ht : Tracked g e s x) : Tracked g e s x' := by
  cases ht with
  | ended hp hm => exact .ended hp (hm.trans h)
  | waiting hp htask hg hc hidle =>
    obtain ⟨t', ht', hproceeds, hidle'⟩ := hspares _ _ htask hidle
    have hlater := hp.trans (.single (.later h))
    exact .waiting hlater ht' hg (hc.proceeds hproceeds) hidle'

/-- A program that walks on ends where the walk does. -/
theorem returned_of_walkOn {fuel : Nat} {next : String} (he : Enacts sink w.graph e)
    (h : (exec (call fuel) (.walkOn w next) e).Leaves m) :
    ∃ r, call fuel (.walk { w with pending := some next }) e = .returned r m := by
  have hexec : exec (call fuel) (.walkOn w next) e =
      (call fuel (.walk { w with pending := some next }) e).bind fun answer e =>
        exec (call fuel) (.conclude answer) e := rfl
  rw [hexec] at h
  cases hcall : call fuel (.walk { w with pending := some next }) e with
  | diverged =>
    rw [hcall] at h
    cases h
  | panicked m' =>
    exact absurd hcall (Enacts.call_ne_panicked (w := { w with pending := some next }) he)
  | returned r m' =>
    rw [hcall] at h
    refine ⟨r, congrArg (Run.returned r) ?_⟩
    -- however the walk was answered, the program ends in the engine the walk has left
    cases r with
    | error err =>
      cases h
      rfl
    | ok _ =>
      cases h
      rfl

/-- The task of a walk runs: the walk is taken up and run on. -/
theorem tracked_of_runTask {fuel limit due : Nat} {task : TaskId} {t : Task (Nat → Program)}
    {next : String} {d : Nat} (he : Enacts sink w.graph x)
    (hresting : x.scheduler.resting = true) (hnext : x.scheduler.next? limit = some (task, due))
    (ht : x.scheduler.task? task = some t) (hc : Continues t w next d)
    (h : runTask (exec (call fuel)) task due x = .returned () x') :
    Tracked w.graph x (.waiting task) x' := by
  obtain ⟨t', m, m', ht', hbody, hlog, rfl⟩ := ran_of_runTask hnext h
  rw [ht] at ht'
  cases ht'
  have hstart : Extends x (x.startTask task due) := (Pulse.start x limit task due hnext).extends
  rw [hc.body] at hbody
  obtain ⟨r, hcall⟩ := returned_of_walkOn (he.extends hstart) hbody
  have htracked := tracked_of_call (w := { w with pending := some next }) (he.extends hstart) hcall
  have hresumed : Pace x (.waiting task) [] [] (x.startTask task due)
      (.walking { w with pending := some next }) := .resumed hresting hnext ht (congrFun hc.body _)
  -- a failure of the walk is logged behind its run
  have hm : Tracked w.graph x (.waiting task) m' := by
    rcases hlog with rfl | ⟨line, rfl⟩
    · exact .before (.single hresumed) htracked
    · exact .before (.single hresumed)
        (htracked.spared (.single (Deed.move (.log m line)).stretch) fun _ => .of_tasks rfl)
  exact hm.spared (.single (.complete m' task)) fun _ => .complete _ task

/-- **A stretch of a run takes a walk along.** -/
theorem Tracked.stretch (hg : Enacts sink g x) (h : Stretch x x') (ht : Tracked g e s x) :
    Tracked g e s x' := by
  cases ht with
  | ended hp hm => exact .ended hp (hm.tail h)
  | @waiting vs rs task t w next due hp htask hw hc hidle =>
    subst hw
    rcases h.runs_or_spares task with ⟨fuel, limit, due, hresting, hnext, hrun⟩ | hspares
    · exact .before hp (tracked_of_runTask hg hresting hnext htask hc hrun)
    · obtain ⟨t', ht', hproceeds, hidle'⟩ := hspares t htask hidle
      exact .waiting (hp.trans (.single (.later (.single h)))) ht' rfl (hc.proceeds hproceeds)
        hidle'

/-- **However a run goes on, a walk can be followed.** -/
theorem Tracked.elapses (hg : Enacts sink g x) (h : Elapses x x') (ht : Tracked g e s x) :
    Tracked g e s x' := by
  induction h with
  | refl => exact ht
  | tail hx hs ih => exact ih.stretch (hg.extends (Elapses.evolves hx).extends) hs

/-- **When all is done that is due, a walk has ended or is not due yet**, unless its graph gave it
up. -/
theorem Tracked.settled (h : Tracked g e s x)
    (hkept : ∀ id t, x.scheduler.task? id = some t → t.owner = some g → t.cancelled = false)
    (hnext : x.scheduler.next? x.now = none) :
    (∃ vs rs m how, Pursuit e s vs rs m (.ended how) ∧ Elapses m x) ∨
      ∃ vs rs task t w next due, Pursuit e s vs rs x (.waiting task) ∧
        x.scheduler.task? task = some t ∧ w.graph = g ∧ Continues t w next due ∧ x.now < due := by
  cases h with
  | ended hp hm => exact .inl ⟨_, _, _, _, hp, hm⟩
  | @waiting vs rs task t w next due hp ht hg hc hidle =>
    -- the task waits and has not run, so the only thing that holds it back is its time
    have hcancelled := hkept task t ht (hg ▸ hc.owner)
    have hidle : t.Idle := hidle.resolve_left (by rw [hcancelled]; exact Bool.false_ne_true)
    obtain ⟨delay, htiming, hdue⟩ := hc.once
    have hdue : t.due? = some due := by
      rw [Task.due?, hcancelled, hidle.ended, hidle.running, htiming, hidle.runs, ← hdue]
      rfl
    exact .inr ⟨vs, rs, task, t, w, next, due, hp, ht, hg, hc,
      Scheduler.next?_eq_none_iff.mp hnext task t due ht hdue⟩

end Engine

end Flowgraph
