import Flowgraph.Proofs.Run.Requests

/-!
# How a run goes on

`Evolves` lets the clock move as it likes, and the run of a task begin without its body ever being
run. Runs do neither. The clock stands still while a body is under way, and it passes nothing that
is due. So no task is ever overdue.

A run goes on in *beats*, the least that happens: a deed of a program, the start of a run, its end,
or time that passes. Between any two beats a program may stand, so what is proved of every point
that beats lead to holds in the middle of a body as well. Where that is too fine, a run goes on in
*stretches*, each of which is the whole run of a task, or a beat that starts none.

* `Scheduler.Timely` — when the clock may move on to a time.
* `Beat`, `Beats` — from one point of a run to the next.
* `Stretch`, `Elapses` — the same with the runs of tasks taken whole.
* `HostStep.elapses` — whatever the host asks for is made up of stretches, and so of beats.
* `Scheduler.Punctual`, `Beats.punctual` — no task is overdue.
-/

namespace Flowgraph

/-! ### Timetables -/

/-- The first run of a task is not due before the task is made. -/
theorem Timing.le_of_due?_zero {timing : Timing} {created rested due : Nat}
    (h : timing.due? created rested 0 = some due) : created ≤ due := by
  match timing, h with
  | .once _, h => cases h; omega
  | .fixedRate _ _, h => cases h; omega
  | .fixedDelay _ _, h => cases h; omega

theorem Duration.ceilMillis_mono {d d' : Duration} (h : d.nanos ≤ d'.nanos) :
    d.ceilMillis ≤ d'.ceilMillis :=
  Nat.div_le_div_right (Nat.add_le_add_right h _)

/-- Behind a run that is over as soon as it is due, the next one is not due earlier. -/
theorem Timing.due?_succ_le {timing : Timing} {created rested run due due' : Nat}
    (h : timing.due? created rested run = some due)
    (h' : timing.due? created due (run + 1) = some due') : due ≤ due' := by
  match timing, h, h' with
  | .once _, _, h' => cases h'
  | .fixedRate initial period, h, h' =>
    cases h
    cases h'
    refine Nat.add_le_add_left (Duration.ceilMillis_mono (Nat.add_le_add_left ?_ _)) created
    exact Nat.mul_le_mul_right _ (Nat.le_succ run)
  -- the pause is counted from the end of the run before
  | .fixedDelay initial pause, _, h' =>
    cases h'
    exact Nat.le_add_right ..

namespace Task

variable {β : Type} {t : Task β} {now due : Nat}

/-- A task that is due is not over and rests, and its timing says when. -/
theorem due?_eq_some (h : t.due? = some due) :
    t.cancelled = false ∧ t.ended = false ∧ t.running = false ∧
      t.timing.due? t.created t.rested t.runs = some due := by
  unfold due? at h
  split at h
  · cases h
  · next hnot =>
    rw [Bool.or_eq_true, Bool.or_eq_true, not_or, not_or, Bool.not_eq_true, Bool.not_eq_true,
      Bool.not_eq_true] at hnot
    exact ⟨hnot.1.1, hnot.1.2, hnot.2, h⟩

/-- Since when a task rests, if the run that may be under way ends now. -/
def restsFrom (t : Task β) (now : Nat) : Nat := if t.running then now else t.rested

theorem restsFrom_of_not_running (h : t.running = false) (now : Nat) :
    t.restsFrom now = t.rested :=
  if_neg (by rw [h]; exact Bool.false_ne_true)

/-- When a task is due next, if the run that may be under way ends now. -/
def next? (t : Task β) (now : Nat) : Option Nat :=
  if t.isOver then none else t.timing.due? t.created (t.restsFrom now) t.runs

/-- A task that rests is due when its next run is. -/
theorem next?_of_not_running (h : t.running = false) (now : Nat) : t.next? now = t.due? := by
  rw [next?, due?, restsFrom_of_not_running h, h, Bool.or_false]
  rfl

theorem next?_of_due? (h : t.due? = some due) (now : Nat) : t.next? now = some due :=
  (next?_of_not_running (due?_eq_some h).2.2.1 now).trans h

/-- What is due next is due by the timing, and the task is not over. -/
theorem next?_eq_some (h : t.next? now = some due) :
    t.isOver = false ∧ t.timing.due? t.created (t.restsFrom now) t.runs = some due := by
  unfold next? at h
  split at h
  · cases h
  · next hnot => exact ⟨Bool.eq_false_iff.mpr hnot, h⟩

/-- The end of the run leaves the next one where it was to be expected. -/
theorem next?_complete (t : Task β) (now : Nat) : (t.complete now).next? now = t.next? now := by
  cases hrun : t.running with
  | false => rw [complete_of_not_running hrun]
  | true =>
    rw [complete_of_running hrun, next?, next?, isOver, isOver, restsFrom, restsFrom, hrun]
    -- if there is no further run the task ends, and nothing is due either way
    cases hnext : t.timing.due? t.created now t.runs <;> simp [hnext]

end Task

namespace Scheduler

variable {β : Type} {s s' : Scheduler β}

/-! ### No task is overdue -/

/-- The clock may move on to a time: no run is under way, and no task is due before it. -/
def Timely (s : Scheduler β) (time : Nat) : Prop :=
  time = s.now ∨ s.resting = true ∧
    ∀ id t due, s.task? id = some t → t.due? = some due → time ≤ due

/-- Nothing is due up to a time. -/
theorem Timely.of_next?_none {time : Nat} (hresting : s.resting = true)
    (hnext : s.next? time = none) : s.Timely (max s.now time) := by
  rcases Nat.le_total time s.now with hle | hle
  · exact .inl (Nat.max_eq_left hle)
  · refine .inr ⟨hresting, fun id t due ht hdue => ?_⟩
    rw [Nat.max_eq_right hle]
    exact Nat.le_of_lt (next?_eq_none_iff.mp hnext id t due ht hdue)

/-- The task that is to run next is due no later than any other. -/
theorem Timely.of_next? {limit due : Nat} {id : TaskId} (hresting : s.resting = true)
    (hnext : s.next? limit = some (id, due)) : s.Timely (max s.now due) := by
  obtain ⟨-, -, hmin⟩ := due_of_next? hnext
  rcases Nat.le_total due s.now with hle | hle
  · exact .inl (Nat.max_eq_left hle)
  · refine .inr ⟨hresting, fun id' t' due' ht' hdue' => ?_⟩
    rw [Nat.max_eq_right hle]
    exact hmin id' t' due' ht' hdue'

/-- No task is overdue, nor will one be as soon as its run ends. -/
def Punctual (s : Scheduler β) : Prop :=
  ∀ id t due, s.task? id = some t → t.next? s.now = some due → s.now ≤ due

theorem Punctual.le_due (h : s.Punctual) {id : TaskId} {t : Task β} {due : Nat}
    (ht : s.task? id = some t) (hdue : t.due? = some due) : s.now ≤ due :=
  h id t due ht (Task.next?_of_due? hdue s.now)

theorem Punctual.steady (h : s.Punctual) (hs : s.Steady s') : s'.Punctual := by
  intro id t' due ht' hdue
  rw [hs.now] at hdue ⊢
  cases ht : s.task? id with
  | none =>
    -- what is made now is not due before
    have hnew := hs.made id t' ht' ht
    have hfirst := (Task.next?_eq_some hdue).2
    rw [hnew.runs] at hfirst
    exact hnew.created ▸ Timing.le_of_due?_zero hfirst
  | some t =>
    rcases hs.kept id t ht with hk | hk
    · rw [ht'] at hk
      cases hk
      exact h id _ due ht hdue
    · rw [ht'] at hk
      cases hk
      cases (Task.next?_eq_some hdue).1

/-- A task that is changed is punctual if it is due as before. -/
theorem Punctual.of_next? (h : s.Punctual) (hnow : s'.now = s.now)
    (hs : ∀ id t', s'.task? id = some t' → ∃ t, s.task? id = some t ∧
      t'.next? s.now = t.next? s.now) : s'.Punctual := by
  intro id t' due ht' hdue
  rw [hnow] at hdue ⊢
  obtain ⟨t, ht, hsame⟩ := hs id t' ht'
  exact h id t due ht (hsame ▸ hdue)

theorem Punctual.settle (h : s.Punctual) : s.settle.Punctual := by
  refine h.of_next? rfl fun id t' ht' => ?_
  rw [task?_settle] at ht'
  obtain ⟨t, ht, rfl⟩ := Option.map_eq_some_iff.mp ht'
  refine ⟨t, ht, ?_⟩
  -- only tasks that are cancelled anyway are ended
  rw [Task.next?, Task.next?, Task.isOver, Task.isOver, Bool.or_comm t.ended, ← Bool.or_assoc,
    Bool.or_self]
  rfl

theorem Punctual.complete (h : s.Punctual) (id : TaskId) : (s.complete id).Punctual := by
  refine h.of_next? (by cases id <;> rfl) fun id' t' ht' => ?_
  by_cases hid : id = id'
  · subst hid
    rw [Scheduler.complete, task?_modify_self] at ht'
    obtain ⟨t, ht, rfl⟩ := Option.map_eq_some_iff.mp ht'
    exact ⟨t, ht, t.next?_complete s.now⟩
  · rw [Scheduler.complete, task?_modify_of_ne _ hid] at ht'
    exact ⟨t', ht', rfl⟩

/-- A run that starts is counted. -/
theorem task?_begin (s : Scheduler β) (id : TaskId) (due : Nat) (id' : TaskId) :
    (s.begin id due).task? id' = (s.modify id Task.begin).task? id' := by
  cases id' <;> rfl

/-- The clock moves on, if that is timely. -/
theorem Punctual.tick (h : s.Punctual) {time : Nat} (htimely : s.Timely time) :
    ({ s with now := time } : Scheduler β).Punctual := by
  intro id t due ht hdue
  have ht : s.task? id = some t := by
    rw [← ht]
    exact (task?_congr rfl id).symm
  have hdue : t.next? time = some due := hdue
  rcases htimely with rfl | ⟨hresting, hle⟩
  · exact h id t due ht hdue
  · -- where no run is under way, what is due next is due now
    rw [Task.next?_of_not_running (resting_iff.mp hresting id t ht)] at hdue
    exact hle id t due ht hdue

/-- The clock moves on to the time of a task that is due, and its run starts. -/
theorem Punctual.begin (h : s.Punctual) {id : TaskId} {t : Task β} {due : Nat}
    (ht : s.task? id = some t) (hdue : t.due? = some due) (htimely : s.Timely (max s.now due)) :
    (s.begin id due).Punctual := by
  have hnow : max s.now due = due := Nat.max_eq_right (h.le_due ht hdue)
  intro id' t' due' ht' hdue'
  have hnow' : (s.begin id due).now = due := hnow
  rw [hnow'] at hdue' ⊢
  rw [task?_begin] at ht'
  by_cases hid : id = id'
  · -- the next run of the same task is due no earlier
    subst hid
    rw [task?_modify_self, ht] at ht'
    cases ht'
    exact Timing.due?_succ_le (Task.due?_eq_some hdue).2.2.2 (Task.next?_eq_some hdue').2
  · rw [task?_modify_of_ne _ hid] at ht'
    rw [hnow] at htimely
    exact h.tick htimely id' t' due' ((task?_congr rfl id').trans ht') hdue'

end Scheduler

namespace Engine

variable {e e' : Engine}

/-! ### Beats -/

/-- The least that happens in a run. -/
structure Beat (e e' : Engine) : Prop where
  change : Change e e'
  timely : e.scheduler.Timely e'.now

/-- Any number of beats. -/
abbrev Beats : Engine → Engine → Prop := Relation.ReflTransGen Beat

/-- Programs take no time. -/
theorem Deed.beat (h : Deed e e') : Beat e e' := ⟨.deed h, .inl h.steady.now⟩

theorem Beat.settle (e : Engine) : Beat e e.settle := ⟨.pulse (.settle e), .inl rfl⟩

/-- A run of the task that is to run next starts, while none is under way. -/
theorem Beat.start {limit due : Nat} {task : TaskId} (hresting : e.scheduler.resting = true)
    (hnext : e.scheduler.next? limit = some (task, due)) : Beat e (e.startTask task due) :=
  ⟨.pulse (.start e limit task due hnext), .of_next? hresting hnext⟩

/-- A run of a task comes to its end. -/
theorem Beat.complete (e : Engine) (task : TaskId) :
    Beat e { e with scheduler := e.scheduler.complete task } :=
  ⟨.pulse (.complete e task), .inl (by cases task <;> rfl)⟩

theorem Supply.beat (h : Supply e e') : Beat e e' :=
  ⟨.supply h, .inl (congrArg Scheduler.now h.scheduler)⟩

theorem Beats.evolves (h : Beats e e') : Evolves e e' :=
  Relation.ReflTransGen.mono (fun _ _ hb => hb.change) _ _ h

theorem Deeds.beats (h : Deeds e e') : Beats e e' :=
  Relation.ReflTransGen.mono (fun _ _ hd => hd.beat) _ _ h

theorem Beat.punctual (h : Beat e e') (he : e.scheduler.Punctual) : e'.scheduler.Punctual := by
  have htimely := h.timely
  cases h.change with
  | deed hd => exact he.steady hd.steady
  | supply hs => exact hs.scheduler ▸ he
  | pulse hp =>
    cases hp with
    | settle => exact he.settle
    -- the task that starts was due
    | start limit task due hnext =>
      obtain ⟨⟨t, ht, hdue⟩, -, -⟩ := Scheduler.due_of_next? hnext
      exact he.begin ht hdue htimely
    | complete task => exact he.complete task
    | tick time => exact he.tick htimely
    | job number => exact he
    | pool pool => exact he

/-- **Along every run, no task is overdue.** -/
theorem Beats.punctual (h : Beats e e') (he : e.scheduler.Punctual) : e'.scheduler.Punctual := by
  induction h with
  | refl => exact he
  | tail _ hb ih => exact hb.punctual ih

/-! ### Stretches -/

/-- A stretch of a run. -/
inductive Stretch (e : Engine) : Engine → Prop
  /-- The task that is to run next runs, from the start of the run to its end. -/
  | task (fuel limit : Nat) (task : TaskId) (due : Nat) {e' : Engine}
      (hresting : e.scheduler.resting = true)
      (hnext : e.scheduler.next? limit = some (task, due))
      (h : runTask (exec (call fuel)) task due e = .returned () e') : Stretch e e'
  /-- A beat in which no run starts. -/
  | lull {e' : Engine} (h : Beat e e') (hnone : StartsOnly (fun _ => False) e e') : Stretch e e'

/-- Any number of stretches. -/
abbrev Elapses : Engine → Engine → Prop := Relation.ReflTransGen Stretch

theorem Deed.stretch (h : Deed e e') : Stretch e e' := .lull h.beat h.startsOnly

theorem Supply.stretch (h : Supply e e') : Stretch e e' := .lull h.beat (.of_eq h.journal)

/-- A run of a task that was under way comes to its end. -/
theorem Stretch.complete (e : Engine) (task : TaskId) :
    Stretch e { e with scheduler := e.scheduler.complete task } :=
  .lull (.complete e task) (.of_eq rfl)

theorem Deeds.elapses (h : Deeds e e') : Elapses e e' :=
  Relation.ReflTransGen.mono (fun _ _ hd => hd.stretch) _ _ h

/-- Behind a body or a job that went wrong there is a report. -/
theorem left_of_guarded {r : Run (Except WorkflowError Flowgraph.Step)}
    {failed : WorkflowError → LogLine} {panicked : LogLine} {m : Engine}
    (h : guarded r failed panicked = .returned () m) :
    ∃ m', r.Leaves m' ∧ (m = m' ∨ ∃ line, m = m'.log line) := by
  match r, h with
  | .returned (.ok step) _, h =>
    cases h
    exact ⟨m, .returned _ m, .inl rfl⟩
  | .returned (.error err) m', h =>
    cases h
    exact ⟨m', .returned _ m', .inr ⟨_, rfl⟩⟩
  | .panicked m', h =>
    cases h
    exact ⟨m', .panicked m', .inr ⟨_, rfl⟩⟩

/-- A run of a task, from its start to its end. -/
theorem ran_of_runTask {fuel limit : Nat} {task : TaskId} {due : Nat}
    (hnext : e.scheduler.next? limit = some (task, due))
    (h : runTask (exec (call fuel)) task due e = .returned () e') :
    ∃ t m m', e.scheduler.task? task = some t ∧
      (exec (call fuel) (t.body t.runs) (e.startTask task due)).Leaves m ∧
      (m' = m ∨ ∃ line, m' = m.log line) ∧
      e' = { m' with scheduler := m'.scheduler.complete task } := by
  obtain ⟨⟨t, ht, -⟩, -, -⟩ := Scheduler.due_of_next? hnext
  unfold runTask at h
  rw [ht] at h
  obtain ⟨_, m', hguarded, hend⟩ := Run.exists_of_bind h
  obtain ⟨m, hm, hlog⟩ := left_of_guarded hguarded
  cases hend
  exact ⟨t, m, m', ht, hm, hlog, rfl⟩

/-- A run of a task does not break off. -/
theorem runTask_ne_panicked (fuel : Nat) (task : TaskId) (due : Nat) (e e' : Engine) :
    runTask (exec (call fuel)) task due e ≠ .panicked e' := by
  unfold runTask
  split
  · nofun
  · next t _ =>
    -- whatever the body does, the guard returns or does not end
    dsimp only
    generalize exec (call fuel) (t.body t.runs) _ = r
    match r with
    | .returned (.ok _) _ => nofun
    | .returned (.error _) _ => nofun
    | .panicked _ => nofun
    | .diverged => nofun

/-- The run of a task starts, its body does deeds, and at last it comes to its end. -/
theorem beats_of_runTask {fuel limit due : Nat} {task : TaskId}
    (hresting : e.scheduler.resting = true)
    (hnext : e.scheduler.next? limit = some (task, due))
    (h : runTask (exec (call fuel)) task due e = .returned () e') : Beats e e' := by
  obtain ⟨t, m, m', -, hbody, hlog, rfl⟩ := ran_of_runTask hnext h
  have hm : Beats e m := .head (.start hresting hnext) (deeds_of_exec hbody).beats
  have hm' : Beats e m' := by
    rcases hlog with rfl | ⟨line, rfl⟩
    · exact hm
    · exact hm.tail (Deed.move (.log m line)).beat
  exact hm'.tail (.complete m' task)

theorem Stretch.beats (h : Stretch e e') : Beats e e' := by
  cases h with
  | task fuel limit task due hresting hnext h => exact beats_of_runTask hresting hnext h
  | lull h _ => exact .single h

theorem Elapses.beats (h : Elapses e e') : Beats e e' := by
  induction h with
  | refl => exact .refl
  | tail _ hs ih => exact ih.trans hs.beats

theorem Elapses.evolves (h : Elapses e e') : Evolves e e' := h.beats.evolves

theorem keeping_elapses (e : Engine) : Keeping (Elapses e) where
  quiet hq h := h.tail (Deed.move hq.move).stretch
  call fuel c m h := (call_deeds fuel c m).mono (fun _ _ hd => h.trans hd.elapses)
    fun _ hd => h.trans hd.elapses
  settle m h := h.tail (.lull (.settle m) (.of_eq rfl))
  task fuel limit task due m hresting hnext h := by
    cases hrun : runTask (exec (call fuel)) task due m with
    | returned a m' => exact h.tail (.task fuel limit task due hresting hnext hrun)
    | panicked m' => exact absurd hrun (runTask_ne_panicked fuel task due m m')
    | diverged => trivial
  tick m time hresting hnext h :=
    h.tail (.lull ⟨.pulse (.tick m time), .of_next?_none hresting hnext⟩ (.of_eq rfl))
  job m number h := h.tail (.lull ⟨.pulse (.job m number), .inl rfl⟩ (.of_record rfl nofun))
  pool m pool h := h.tail (.lull ⟨.pulse (.pool m pool), .inl rfl⟩ (.of_eq rfl))
  store m store h := h.tail (Supply.store m store).stretch
  catalog m catalog h := h.tail (Supply.types m m.registry catalog).stretch

/-- **Whatever the host asks for is made up of stretches.** -/
theorem HostStep.elapses (h : HostStep e e') : Elapses e e' := by
  refine (keeping_elapses e).hostStep (fun t hr => ?_) h .refl
  exact .single (supply_of_register hr).stretch

/-- **Whatever the host asks for is made up of beats.** -/
theorem HostStep.beats (h : HostStep e e') : Beats e e' := h.elapses.beats

end Engine

end Flowgraph
