import Flowgraph.Proofs.Run.Advancing
import Flowgraph.Proofs.Task.Lifetime

/-!
# The timetable of a periodic task

A periodic task runs at a fixed rate or with a fixed delay. One looks at its first deadline and adds
periods, the other at the end of its last run and adds a pause. Where time passes only between runs,
in whole milliseconds, both come to the same timetable: a run starts at each time of it, one after
another, until the task is cancelled, and none after that.

The invariant is `OnTime`: what the journal tells of the runs of the task is the beginning of its
timetable, the last of them has ended when it started, and the clock has not passed the time of the
next one. Every beat keeps it, whatever else the engine does meanwhile, and whatever becomes of the
runs themselves.

* `OnTime.due_eq` — the time of the next run, in closed form.
* `OnTime.beat`, `Beats.onTime` — every beat keeps the timetable.
* `Beats.starts_of_cancelled`, `Beats.stopped` — cancelling is what ends it, for good.
* `Periodically`, `periodic_of_schedule` — what becomes of a periodic task, from the moment it is
  asked for.
-/

namespace Flowgraph

/-! ### Periodic timings -/

/-- The timings of periodic tasks, in whole milliseconds. -/
inductive Timing.Periodic (initial period : Nat) : Timing → Prop
  | fixedRate : Periodic initial period (.fixedRate (.ofMillis initial) (.ofMillis period))
  | fixedDelay : Periodic initial period (.fixedDelay (.ofMillis initial) (.ofMillis period))

/-- If the run before has ended at its own time, the next one is due at the first time plus whole
periods. -/
theorem Timing.Periodic.due?_eq {timing : Timing} {initial period created rested run : Nat}
    (h : timing.Periodic initial period)
    (hrested : run = 0 ∨ rested + period = created + initial + run * period) :
    timing.due? created rested run = some (created + initial + run * period) := by
  cases h with
  | fixedRate => exact due?_fixedRate_ofMillis ..
  | fixedDelay => exact due?_fixedDelay_ofMillis hrested

/-- A period of no length is refused. -/
theorem Timing.Periodic.pos {timing : Timing} {initial period now : Nat}
    (h : timing.Periodic initial period) (hcheck : timing.check now = .ok ()) : 0 < period := by
  refine Nat.pos_of_ne_zero ?_
  rintro rfl
  cases h with
  | fixedRate => cases hcheck
  | fixedDelay => cases hcheck

/-- The first times of a timetable. -/
def timetable (first period n : Nat) : List Nat := (List.range n).map (first + · * period)

theorem timetable_succ (first period n : Nat) :
    timetable first period (n + 1) = timetable first period n ++ [first + n * period] := by
  rw [timetable, List.range_succ, List.map_append]
  rfl

theorem length_timetable (first period n : Nat) : (timetable first period n).length = n := by
  rw [timetable, List.length_map, List.length_range]

namespace Engine

variable {e e' m : Engine} {task : TaskId} {first period : Nat} {t t' : Task (Nat → Program)}

/-! ### Keeping the timetable -/

/-- **A task is on time**: its runs have started at the first times of the timetable, and the next
run is not overdue. -/
structure OnTime (task : TaskId) (first period : Nat) (e : Engine) (t : Task (Nat → Program)) :
    Prop where
  task? : e.scheduler.task? task = some t
  timing : ∃ initial, t.timing.Periodic initial period ∧ first = t.created + initial
  /-- The last run has ended at its own time, or it will if it ends now. -/
  rested : t.runs = 0 ∨ t.restsFrom e.now + period = first + t.runs * period
  starts : e.starts task = timetable first period t.runs
  past : ∀ run < t.runs, first + run * period ≤ e.now
  /-- There always is a next run, so nothing ends the task but that it is cancelled. -/
  ended : t.ended = true → t.cancelled = true
  prompt : t.cancelled = false → e.now ≤ first + t.runs * period

/-- **The time of the next run**, if the run that may be under way ends now. -/
theorem OnTime.due_eq (h : OnTime task first period e t) :
    t.timing.due? t.created (t.restsFrom e.now) t.runs = some (first + t.runs * period) := by
  obtain ⟨initial, htiming, hfirst⟩ := h.timing
  rw [hfirst]
  exact htiming.due?_eq (hfirst ▸ h.rested)

theorem OnTime.due?_eq (h : OnTime task first period e t) (hgoes : t.cancelled = false)
    (hrests : t.running = false) : t.due? = some (first + t.runs * period) := by
  have hended : t.ended = false := by
    rw [← Bool.not_eq_true]
    intro hended
    cases hgoes.symm.trans (h.ended hended)
  have hdue := h.due_eq
  rw [Task.restsFrom_of_not_running hrests] at hdue
  rw [Task.due?, hgoes, hended, hrests]
  exact hdue

/-- A beat that starts no run of the task keeps it on time unless the clock passes its next run. -/
theorem OnTime.keep (h : OnTime task first period e t) (ht' : e'.scheduler.task? task = some t')
    (hk : t.Proceeds t') (hruns : t'.runs = t.runs) (hstarts : e'.starts task = e.starts task)
    (hrests : t'.restsFrom e'.now = t.restsFrom e.now)
    (hended : t'.ended = true → t'.cancelled = true) (hnow : e.now ≤ e'.now)
    (hprompt : t.cancelled = false → e'.now ≤ first + t.runs * period) :
    OnTime task first period e' t' where
  task? := ht'
  timing := by
    rw [hk.timing, hk.created]
    exact h.timing
  rested := by
    rw [hruns, hrests]
    exact h.rested
  starts := by
    rw [hstarts, hruns]
    exact h.starts
  past run hrun := Nat.le_trans (h.past run (hruns ▸ hrun)) hnow
  ended := hended
  prompt hgoes := by
    rw [hruns]
    -- if it is not cancelled now, it was not before
    refine hprompt ?_
    rw [← Bool.not_eq_true]
    exact fun hcancelled => Bool.eq_false_iff.mp hgoes (hk.cancelled hcancelled)

/-- The task stays as it is while the clock moves on as it may. -/
theorem OnTime.wait (h : OnTime task first period e t) (ht' : e'.scheduler.task? task = some t)
    (hstarts : e'.starts task = e.starts task) (hnow : e.now ≤ e'.now)
    (htimely : e.scheduler.Timely e'.now) : OnTime task first period e' t := by
  rcases htimely with hsame | ⟨hresting, hle⟩
  · have hsame : e'.now = e.now := hsame
    exact h.keep ht' (.refl t) rfl hstarts (by rw [hsame]) h.ended hnow (hsame ▸ h.prompt)
  · -- no run is under way, and the clock does not pass the next one
    have hrests : t.running = false := Scheduler.resting_iff.mp hresting task t h.task?
    refine h.keep ht' (.refl t) rfl hstarts ?_ h.ended hnow fun hgoes => ?_
    · rw [Task.restsFrom_of_not_running hrests, Task.restsFrom_of_not_running hrests]
    · exact hle task t _ h.task? (h.due?_eq hgoes hrests)

/-- The same scheduler and no new starts. -/
theorem OnTime.congr (h : OnTime task first period e t) (hs : e'.scheduler = e.scheduler)
    (hstarts : e'.starts task = e.starts task) : OnTime task first period e' t := by
  have hnow : e'.now = e.now := congrArg Scheduler.now hs
  exact h.wait (hs ▸ h.task?) hstarts (Nat.le_of_eq hnow.symm) (.inl hnow)

theorem OnTime.deed (h : OnTime task first period e t) (hd : Deed e e') :
    ∃ t', OnTime task first period e' t' := by
  have hnow : e'.now = e.now := hd.steady.now
  have hstarts : e'.starts task = e.starts task := starts_of_startsOnly hd.startsOnly
  -- a deed cancels the task or leaves it as it is
  rcases hd.steady.kept task t h.task? with ht' | ht'
  · exact ⟨t, h.wait ht' hstarts (Nat.le_of_eq hnow.symm) (.inl hnow)⟩
  · have hk : t.Proceeds { t with cancelled := true } :=
      ⟨rfl, rfl, rfl, rfl, Nat.le_refl _, fun _ => rfl, id⟩
    exact ⟨_, h.keep ht' hk rfl hstarts (by rw [hnow]; rfl) (fun _ => rfl)
      (Nat.le_of_eq hnow.symm) (hnow ▸ h.prompt)⟩

/-- The run of the task that is next starts at the next time of its timetable. -/
theorem OnTime.start (h : OnTime task first period e t) {limit due : Nat}
    (hnext : e.scheduler.next? limit = some (task, due)) :
    due = first + t.runs * period ∧ t.cancelled = false ∧
      OnTime task first period (e.startTask task due) t.begin := by
  obtain ⟨⟨t₁, ht₁, hdue⟩, -, -⟩ := Scheduler.due_of_next? hnext
  cases h.task?.symm.trans ht₁
  obtain ⟨hgoes, -, hrests, -⟩ := Task.due?_eq_some hdue
  have heq : due = first + t.runs * period :=
    Option.some.inj (hdue.symm.trans (h.due?_eq hgoes hrests))
  -- the clock has not passed the run, so the task is prompt
  have hnow : max e.now due = due := Nat.max_eq_right (heq ▸ h.prompt hgoes)
  have hnow' : (e.startTask task due).now = due := hnow
  have hruns : first + t.begin.runs * period = due + period := by
    rw [heq, Nat.add_assoc, ← Nat.succ_mul]
    rfl
  refine ⟨heq, hgoes, ?_, h.timing, .inr ?_, ?_, ?_, h.ended, fun _ => ?_⟩
  · have hbegin := Scheduler.task?_begin e.scheduler task due task
    rw [Scheduler.task?_modify_self, h.task?] at hbegin
    exact hbegin
  · rw [hnow', hruns]
    rfl
  · rw [starts_startTask_self, hnow, h.starts, heq]
    exact (timetable_succ first period t.runs).symm
  · intro run hrun
    rw [hnow', heq]
    exact Nat.add_le_add_left (Nat.mul_le_mul_right _ (Nat.le_of_lt_succ hrun)) _
  · rw [hnow', hruns]
    exact Nat.le_add_right ..

/-- The clock does not pass the next run of the task when the run of another one starts. -/
theorem OnTime.start_other (h : OnTime task first period e t) {due : Nat} {other : TaskId}
    (hother : other ≠ task) (htimely : e.scheduler.Timely (max e.now due)) :
    OnTime task first period (e.startTask other due) t := by
  have htask : (e.startTask other due).scheduler.task? task = some t :=
    (Scheduler.task?_begin_of_ne (Ne.symm hother) e.scheduler due).trans h.task?
  exact h.wait htask (starts_startTask_of_ne hother due) (Nat.le_max_left ..) htimely

/-- A run of the task that comes to its end does not end the task. -/
theorem OnTime.complete (h : OnTime task first period e t) (other : TaskId) :
    ∃ t', OnTime task first period { e with scheduler := e.scheduler.complete other } t' ∧
      t'.cancelled = t.cancelled ∧ t'.runs = t.runs ∧ (other = task → t'.running = false) := by
  have hnow : (e.scheduler.complete other).now = e.now := by cases other <;> rfl
  by_cases hother : other = task
  · subst hother
    have htask : (e.scheduler.complete other).task? other = some (t.complete e.now) := by
      rw [Scheduler.complete, Scheduler.task?_modify_self, h.task?]
      rfl
    cases hrun : t.running with
    | false =>
      rw [Task.complete_of_not_running hrun] at htask
      exact ⟨t, h.wait htask rfl (Nat.le_of_eq hnow.symm) (.inl hnow), rfl, rfl, fun _ => hrun⟩
    | true =>
      have hk := t.proceeds_complete e.now
      have hrestsFrom : t.restsFrom e.now = e.now := if_pos hrun
      have hdue := h.due_eq
      rw [hrestsFrom] at hdue
      rw [Task.complete_of_running hrun] at htask hk
      refine ⟨_, h.keep htask hk rfl rfl ?_ (fun hended => ?_) (Nat.le_of_eq hnow.symm)
        fun hgoes => ?_, rfl, rfl, fun _ => rfl⟩
      · exact hrestsFrom.symm
      · -- since a next run is due, only a task that was cancelled has ended
        rw [hdue] at hended
        exact h.ended ((Bool.or_false _).symm.trans hended)
      · exact Nat.le_trans (Nat.le_of_eq hnow) (h.prompt hgoes)
  · have htask : (e.scheduler.complete other).task? task = some t :=
      (Scheduler.task?_complete_of_ne (Ne.symm hother) e.scheduler).trans h.task?
    exact ⟨t, h.wait htask rfl (Nat.le_of_eq hnow.symm) (.inl hnow), rfl, rfl,
      fun heq => absurd heq hother⟩

theorem OnTime.settle (h : OnTime task first period e t) :
    OnTime task first period e.settle { t with ended := t.ended || t.cancelled } := by
  have htask : e.settle.scheduler.task? task =
      some { t with ended := t.ended || t.cancelled } := by
    rw [Engine.settle, Scheduler.task?_settle, h.task?]
    rfl
  have hk : t.Proceeds { t with ended := t.ended || t.cancelled } :=
    ⟨rfl, rfl, rfl, rfl, Nat.le_refl _, id, fun hended => by rw [hended]; rfl⟩
  refine h.keep htask hk rfl rfl rfl (fun hended => ?_) (Nat.le_refl _) h.prompt
  exact (Bool.or_eq_true_iff.mp hended).elim h.ended id

/-- **Every beat keeps the timetable**, and nothing but a deed of a program cancels the task. -/
theorem OnTime.beat (h : OnTime task first period e t) (hb : Beat e e') :
    ∃ t', OnTime task first period e' t' ∧ (Deed e e' ∨ t'.cancelled = t.cancelled) := by
  have htimely := hb.timely
  cases hb.change with
  | deed hd =>
    obtain ⟨t', h'⟩ := h.deed hd
    exact ⟨t', h', .inl hd⟩
  | supply hs => exact
      ⟨t, h.congr hs.scheduler (starts_of_startsOnly (.of_eq hs.journal)), .inr rfl⟩
  | pulse hp =>
    cases hp with
    | settle => exact ⟨_, h.settle, .inr rfl⟩
    -- only a start of the task itself moves it on to its next time
    | start limit other due hnext =>
      by_cases hother : other = task
      · subst hother
        exact ⟨_, (h.start hnext).2.2, .inr rfl⟩
      · exact ⟨t, h.start_other hother htimely, .inr rfl⟩
    | complete other =>
      obtain ⟨t', h', hcancelled, -⟩ := h.complete other
      exact ⟨t', h', .inr hcancelled⟩
    | tick time =>
      have htask : ({ e.scheduler with now := max e.now time } : Scheduler _).task? task = some t :=
        (Scheduler.task?_congr rfl task).trans h.task?
      exact ⟨t, h.wait htask rfl (Nat.le_max_left ..) htimely, .inr rfl⟩
    | job number =>
      have hstarts : (e.startJob number).starts task = e.starts task :=
        starts_of_startsOnly (.of_record rfl nofun)
      exact ⟨t, h.congr rfl hstarts, .inr rfl⟩
    | pool pool => exact ⟨t, h.congr rfl rfl, .inr rfl⟩

/-- **Along every run a task that is on time stays on time.** -/
theorem Beats.onTime (hs : Beats e e') (h : OnTime task first period e t) :
    ∃ t', OnTime task first period e' t' ∧ t.Proceeds t' := by
  have hon : ∃ t', OnTime task first period e' t' := by
    induction hs with
    | refl => exact ⟨t, h⟩
    | tail _ hb ih =>
      obtain ⟨t', h'⟩ := ih
      obtain ⟨t'', h'', -⟩ := h'.beat hb
      exact ⟨t'', h''⟩
  obtain ⟨t', h'⟩ := hon
  -- the task found on the way is the one under the number
  obtain ⟨t₁, ht₁, hproceeds⟩ := hs.evolves.proceeds task t h.task?
  cases h'.task?.symm.trans ht₁
  exact ⟨t', h', hproceeds⟩

/-! ### What a timetable says -/

theorem OnTime.isCancelled_eq (h : OnTime task first period e t) :
    e.scheduler.isCancelled task = t.cancelled := by
  rw [Scheduler.isCancelled, h.task?]

/-- No run is missing whose time the clock has passed. -/
theorem OnTime.lt_runs (h : OnTime task first period e t) (hgoes : t.cancelled = false) {run : Nat}
    (hpassed : first + run * period < e.now) : run < t.runs := by
  have hlt : first + run * period < first + t.runs * period :=
    Nat.lt_of_lt_of_le hpassed (h.prompt hgoes)
  exact Nat.lt_of_mul_lt_mul_right (Nat.lt_of_add_lt_add_left hlt)

/-- When nothing is due any more, no run is missing whose time has come. -/
theorem OnTime.lt_runs_iff (h : OnTime task first period e t) (hgoes : t.cancelled = false)
    (hresting : e.scheduler.resting = true) (hidle : e.scheduler.next? e.now = none) {run : Nat} :
    run < t.runs ↔ first + run * period ≤ e.now := by
  constructor
  · exact h.past run
  · intro hcome
    have hrests : t.running = false := Scheduler.resting_iff.mp hresting task t h.task?
    have hdue : e.now < first + t.runs * period :=
      Scheduler.next?_eq_none_iff.mp hidle task t _ h.task? (h.due?_eq hgoes hrests)
    have hlt : first + run * period < first + t.runs * period := Nat.lt_of_le_of_lt hcome hdue
    exact Nat.lt_of_mul_lt_mul_right (Nat.lt_of_add_lt_add_left hlt)

/-! ### Cancelling -/

theorem isCancelled_cancel (e : Engine) (task : TaskId) :
    (e.scheduler.cancel task).isCancelled task = true := by
  rw [Scheduler.isCancelled, Scheduler.cancel, Scheduler.task?_modify_self]
  cases e.scheduler.task? task <;> rfl

/-- A task that is cancelled stays so, and starts no run. -/
theorem Beat.starts_of_cancelled (hb : Beat e e') (ht : e.scheduler.task? task = some t)
    (hcancelled : t.cancelled = true) : e'.starts task = e.starts task := by
  rcases hb.starts task with hsame | ⟨limit, due, hnext, -⟩
  · exact hsame
  · obtain ⟨⟨t₁, ht₁, hdue⟩, -, -⟩ := Scheduler.due_of_next? hnext
    cases ht.symm.trans ht₁
    cases hcancelled.symm.trans (Task.due?_eq_some hdue).1

theorem Beats.starts_of_cancelled (hs : Beats e e') (ht : e.scheduler.task? task = some t)
    (hcancelled : t.cancelled = true) :
    e'.scheduler.isCancelled task = true ∧ e'.starts task = e.starts task := by
  induction hs with
  | refl =>
    rw [Scheduler.isCancelled, ht]
    exact ⟨hcancelled, rfl⟩
  | @tail m e' hm hb ih =>
    have hm : Beats e m := hm
    -- cancelled once, cancelled for good
    obtain ⟨t', ht', hproceeds⟩ := hm.evolves.proceeds task t ht
    obtain ⟨t'', ht'', hproceeds'⟩ := hb.change.reschedules.proceeds task t' ht'
    have hcancelled' : t'.cancelled = true := hproceeds.cancelled hcancelled
    rw [Scheduler.isCancelled, ht'']
    exact ⟨hproceeds'.cancelled hcancelled', (hb.starts_of_cancelled ht' hcancelled').trans ih.2⟩

/-- A task was cancelled on the way, at first by a deed of a program, and from then on it has
started no run. -/
def Stopped (task : TaskId) (e e' : Engine) : Prop :=
  ∃ m m', Beats e m ∧ m.scheduler.isCancelled task = false ∧
    Deed m m' ∧ m'.scheduler.isCancelled task = true ∧ Beats m' e' ∧ e'.starts task = m.starts task

/-- Nothing but a deed of a program cancels a task. -/
theorem OnTime.deed_of_cancelled (h : OnTime task first period e t) (hb : Beat e e')
    (hgoes : t.cancelled = false) (hcancelled : e'.scheduler.isCancelled task = true) :
    Deed e e' := by
  obtain ⟨t', h', hd | hsame⟩ := h.beat hb
  · exact hd
  · rw [h'.isCancelled_eq, hsame, hgoes] at hcancelled
    cases hcancelled

/-- **There is a first moment at which a task is cancelled**, and nothing is added to its runs after
it. -/
theorem Beats.stopped (hs : Beats e e') (h : OnTime task first period e t)
    (hgoes : t.cancelled = false) (hcancelled : e'.scheduler.isCancelled task = true) :
    Stopped task e e' := by
  induction hs with
  | refl =>
    rw [h.isCancelled_eq, hgoes] at hcancelled
    cases hcancelled
  | @tail m e' hm hb ih =>
    have hm : Beats e m := hm
    obtain ⟨t', ht', -⟩ := hm.onTime h
    cases hnow : t'.cancelled with
    | true =>
      -- it was cancelled before
      obtain ⟨m₁, m₂, h₁, hgoes₁, hd, hcancelled₂, h₂, hstarts⟩ :=
        ih (ht'.isCancelled_eq.trans hnow)
      have hlast : e'.starts task = m.starts task := hb.starts_of_cancelled ht'.task? hnow
      exact ⟨m₁, m₂, h₁, hgoes₁, hd, hcancelled₂, h₂.tail hb, hlast.trans hstarts⟩
    | false =>
      have hd : Deed m e' := ht'.deed_of_cancelled hb hnow hcancelled
      exact ⟨m, e', hm, ht'.isCancelled_eq.trans hnow, hd, hcancelled, .refl,
        starts_of_startsOnly hd.startsOnly⟩

/-- The replacement of a graph cancels its tasks that are on time. -/
theorem OnTime.cancelled_of_replaces (h : OnTime task first period e t) (he : Reachable e)
    (howner : t.owner = some e.live) {fuel : Nat} {c : Command} {answer : c.Answer}
    (hc : c.Replaces e) (hcall : call fuel c e = .returned answer e') :
    e'.scheduler.isCancelled task = true := by
  have hdeeds : Deeds e e' := (call_deeds fuel c e).returned hcall
  obtain ⟨t', h', hproceeds⟩ := hdeeds.beats.onTime h
  have howner' : t'.owner = some e.live := hproceeds.owner.trans howner
  -- a task of the graph that is not over would be held by it still
  have hover : t'.isOver = true := by
    obtain ⟨-, hclosed⟩ := closed_of_replaces he.placed hc hcall
    rw [← Bool.not_eq_false]
    intro hnot
    have hheld := (hdeeds.evolves.accounted he.accounted).tracked task t' _ h'.task? hnot howner'
    rw [hclosed.tracked] at hheld
    cases hheld
  rw [h'.isCancelled_eq]
  exact (Bool.or_eq_true_iff.mp hover).elim id h'.ended

/-! ### Making a periodic task -/

/-- What a program is answered that asks for a task. -/
theorem of_schedule {g : GraphId} {timing : Timing} {body : Nat → Program}
    {answer : Except SchedulingError TaskId} (h : e.schedule g timing body = .returned answer e') :
    (∃ err, answer = .error err ∧ timing.check e.now = .error err ∧ e' = e) ∨
      ∃ task s, answer = .ok task ∧ timing.check e.now = .ok () ∧
        e.scheduler.schedule (some g) timing body = .ok (task, s) ∧
        e' = { e with scheduler := s }.track g task ∧ Move e e' := by
  unfold schedule at h
  split at h
  · next hreaches =>
    split at h
    · next err herr =>
      cases h
      exact .inl ⟨err, rfl, Scheduler.check_of_refused herr, rfl⟩
    · next task s hs =>
      cases h
      exact .inr ⟨task, s, rfl, (Scheduler.of_schedule hs).1, hs, rfl,
        .schedule e g timing body task s hreaches hs⟩
  · cases h

/-- A periodic task that is made is on time. -/
theorem onTime_of_schedule (he : Reachable e) {g : GraphId} {timing : Timing} {initial : Nat}
    {body : Nat → Program} {s : Scheduler (Nat → Program)}
    (htiming : timing.Periodic initial period)
    (hs : e.scheduler.schedule (some g) timing body = .ok (task, s))
    (hmove : Move e ({ e with scheduler := s }.track g task)) :
    ∃ t, OnTime task (e.now + initial) period ({ e with scheduler := s }.track g task) t ∧
      t.owner = some g ∧ t.body = body ∧ t.runs = 0 := by
  obtain ⟨-, hid, hsnew⟩ := Scheduler.of_schedule hs
  let made : Task (Nat → Program) :=
    { timing := timing, created := e.now, owner := some g, body := body }
  have hmade : s.task? task = some made := by
    rw [hid, hsnew]
    exact List.getElem?_concat_length
  have hstarts : ({ e with scheduler := s }.track g task).starts task = [] := by
    rw [starts_of_startsOnly hmove.startsOnly]
    exact he.starts_eq_nil (hid ▸ Nat.lt_succ_self _)
  have hnow : ({ e with scheduler := s }.track g task).now = e.now := hmove.edits.steady.now
  -- it is cancelled at once if its graph takes no task any more
  have hon : ∀ t : Task (Nat → Program), t.timing = timing → t.created = e.now → t.runs = 0 →
      t.ended = false → ({ e with scheduler := s }.track g task).scheduler.task? task = some t →
      OnTime task (e.now + initial) period ({ e with scheduler := s }.track g task) t := by
    intro t htime hcreated hruns hended ht
    refine ⟨ht, ⟨initial, htime ▸ htiming, by rw [hcreated]⟩, .inl hruns, ?_, fun run hrun => ?_,
      fun h => ?_, fun _ => ?_⟩
    · rw [hstarts, hruns]
      rfl
    · rw [hruns] at hrun
      cases hrun
    · rw [hended] at h
      cases h
    · rw [hnow, Nat.add_assoc]
      exact Nat.le_add_right ..
  rcases scheduler_track { e with scheduler := s } g task with htrack | htrack
  · refine ⟨{ made with cancelled := true }, hon _ rfl rfl rfl rfl ?_, rfl, rfl, rfl⟩
    rw [htrack, Scheduler.cancel, Scheduler.task?_modify_self]
    exact congrArg (Option.map _) hmade
  · refine ⟨made, hon _ rfl rfl rfl rfl ?_, rfl, rfl, rfl⟩
    rw [htrack]
    exact hmade

/-- What a periodic task does from an engine on. -/
structure Periodically (task : TaskId) (first period : Nat) (g : GraphId) (body : Nat → Program)
    (e : Engine) : Prop where
  /-- At every point, in the middle of bodies as well, its runs have started at the first times of
  its timetable, each once and in order, and none before its time. Unless it is cancelled, no run is
  missing whose time the clock has passed. -/
  keeps : ∀ m, Beats e m → ∃ n, m.starts task = timetable first period n ∧
    (∀ run < n, first + run * period ≤ m.now) ∧
    (m.scheduler.isCancelled task = false → ∀ run, first + run * period < m.now → run < n)
  /-- However an advance of the clock is split into steps, its runs have started at all times up to
  the sum of the steps, and at no others. -/
  split : ∀ m m' steps, Beats e m → Advances m steps m' → steps ≠ [] →
    m'.scheduler.isCancelled task = false → ∃ n, m'.starts task = timetable first period n ∧
      ∀ run, run < n ↔ first + run * period ≤ m.now + steps.sum
  /-- A run is given its number. Whichever way its body ends, well, with an error or by breaking
  off, the run comes to its end, and unless the task was cancelled meanwhile the next run is due a
  period later. -/
  outcome : ∀ m m' fuel limit due, Beats e m → m.scheduler.next? limit = some (task, due) →
    (exec (call fuel) (body (m.starts task).length) (m.startTask task due)).Leaves m' →
    ∃ m'', runTask (exec (call fuel)) task due m = .returned () m'' ∧
      m''.starts task = m.starts task ++ [due] ∧ m''.now = due ∧
      m''.scheduler.isCancelled task = m'.scheduler.isCancelled task ∧
      (m'.scheduler.isCancelled task = false →
        ∃ t, m''.scheduler.task? task = some t ∧ t.due? = some (due + period))
  /-- Once it is cancelled it stays so and starts no run any more. -/
  cancelled : ∀ m m', Beats e m → m.scheduler.isCancelled task = true → Beats m m' →
    m'.scheduler.isCancelled task = true ∧ m'.starts task = m.starts task
  /-- If it is cancelled, it was so from the beginning, since its graph took no task any more, or a
  program has cancelled it. -/
  moment : ∀ m, Beats e m → m.scheduler.isCancelled task = true →
    (e.scheduler.isCancelled task = true ∧ m.starts task = []) ∨ Stopped task e m
  /-- Its handle cancels it, whoever uses it, its own body included. -/
  handle : ∀ m m', Beats e m → m.act (.cancel task) = .returned () m' →
    m'.scheduler.isCancelled task = true
  /-- The replacement of its graph cancels it. -/
  replaced : ∀ m m' fuel c answer, Beats e m → m.live = g → Command.Replaces m c →
    call fuel c m = .returned answer m' → m'.scheduler.isCancelled task = true
  /-- The clock arrives at every time, if every body comes to its end and there are only so many
  tasks. -/
  arrives : ∀ m fuel time bound, Beats e m → m.scheduler.Checked → Lively fuel time bound m →
    ∃ rounds m', ∀ more, rounds ≤ more → advanceTo fuel time more m = .returned () m'

/-- A run of a task that is on time, from its start to its end. -/
theorem OnTime.run (h : OnTime task first period e t) {fuel limit due : Nat}
    (hnext : e.scheduler.next? limit = some (task, due))
    (hbody : (exec (call fuel) (t.body t.runs) (e.startTask task due)).Leaves m) :
    ∃ m', runTask (exec (call fuel)) task due e = .returned () m' ∧
      m'.starts task = e.starts task ++ [due] ∧ m'.now = due ∧
      m'.scheduler.isCancelled task = m.scheduler.isCancelled task ∧
      (m.scheduler.isCancelled task = false →
        ∃ t, m'.scheduler.task? task = some t ∧ t.due? = some (due + period)) := by
  obtain ⟨hdue, hgoes, hstart⟩ := h.start hnext
  obtain ⟨m₁, hrun, hlog⟩ := runTask_of_leaves h.task? hbody
  have hdeeds : Deeds (e.startTask task due) m := deeds_of_exec hbody
  have hdeeds₁ : Deeds (e.startTask task due) m₁ := by
    rcases hlog with rfl | ⟨line, rfl⟩
    · exact hdeeds
    · exact hdeeds.tail (.move (.log m line))
  have hsame : m₁.scheduler = m.scheduler := by
    rcases hlog with rfl | ⟨line, rfl⟩ <;> rfl
  -- the task is still on time when the program that it has begun has run
  obtain ⟨t', h', -⟩ := hdeeds₁.beats.onTime hstart
  obtain ⟨t'', hend, hcancelled'', hruns'', hrests⟩ := h'.complete task
  have hprompt : max e.now due = due := Nat.max_eq_right (hdue ▸ h.prompt hgoes)
  have hstarts : m₁.starts task = e.starts task ++ [due] := by
    rw [hdeeds₁.starts, starts_startTask_self, hprompt]
  have hruns : t'.runs = t.runs + 1 := by
    have hlength := congrArg List.length (h'.starts.symm.trans hstarts)
    rw [List.length_append, h.starts, length_timetable, length_timetable] at hlength
    exact hlength
  have hcancelled : t''.cancelled = m.scheduler.isCancelled task := by
    rw [hcancelled'', ← hsame]
    exact h'.isCancelled_eq.symm
  refine ⟨_, hrun, hstarts, ?_, hend.isCancelled_eq.trans hcancelled, fun hgoes' => ?_⟩
  · rw [now_of_runTask hnext hrun]
    exact hprompt
  · refine ⟨t'', hend.task?, ?_⟩
    rw [hend.due?_eq (hcancelled.trans hgoes') (hrests rfl), hruns'', hruns, hdue, Nat.succ_mul,
      Nat.add_assoc]

/-- A task that is on time keeps its timetable from there on. -/
theorem OnTime.periodically (h : OnTime task first period e t) (he : Reachable e) {g : GraphId}
    {body : Nat → Program} (howner : t.owner = some g) (hbody : t.body = body) (hnew : t.runs = 0) :
    Periodically task first period g body e where
  keeps m hm := by
    obtain ⟨t', h', -⟩ := hm.onTime h
    refine ⟨t'.runs, h'.starts, h'.past, fun hgoes run => ?_⟩
    exact h'.lt_runs (h'.isCancelled_eq.symm.trans hgoes)
  split m m' steps hm hsteps hne hgoes := by
    obtain ⟨hbeats, hnow, hidle⟩ := hsteps.arrives
    have hm' : Beats e m' := hm.trans hbeats
    obtain ⟨t', h', -⟩ := hm'.onTime h
    refine ⟨t'.runs, h'.starts, fun run => ?_⟩
    -- nothing is due any more at the time that was arrived at
    rw [← hnow]
    exact h'.lt_runs_iff (h'.isCancelled_eq.symm.trans hgoes) (hidle hne).1 (hidle hne).2
  outcome m m' fuel limit due hm hnext hleaves := by
    obtain ⟨t', h', hproceeds⟩ := hm.onTime h
    rw [h'.starts, length_timetable, ← hbody, ← hproceeds.body] at hleaves
    exact h'.run hnext hleaves
  cancelled m m' hm hcancelled hm' := by
    obtain ⟨t', h', -⟩ := hm.onTime h
    exact hm'.starts_of_cancelled h'.task? (h'.isCancelled_eq.symm.trans hcancelled)
  moment m hm hcancelled := by
    cases hfirst : t.cancelled with
    | true =>
      refine .inl ⟨h.isCancelled_eq.trans hfirst, ?_⟩
      rw [(hm.starts_of_cancelled h.task? hfirst).2, h.starts, hnew]
      rfl
    | false => exact .inr (hm.stopped h hfirst hcancelled)
  handle m m' _ hact := by
    cases hact
    exact isCancelled_cancel m task
  replaced m m' fuel c answer hm hlive hc hcall := by
    obtain ⟨t', h', hproceeds⟩ := hm.onTime h
    have howner' : t'.owner = some m.live := by rw [hproceeds.owner, howner, hlive]
    exact h'.cancelled_of_replaces (he.evolves hm.evolves) howner' hc hcall
  arrives m fuel time bound _ hchecked hlively := exists_rounds hlively hchecked

/-- **A periodic task keeps its timetable.** One that is refused is none, takes no number, and
changes nothing. Any other runs from the initial delay on at every whole period, until it is
cancelled. -/
theorem periodic_of_schedule (he : Reachable e) {g : GraphId} {timing : Timing} {initial : Nat}
    {body : Nat → Program} {answer : Except SchedulingError TaskId}
    (htiming : timing.Periodic initial period)
    (h : e.schedule g timing body = .returned answer e') :
    (∃ err, answer = .error err ∧ timing.check e.now = .error err ∧ e' = e) ∨
      ∃ task, answer = .ok task ∧ timing.check e.now = .ok () ∧ 0 < period ∧
        task = e.scheduler.tasks.length + 1 ∧
        Periodically task (e.now + initial) period g body e' := by
  rcases of_schedule h with hrefused | ⟨task, s, hanswer, hcheck, hs, rfl, hmove⟩
  · exact .inl hrefused
  · obtain ⟨t, ht, howner, hbody, hruns⟩ := onTime_of_schedule he htiming hs hmove
    have he' : Reachable ({ e with scheduler := s }.track g task) := he.change hmove.change
    exact .inr ⟨task, hanswer, hcheck, htiming.pos hcheck, (Scheduler.of_schedule hs).2.1,
      ht.periodically he' howner hbody hruns⟩

/-- A task with a fixed delay whose first run fails, whose second breaks off, and whose third
cancels it. The clock is moved on in two steps, and then in one. -/
theorem periodic_of_schedule_until_third : ∃ (body : Nat → Program) (e₁ e₂ e₃ : Engine),
    (newborn ∅).schedule 0 (.fixedDelay (.ofMillis 5) (.ofMillis 10)) body =
      .returned (.ok 1) e₁ ∧
    Advances e₁ [7, 10] e₂ ∧ e₂.starts 1 = [5, 15] ∧ e₂.scheduler.isCancelled 1 = false ∧
    Advances e₂ [40] e₃ ∧ e₃.starts 1 = [5, 15, 25] ∧ e₃.scheduler.isCancelled 1 = true ∧
    Periodically 1 5 10 0 body e₁ ∧
    ∀ time, ∃ rounds m, advanceTo 1 time rounds e₁ = .returned () m := by
  let body : Nat → Program := fun run =>
    match run with
    | 0 => .fail .io
    | 1 => .panic
    | _ => .act (.cancel 1) fun _ => .done
  obtain ⟨e₁, e₂, e₃, hmade, htasks, h₁, h₂, hgoes, h₃, h₄, hcancelled⟩ : ∃ e₁ e₂ e₃ : Engine,
      (newborn ∅).schedule 0 (.fixedDelay (.ofMillis 5) (.ofMillis 10)) body =
        .returned (.ok 1) e₁ ∧
      e₁.scheduler.tasks = [{
        timing := .fixedDelay (.ofMillis 5) (.ofMillis 10), created := 0, owner := some 0,
        body := body }] ∧
      Advances e₁ [7, 10] e₂ ∧ e₂.starts 1 = [5, 15] ∧ e₂.scheduler.isCancelled 1 = false ∧
      Advances e₂ [40] e₃ ∧ e₃.starts 1 = [5, 15, 25] ∧ e₃.scheduler.isCancelled 1 = true :=
    ⟨_, _, _, rfl, rfl, .cons 1 2 rfl (.single 2 10 rfl), rfl, rfl, .single 2 40 rfl, rfl, rfl⟩
  refine ⟨body, e₁, e₂, e₃, hmade, h₁, h₂, hgoes, h₃, h₄, hcancelled, ?_⟩
  rcases periodic_of_schedule (reachable_newborn ∅) .fixedDelay hmade with
    ⟨err, hanswer, -⟩ | ⟨task, hanswer, -, -, -, hperiodic⟩
  · cases hanswer
  cases hanswer
  refine ⟨hperiodic, fun time => ?_⟩
  -- there is no other task, so what holds of this one holds of all
  have honly : ∀ id t, e₁.scheduler.task? id = some t →
      t.timing = .fixedDelay (.ofMillis 5) (.ofMillis 10) ∧ t.body = body := by
    intro id t ht
    have hmem := Scheduler.mem_of_task? ht
    rw [htasks] at hmem
    cases List.mem_singleton.mp hmem
    exact ⟨rfl, rfl⟩
  have hchecked : e₁.scheduler.Checked := fun id t ht => ⟨0, by rw [(honly id t ht).1]; rfl⟩
  -- each run comes to an end, well, badly or in a panic
  have hbrisk : Brisk 1 body := by
    intro run m
    match run with
    | 0 => exact ⟨m, .returned _ m, rfl⟩
    | 1 => exact ⟨m, .panicked m, rfl⟩
    | _ + 2 => exact ⟨_, .returned _ _, Scheduler.length_modify ..⟩
  have hresting : e₁.scheduler.resting = true := by
    rw [Scheduler.resting, htasks]
    rfl
  have hall : AllBrisk 1 e₁ := fun id t ht => (honly id t ht).2 ▸ hbrisk
  obtain ⟨rounds, m, harrives⟩ :=
    hperiodic.arrives e₁ 1 time _ .refl hchecked (hall.lively hresting time)
  exact ⟨rounds, m, harrives rounds (Nat.le_refl _)⟩

end Engine

end Flowgraph
