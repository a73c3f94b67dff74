import Flowgraph.Proofs.Run.Clockwork

/-!
# The starts of a task

When the runs of a task have started, as the journal tells it. The beat that starts one adds its
time at the end, and no other beat adds anything.

* `Engine.starts` — the times at which runs of a task started, as the journal tells them.
* `Beat.starts` — only the beat that starts a run of the task adds to them.
-/

namespace Flowgraph

/-- The time at which a run of the task started, if that is what happened. -/
def Entry.startOf? (task : TaskId) : Entry → Option Nat
  | .started time id => if id = task then some time else none
  | _ => none

theorem Entry.startOf?_of_task?_ne {entry : Entry} {task : TaskId} (h : entry.task? ≠ some task) :
    entry.startOf? task = none := by
  cases entry with
  | started time id => exact if_neg fun heq => h (congrArg some heq)
  | _ => rfl

namespace Engine

variable {e e' m : Engine} {task : TaskId}

/-! ### The times of starts -/

/-- The times at which runs of a task started, the earliest first. -/
def starts (e : Engine) (task : TaskId) : List Nat :=
  e.journal.reverse.filterMap (·.startOf? task)

/-- What is put before the journal adds its starts behind the others. -/
theorem starts_of_journal (new : Journal) (h : e'.journal = new ++ e.journal) (task : TaskId) :
    e'.starts task = e.starts task ++ new.reverse.filterMap (·.startOf? task) := by
  rw [starts, starts, h, List.reverse_append, List.filterMap_append]

/-- Where only other tasks are started, a task has no new start. -/
theorem starts_of_startsOnly (h : StartsOnly (· ≠ task) e e') : e'.starts task = e.starts task := by
  obtain ⟨new, hnew, hother⟩ := h
  have hnone : new.reverse.filterMap (·.startOf? task) = [] := by
    refine List.filterMap_eq_nil_iff.mpr fun entry hentry => ?_
    refine Entry.startOf?_of_task?_ne fun htask => ?_
    exact hother entry (List.mem_reverse.mp hentry) task htask rfl
  rw [starts_of_journal new hnew, hnone, List.append_nil]

theorem Deeds.starts (h : Deeds e e') (task : TaskId) : e'.starts task = e.starts task := by
  induction h with
  | refl => rfl
  | tail _ hd ih => exact (starts_of_startsOnly hd.startsOnly).trans ih

/-- A run starts when it is due, or at once if it is late. -/
theorem now_startTask (e : Engine) (task : TaskId) (due : Nat) :
    (e.startTask task due).now = max e.now due := rfl

theorem starts_startTask_self (e : Engine) (task : TaskId) (due : Nat) :
    (e.startTask task due).starts task = e.starts task ++ [max e.now due] := by
  have hentry : (Entry.started (e.scheduler.begin task due).now task).startOf? task =
      some (max e.now due) := if_pos rfl
  have hnew : [Entry.started (e.scheduler.begin task due).now task].reverse.filterMap
      (·.startOf? task) = [max e.now due] := List.filterMap_cons_some hentry
  rw [← hnew]
  exact starts_of_journal [.started (e.scheduler.begin task due).now task] rfl task

theorem starts_startTask_of_ne {other : TaskId} (h : other ≠ task) (due : Nat) :
    (e.startTask other due).starts task = e.starts task :=
  starts_of_startsOnly (.of_record rfl fun _ htask => Option.some.inj htask ▸ h)

/-- **A beat adds a start to those of a task, or leaves them as they are.** -/
theorem Beat.starts (h : Beat e e') (task : TaskId) :
    e'.starts task = e.starts task ∨ ∃ limit due, e.scheduler.next? limit = some (task, due) ∧
      e' = e.startTask task due := by
  cases h.change with
  | deed hd => exact .inl (starts_of_startsOnly hd.startsOnly)
  | supply hs => exact .inl (starts_of_startsOnly (.of_eq hs.journal))
  | pulse hp =>
    cases hp with
    -- a start is a start of this task or of another
    | start limit other due hnext =>
      by_cases hother : other = task
      · subst hother
        exact .inr ⟨limit, due, hnext, rfl⟩
      · exact .inl (starts_startTask_of_ne hother due)
    | job number => exact .inl (starts_of_startsOnly (.of_record rfl nofun))
    | settle => exact .inl rfl
    | complete => exact .inl rfl
    | tick => exact .inl rfl
    | pool => exact .inl rfl

/-! ### Tasks that are not there yet -/

/-- Before an engine is created no task is started. -/
theorem unstarted_of_create {config : Config} {registry : Registry Behaviour} {catalog : Catalog}
    {store : Store} {s : Scheduler (Nat → Program)} {pool : Option (Pool Program)}
    {dice : Nat → Float → Float → Float}
    (h : create config registry catalog store (some s) pool dice = .ok e) :
    ∀ entry ∈ e.journal, entry.task? = none := by
  -- what a new engine has in its journal was logged
  have hlines : ∀ lines : List LogLine, ∀ entry ∈ (lines.map Entry.logged).reverse ++ [],
      entry.task? = none := by
    intro lines entry hentry
    rw [List.append_nil, List.mem_reverse] at hentry
    obtain ⟨line, -, rfl⟩ := List.mem_map.mp hentry
    rfl
  cases pool <;>
  · cases h
    rw [logAll_eq]
    exact List.forall_mem_cons.mpr ⟨rfl, hlines _⟩

/-- Only tasks that were made are started. -/
theorem Reachable.started_le (he : Reachable e) :
    ∀ entry ∈ e.journal, ∀ task, entry.task? = some task → task ≤ e.scheduler.tasks.length := by
  induction he with
  | created h _ =>
    intro entry hentry task htask
    rw [unstarted_of_create h entry hentry] at htask
    cases htask
  | @change e e' _ hc ih =>
    have hlength : e.scheduler.tasks.length ≤ e'.scheduler.tasks.length :=
      hc.reschedules.keeps.length
    -- what a change starts was a task before it
    obtain ⟨new, hnew, hstarted⟩ : StartsOnly (· ≤ e.scheduler.tasks.length) e e' :=
      hc.startsOnly fun _ _ ht _ => Scheduler.le_length_of_task? ht
    intro entry hentry task htask
    rw [hnew] at hentry
    rcases List.mem_append.mp hentry with hentry | hentry
    · exact Nat.le_trans (hstarted entry hentry task htask) hlength
    · exact Nat.le_trans (ih entry hentry task htask) hlength

/-- A task that was not made yet has not started. -/
theorem Reachable.starts_eq_nil (he : Reachable e) (hlt : e.scheduler.tasks.length < task) :
    e.starts task = [] := by
  refine List.filterMap_eq_nil_iff.mpr fun entry hentry =>
    Entry.startOf?_of_task?_ne fun htask => ?_
  have hle := he.started_le entry (List.mem_reverse.mp hentry) task htask
  exact Nat.not_lt.mpr hle hlt

end Engine

end Flowgraph
