import Flowgraph.Task.Timing

/-!
# The scheduler

The clock and the tasks that wait for it. Tasks are numbered from one in the order in which they
were made. A cancelled task starts no run any more; it *ends* when the scheduler next goes through
its tasks, as does a task whose only run is over.

* `Scheduler.next?` is the task to run next: the earliest, and of several the one made first.
  `Scheduler.next?_eq_none_iff` and `Scheduler.due_of_next?` say that it misses none.
* `Scheduler.begin` and `Scheduler.complete` surround a run. In between the task is *running*, and
  it is not due before it rests again.
-/

namespace Flowgraph

/-- The number of a task, from one. -/
abbrev TaskId := Nat

/-- A task, with what it does when it runs. -/
structure Task (β : Type) where
  timing : Timing
  created : Nat
  /-- The graph it was made for, if it was made for one. -/
  owner : Option Nat
  body : β
  /-- The number of runs that were started. -/
  runs : Nat := 0
  /-- Whether a run is under way. -/
  running : Bool := false
  /-- When the last run came to its end; before the first one, when the task was made. -/
  rested : Nat := created
  cancelled : Bool := false
  ended : Bool := false

namespace Task

variable {β : Type}

/-- The time of the next run, for a task that still has one. -/
def due? (t : Task β) : Option Nat :=
  if t.cancelled || t.ended || t.running then none else t.timing.due? t.created t.rested t.runs

/-- A task whose run starts. -/
def begin (t : Task β) : Task β := { t with runs := t.runs + 1, running := true }

/-- A task whose run comes to its end at a time: if it has no further one, it ends. A task that is
not running stays as it is. -/
def complete (t : Task β) (now : Nat) : Task β :=
  if t.running then
    { t with
      running := false
      rested := now
      ended := t.ended || (t.timing.due? t.created now t.runs).isNone }
  else t

/-- A run that ends lets the task rest from then on. -/
theorem complete_of_running {t : Task β} (h : t.running = true) (now : Nat) :
    t.complete now = { t with
      running := false
      rested := now
      ended := t.ended || (t.timing.due? t.created now t.runs).isNone } :=
  if_pos h

/-- Where no run is under way none ends. -/
theorem complete_of_not_running {t : Task β} (h : t.running = false) (now : Nat) :
    t.complete now = t :=
  if_neg (by rw [h]; exact Bool.false_ne_true)

end Task

/-- The clock, in milliseconds, and all tasks that were ever made. -/
structure Scheduler (β : Type) where
  now : Nat := 0
  tasks : List (Task β) := []

namespace Scheduler

variable {β : Type}

/-- The task of a number. -/
def task? (s : Scheduler β) : TaskId → Option (Task β)
  | 0 => none
  | n + 1 => s.tasks[n]?

/-- Changes the task of a number, if there is one. -/
def modify (s : Scheduler β) (id : TaskId) (f : Task β → Task β) : Scheduler β :=
  match id with
  | 0 => s
  | n + 1 => { s with tasks := s.tasks.modify n f }

/-- Makes a task. A refused task takes no number. -/
def schedule (s : Scheduler β) (owner : Option Nat) (timing : Timing) (body : β) :
    Except SchedulingError (TaskId × Scheduler β) :=
  match timing.check s.now with
  | .error e => .error e
  | .ok () =>
    let t : Task β := { timing := timing, created := s.now, owner := owner, body := body }
    .ok (s.tasks.length + 1, { s with tasks := s.tasks ++ [t] })

/-- Cancels a task; a run under way goes on to its end. -/
def cancel (s : Scheduler β) (id : TaskId) : Scheduler β :=
  s.modify id fun t => { t with cancelled := true }

/-- Whether a task is cancelled; one that is not there counts as cancelled. -/
def isCancelled (s : Scheduler β) (id : TaskId) : Bool :=
  match s.task? id with
  | none => true
  | some t => t.cancelled

/-- Whether a task has ended; one that is not there counts as ended. -/
def isEnded (s : Scheduler β) (id : TaskId) : Bool :=
  match s.task? id with
  | none => true
  | some t => t.ended

/-- Tasks that were cancelled end. -/
def settle (s : Scheduler β) : Scheduler β :=
  { s with tasks := s.tasks.map fun t => { t with ended := t.ended || t.cancelled } }

/-- Of two numbered times the earlier, and of equal ones the first. -/
def earlier (a : Option (TaskId × Nat)) (b : TaskId × Nat) : Option (TaskId × Nat) :=
  match a with
  | none => some b
  | some a => if b.2 < a.2 then some b else some a

/-- The times of the next runs up to a limit, with the numbers of their tasks. -/
def dueUpTo (limit : Nat) (tasks : List (Task β)) : List (TaskId × Nat) :=
  tasks.zipIdx.filterMap fun (t, i) =>
    match t.due? with
    | none => none
    | some due => if due ≤ limit then some (i + 1, due) else none

/-- The next task to run up to a limit, and when. -/
def next? (s : Scheduler β) (limit : Nat) : Option (TaskId × Nat) :=
  (dueUpTo limit s.tasks).foldl earlier none

/-- Whether no run is under way. -/
def resting (s : Scheduler β) : Bool := s.tasks.all (!·.running)

/-- Starts a run: the clock moves on to it. -/
def begin (s : Scheduler β) (id : TaskId) (due : Nat) : Scheduler β :=
  { s.modify id Task.begin with now := max s.now due }

/-- Completes a run. -/
def complete (s : Scheduler β) (id : TaskId) : Scheduler β := s.modify id (·.complete s.now)

/-! ### Laws -/

/-- The task that is changed. -/
@[simp] theorem task?_modify_self (s : Scheduler β) (id : TaskId) (f : Task β → Task β) :
    (s.modify id f).task? id = (s.task? id).map f := by
  cases id with
  | zero => rfl
  | succ n => simp [modify, task?]

/-- Another task than the one that is changed. -/
theorem task?_modify_of_ne {s : Scheduler β} {id id' : TaskId} (f : Task β → Task β)
    (h : id ≠ id') : (s.modify id f).task? id' = s.task? id' := by
  cases id with
  | zero => rfl
  | succ n =>
    cases id' with
    | zero => rfl
    | succ m =>
      have hne : n ≠ m := fun e => h (congrArg (· + 1) e)
      simp [modify, task?, hne]

/-- Cancelled tasks end without a run. -/
theorem resting_settle (s : Scheduler β) : s.settle.resting = s.resting := by
  rw [resting, settle, List.all_map]
  rfl

/-- Which tasks are due up to a time. -/
theorem mem_dueUpTo_iff {limit : Nat} {s : Scheduler β} {id : TaskId} {due : Nat} :
    (id, due) ∈ dueUpTo limit s.tasks ↔
      (∃ t, s.task? id = some t ∧ t.due? = some due) ∧ due ≤ limit := by
  simp only [dueUpTo, List.mem_filterMap, Prod.exists, List.mem_zipIdx_iff_getElem?]
  constructor
  · rintro ⟨t, i, ht, h⟩
    split at h
    · cases h
    · rename_i due' hdue
      split at h
      · rename_i hle
        cases h
        exact ⟨⟨t, ht, hdue⟩, hle⟩
      · cases h
  · rintro ⟨⟨t, ht, hdue⟩, hle⟩
    -- no task has the number zero
    cases id with
    | zero => cases ht
    | succ i => exact ⟨t, i, ht, by simp [hdue, hle]⟩

/-- The search ends with one of the earliest. -/
theorem foldl_earlier (times : List (TaskId × Nat)) (a : TaskId × Nat) :
    ∃ b, times.foldl earlier (some a) = some b ∧ b ∈ a :: times ∧
      ∀ c ∈ a :: times, b.2 ≤ c.2 := by
  induction times generalizing a with
  | nil => exact ⟨a, rfl, List.mem_cons_self, by simp⟩
  | cons d rest ih =>
    -- the fold goes on with the earlier of `a` and `d`
    obtain ⟨b, hb, hmem, hle⟩ := ih (if d.2 < a.2 then d else a)
    refine ⟨b, ?_, ?_, ?_⟩
    · rw [List.foldl_cons, earlier, ← hb]
      split <;> rfl
    · rcases List.mem_cons.mp hmem with rfl | h
      · split <;> simp
      · exact List.mem_cons_of_mem _ (List.mem_cons_of_mem _ h)
    · have hhead := hle _ List.mem_cons_self
      intro c hc
      rcases List.mem_cons.mp hc with rfl | hc
      · split at hhead <;> omega
      · rcases List.mem_cons.mp hc with rfl | hc
        · split at hhead <;> omega
        · exact hle c (List.mem_cons_of_mem _ hc)

/-- There is no task to run exactly if none is due in time. -/
theorem next?_eq_none_iff {s : Scheduler β} {limit : Nat} :
    s.next? limit = none ↔
      ∀ id t due, s.task? id = some t → t.due? = some due → limit < due := by
  constructor
  · intro h id t due ht hdue
    refine Nat.lt_of_not_le fun hle => ?_
    have hmem := mem_dueUpTo_iff.mpr ⟨⟨t, ht, hdue⟩, hle⟩
    unfold next? at h
    cases hl : dueUpTo limit s.tasks with
    | nil => rw [hl] at hmem; cases hmem
    | cons a rest =>
      -- of those that are due one is the earliest
      obtain ⟨b, hb, -⟩ := foldl_earlier rest a
      rw [hl, List.foldl_cons, earlier, hb] at h
      cases h
  · intro h
    have hnil : dueUpTo limit s.tasks = [] := by
      refine List.eq_nil_iff_forall_not_mem.mpr fun a ha => ?_
      obtain ⟨⟨t, ht, hdue⟩, hle⟩ := mem_dueUpTo_iff.mp ha
      exact absurd (h _ t _ ht hdue) (Nat.not_lt.mpr hle)
    rw [next?, hnil]
    rfl

/-- The task to run next is due at the given time, which the limit allows, and no task is due
earlier. -/
theorem due_of_next? {s : Scheduler β} {limit : Nat} {id : TaskId} {due : Nat}
    (h : s.next? limit = some (id, due)) :
    (∃ t, s.task? id = some t ∧ t.due? = some due) ∧ due ≤ limit ∧
      ∀ id' t' due', s.task? id' = some t' → t'.due? = some due' → due ≤ due' := by
  unfold next? at h
  cases hl : dueUpTo limit s.tasks with
  | nil => rw [hl] at h; cases h
  | cons a rest =>
    obtain ⟨b, hb, hmem, hle⟩ := foldl_earlier rest a
    rw [hl, List.foldl_cons, earlier, hb] at h
    cases h
    rw [← hl] at hmem hle
    obtain ⟨hdue, hlim⟩ := mem_dueUpTo_iff.mp hmem
    refine ⟨hdue, hlim, fun id' t' due' ht' hdue' => ?_⟩
    -- a task that is due beyond the limit is later in any case
    by_cases hin : due' ≤ limit
    · exact hle _ (mem_dueUpTo_iff.mpr ⟨⟨t', ht', hdue'⟩, hin⟩)
    · omega

end Scheduler

end Flowgraph
