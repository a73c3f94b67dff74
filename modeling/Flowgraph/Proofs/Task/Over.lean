import Flowgraph.Task.Registry
import Mathlib.Logic.Relation

/-!
# Tasks that are over

A task is *over* once it was cancelled or has ended, and from then on no run of it starts. Here is
what no operation of the scheduler takes back: a task keeps its number and its owner, and it stays
over.

* `Scheduler.Keeps` — that a scheduler still has the tasks of another, with the instances for all
  operations.
* `Scheduler.Edit`, `Scheduler.Change` — what programs may do to a scheduler at once, and everything
  that may happen to it. What each of them keeps, any number of them keep (`Changes.keeps`).
* `Scheduler.not_isOver_of_next?` — the task to run next is not over.
* `Scheduler.isOver_of_mem_foldl_cancel` — cancelling a list of tasks leaves all of them over.
-/

namespace Flowgraph

variable {β : Type}

/-- No run of a task that is over starts any more. -/
def Task.isOver (t : Task β) : Bool := t.cancelled || t.ended

/-- A task that was cancelled is over. -/
theorem Task.isOver_of_cancelled {t : Task β} (h : t.cancelled = true) : t.isOver = true := by
  rw [isOver, h, Bool.true_or]

/-- A task that has ended is over. -/
theorem Task.isOver_of_ended {t : Task β} (h : t.ended = true) : t.isOver = true := by
  rw [isOver, h, Bool.or_true]

/-- What no change takes back: a task keeps its owner, and it stays over. -/
structure Task.Keeps (t t' : Task β) : Prop where
  owner : t'.owner = t.owner
  isOver : t.isOver = true → t'.isOver = true

theorem Task.Keeps.refl (t : Task β) : t.Keeps t := ⟨rfl, id⟩

/-- What a task keeps twice it keeps. -/
theorem Task.Keeps.trans {t t' t'' : Task β} (h : t.Keeps t') (h' : t'.Keeps t'') : t.Keeps t'' :=
  ⟨h'.owner.trans h.owner, h'.isOver ∘ h.isOver⟩

namespace Scheduler

/-- The numbers that are taken are those from one to the number of tasks. -/
theorem exists_task?_iff {s : Scheduler β} {id : TaskId} :
    (∃ t, s.task? id = some t) ↔ 0 < id ∧ id ≤ s.tasks.length := by
  cases id with
  | zero => simp [task?]
  | succ n =>
    rw [task?, ← Option.isSome_iff_exists, isSome_getElem?]
    exact ⟨fun h => ⟨n.succ_pos, h⟩, fun h => h.2⟩

/-- The number of a task is no larger than how many were made. -/
theorem le_length_of_task? {s : Scheduler β} {id : TaskId} {t : Task β} (h : s.task? id = some t) :
    id ≤ s.tasks.length :=
  (exists_task?_iff.mp ⟨t, h⟩).2

/-- A task that is there is one of those that were made. -/
theorem mem_of_task? {s : Scheduler β} {id : TaskId} {t : Task β} (h : s.task? id = some t) :
    t ∈ s.tasks := by
  cases id with
  | zero => cases h
  | succ n => exact List.mem_of_getElem? h

/-- No run is under way exactly if no task is running. -/
theorem resting_iff {s : Scheduler β} :
    s.resting = true ↔ ∀ id t, s.task? id = some t → t.running = false := by
  simp only [resting, List.all_eq_true, Bool.not_eq_true']
  constructor
  · exact fun h id t ht => h t (mem_of_task? ht)
  · intro h t ht
    obtain ⟨n, hn⟩ := List.mem_iff_getElem?.mp ht
    exact h (n + 1) t hn

/-- A scheduler still has the tasks of another under their numbers, those that were over are over
still, and what was added was made for a graph. -/
structure Keeps (s s' : Scheduler β) : Prop where
  length : s.tasks.length ≤ s'.tasks.length
  task : ∀ id t, s.task? id = some t → ∃ t', s'.task? id = some t' ∧ t.Keeps t'
  owned : ∀ id t', s'.task? id = some t' → s.tasks.length < id → ∃ g, t'.owner = some g

/-- No task was added. -/
theorem Keeps.of_length {s s' : Scheduler β} (hlen : s'.tasks.length = s.tasks.length)
    (htask : ∀ id t, s.task? id = some t → ∃ t', s'.task? id = some t' ∧ t.Keeps t') :
    s.Keeps s' where
  length := Nat.le_of_eq hlen.symm
  task := htask
  owned id t' ht' hlt := by
    have hle := hlen ▸ le_length_of_task? ht'
    exact absurd hlt (Nat.not_lt.mpr hle)

theorem Keeps.refl (s : Scheduler β) : s.Keeps s := .of_length rfl fun _ t h => ⟨t, h, .refl t⟩

/-- A task was there before, unless its number is new. -/
theorem Keeps.before {s s' : Scheduler β} (h : s.Keeps s') {id : TaskId} {t' : Task β}
    (ht' : s'.task? id = some t') (hle : id ≤ s.tasks.length) :
    ∃ t, s.task? id = some t ∧ t.Keeps t' := by
  -- the number was taken before, and what has it now is what had it then
  obtain ⟨t, ht⟩ := exists_task?_iff.mpr ⟨(exists_task?_iff.mp ⟨t', ht'⟩).1, hle⟩
  obtain ⟨t'', ht'', hk⟩ := h.task id t ht
  rw [ht'] at ht''
  cases ht''
  exact ⟨t, ht, hk⟩

/-- What a scheduler keeps twice it keeps. -/
theorem Keeps.trans {s s' s'' : Scheduler β} (h : s.Keeps s') (h' : s'.Keeps s'') :
    s.Keeps s'' where
  length := Nat.le_trans h.length h'.length
  task id t ht := by
    obtain ⟨t', ht', hk⟩ := h.task id t ht
    obtain ⟨t'', ht'', hk'⟩ := h'.task id t' ht'
    exact ⟨t'', ht'', hk.trans hk'⟩
  owned id t'' ht'' hlt := by
    -- a new task came either before the scheduler in between or after it
    by_cases hle : id ≤ s'.tasks.length
    · obtain ⟨t', ht', hk⟩ := h'.before ht'' hle
      obtain ⟨g, hg⟩ := h.owned id t' ht' hlt
      exact ⟨g, hk.owner.trans hg⟩
    · exact h'.owned id t'' ht'' (Nat.lt_of_not_le hle)

/-- A task that is not over was not over before either. -/
theorem Keeps.not_isOver_before {s s' : Scheduler β} (h : s.Keeps s') {id : TaskId} {t' : Task β}
    (ht' : s'.task? id = some t') (hover : t'.isOver = false) (hle : id ≤ s.tasks.length) :
    ∃ t, s.task? id = some t ∧ t.isOver = false ∧ t'.owner = t.owner := by
  obtain ⟨t, ht, hk⟩ := h.before ht' hle
  exact ⟨t, ht, Bool.eq_false_iff.mpr fun hc => Bool.eq_false_iff.mp hover (hk.isOver hc), hk.owner⟩

/-- A change of a task makes none. -/
@[simp] theorem length_modify (s : Scheduler β) (id : TaskId) (f : Task β → Task β) :
    (s.modify id f).tasks.length = s.tasks.length := by
  cases id with
  | zero => rfl
  | succ n => exact List.length_modify ..

/-- Where a change keeps tasks as they should be, the scheduler does so. -/
theorem keeps_modify (s : Scheduler β) (id : TaskId) {f : Task β → Task β}
    (hf : ∀ t : Task β, t.Keeps (f t)) : s.Keeps (s.modify id f) := by
  refine .of_length (length_modify s id f) fun id' t ht => ?_
  by_cases h : id = id'
  · subst h
    exact ⟨f t, by rw [task?_modify_self, ht]; rfl, hf t⟩
  · exact ⟨t, by rw [task?_modify_of_ne f h, ht], .refl t⟩

/-- To cancel a task makes none and revives none. -/
theorem keeps_cancel (s : Scheduler β) (id : TaskId) : s.Keeps (s.cancel id) :=
  keeps_modify s id fun _ => ⟨rfl, fun _ => Task.isOver_of_cancelled rfl⟩

/-- The clock has no part in it. -/
theorem keeps_now (s : Scheduler β) (now : Nat) : s.Keeps { s with now := now } := by
  refine .of_length rfl fun id t ht => ⟨t, ?_, .refl t⟩
  rw [← ht]
  cases id <;> rfl

/-- A task is over when it was cancelled. -/
theorem isOver_of_cancel {s : Scheduler β} {id : TaskId} {t : Task β}
    (ht : (s.cancel id).task? id = some t) : t.isOver = true := by
  rw [cancel, task?_modify_self] at ht
  obtain ⟨t₀, -, rfl⟩ := Option.map_eq_some_iff.mp ht
  exact Task.isOver_of_cancelled rfl

/-- A run that begins revives no task. -/
theorem keeps_begin (s : Scheduler β) (id : TaskId) (due : Nat) : s.Keeps (s.begin id due) := by
  have h := keeps_modify s id (f := Task.begin) fun _ => ⟨rfl, fun h => h⟩
  exact h.trans (keeps_now _ _)

/-- A run that ends revives no task. -/
theorem keeps_complete (s : Scheduler β) (id : TaskId) : s.Keeps (s.complete id) := by
  refine keeps_modify s id fun t => ?_
  cases hrun : t.running with
  | false =>
    rw [Task.complete_of_not_running hrun]
    exact .refl t
  | true =>
    rw [Task.complete_of_running hrun]
    refine ⟨rfl, fun h => ?_⟩
    rcases Bool.or_eq_true_iff.mp h with h | h
    · exact Task.isOver_of_cancelled h
    · exact Task.isOver_of_ended (by rw [h]; rfl)

/-- No task is revived by others' end. -/
theorem keeps_settle (s : Scheduler β) : s.Keeps s.settle := by
  refine .of_length (List.length_map _) fun id t ht => ?_
  cases id with
  | zero => cases ht
  | succ n =>
    -- only the mark of the end is set, on tasks that are over already
    refine ⟨{ t with ended := t.ended || t.cancelled }, ?_, rfl, fun h => ?_⟩
    · rw [settle, task?, List.getElem?_map, show s.tasks[n]? = some t from ht]
      rfl
    · rcases Bool.or_eq_true_iff.mp h with h | h
      · exact Task.isOver_of_cancelled h
      · exact Task.isOver_of_ended (by rw [h]; rfl)

/-- The tasks that were there keep their numbers when others are put behind them. -/
theorem task?_append {s s' : Scheduler β} {made : List (Task β)}
    (h : s'.tasks = s.tasks ++ made) {id : TaskId} {t : Task β} (ht : s.task? id = some t) :
    s'.task? id = some t := by
  cases id with
  | zero => cases ht
  | succ n =>
    rw [task?, h, List.getElem?_append_left (List.getElem?_eq_some_iff.mp ht).1]
    exact ht

/-- A task that is made has a timing that is accepted. It takes the next number and stands behind
the others. -/
theorem of_schedule {s s' : Scheduler β} {owner : Option Nat} {timing : Timing} {body : β}
    {id : TaskId} (h : s.schedule owner timing body = .ok (id, s')) :
    timing.check s.now = .ok () ∧ id = s.tasks.length + 1 ∧ s' = { s with tasks := s.tasks ++
      [{ timing := timing, created := s.now, owner := owner, body := body }] } := by
  unfold schedule at h
  split at h
  · cases h
  · next hcheck =>
    cases h
    exact ⟨hcheck, rfl, rfl⟩

/-- Only a timing that does not pass its check is refused. -/
theorem check_of_refused {s : Scheduler β} {owner : Option Nat} {timing : Timing} {body : β}
    {err : SchedulingError} (h : s.schedule owner timing body = .error err) :
    timing.check s.now = .error err := by
  unfold schedule at h
  split at h
  · next hcheck =>
    cases h
    exact hcheck
  · cases h

/-- A new task takes the next number. -/
theorem keeps_schedule {s s' : Scheduler β} {g : Nat} {timing : Timing} {body : β} {id : TaskId}
    (h : s.schedule (some g) timing body = .ok (id, s')) :
    s.Keeps s' ∧ id = s.tasks.length + 1 ∧ s'.tasks.length = id ∧
      ∃ t, s'.task? id = some t ∧ t.owner = some g := by
  obtain ⟨-, rfl, rfl⟩ := of_schedule h
  let made : Task β := { timing := timing, created := s.now, owner := some g, body := body }
  have hlen : (s.tasks ++ [made]).length = s.tasks.length + 1 := List.length_append
  have hnew : (s.tasks ++ [made])[s.tasks.length]? = some made := List.getElem?_concat_length
  refine ⟨⟨?_, fun id t ht => ⟨t, task?_append rfl ht, .refl t⟩, fun id t ht hlt => ?_⟩, rfl, hlen,
    made, hnew, rfl⟩
  · exact hlen ▸ Nat.le_succ _
  · -- a number beyond the old ones is that of the new task
    have hle := hlen ▸ le_length_of_task? ht
    obtain rfl : id = s.tasks.length + 1 := Nat.le_antisymm hle hlt
    obtain rfl : made = t := Option.some.inj (hnew.symm.trans ht)
    exact ⟨g, rfl⟩

/-! ### One thing after another -/

/-- What programs do to a scheduler at once: they cancel a task, or make one for a graph. -/
inductive Edit : Scheduler β → Scheduler β → Prop
  | cancel (s : Scheduler β) (id : TaskId) : Edit s (s.cancel id)
  | schedule {s s' : Scheduler β} {g : Nat} {timing : Timing} {body : β} {id : TaskId}
      (h : s.schedule (some g) timing body = .ok (id, s')) : Edit s s'

/-- Everything that may happen to a scheduler at once. -/
inductive Change : Scheduler β → Scheduler β → Prop
  | edit {s s' : Scheduler β} (h : Edit s s') : Change s s'
  | settle (s : Scheduler β) : Change s s.settle
  | start (s : Scheduler β) (id : TaskId) (due : Nat) : Change s (s.begin id due)
  | complete (s : Scheduler β) (id : TaskId) : Change s (s.complete id)
  | tick (s : Scheduler β) (now : Nat) : Change s { s with now := now }

/-- Any number of edits. -/
abbrev Edits : Scheduler β → Scheduler β → Prop := Relation.ReflTransGen Edit

/-- Any number of changes. -/
abbrev Changes : Scheduler β → Scheduler β → Prop := Relation.ReflTransGen Change

/-- Tasks are cancelled one after another. -/
theorem edits_foldl_cancel (s : Scheduler β) (ids : List TaskId) :
    Edits s (ids.foldl cancel s) := by
  induction ids generalizing s with
  | nil => exact .refl
  | cons id rest ih => exact .head (.cancel s id) (ih (s.cancel id))

/-- Edits are changes. -/
theorem Edits.changes {s s' : Scheduler β} (h : Edits s s') : Changes s s' :=
  Relation.ReflTransGen.mono (fun _ _ he => Change.edit he) _ _ h

/-- No change revives a task that is over. -/
theorem Change.keeps {s s' : Scheduler β} (h : Change s s') : s.Keeps s' := by
  cases h with
  | edit h =>
    cases h with
    | cancel id => exact keeps_cancel s id
    | schedule h => exact (keeps_schedule h).1
  | settle => exact keeps_settle s
  | start id due => exact keeps_begin s id due
  | complete id => exact keeps_complete s id
  | tick now => exact keeps_now s now

/-- **Whatever happens to a scheduler**, no task is forgotten. -/
theorem Changes.keeps {s s' : Scheduler β} (h : Changes s s') : s.Keeps s' := by
  induction h with
  | refl => exact .refl s
  | tail _ hc ih => exact ih.trans hc.keeps

/-- To cancel tasks makes none and revives none. -/
theorem keeps_foldl_cancel (s : Scheduler β) (ids : List TaskId) :
    s.Keeps (ids.foldl cancel s) :=
  (edits_foldl_cancel s ids).changes.keeps

/-- To cancel tasks makes none. -/
theorem length_foldl_cancel (s : Scheduler β) (ids : List TaskId) :
    (ids.foldl cancel s).tasks.length = s.tasks.length := by
  induction ids generalizing s with
  | nil => rfl
  | cons id rest ih => rw [List.foldl_cons, ih, cancel, length_modify]

/-- **Cancelling tasks leaves all of them over.** -/
theorem isOver_of_mem_foldl_cancel {s : Scheduler β} {ids : List TaskId} {id : TaskId} {t : Task β}
    (hid : id ∈ ids) (ht : (ids.foldl cancel s).task? id = some t) : t.isOver = true := by
  induction ids generalizing s with
  | nil => cases hid
  | cons id' rest ih =>
    by_cases hin : id ∈ rest
    · exact ih hin ht
    -- the last time the task is named is here, and the rest keep it over
    obtain rfl : id = id' := (List.mem_cons.mp hid).resolve_right hin
    have hk := keeps_foldl_cancel (s.cancel id) rest
    have hle : id ≤ (s.cancel id).tasks.length :=
      length_foldl_cancel (s.cancel id) rest ▸ le_length_of_task? ht
    obtain ⟨t', ht', hkt⟩ := hk.before ht hle
    exact hkt.isOver (isOver_of_cancel ht')

/-- The task to run next is not over. -/
theorem not_isOver_of_next? {s : Scheduler β} {limit due : Nat} {id : TaskId}
    (h : s.next? limit = some (id, due)) : ∃ t, s.task? id = some t ∧ t.isOver = false := by
  obtain ⟨⟨t, ht, hdue⟩, -⟩ := due_of_next? h
  refine ⟨t, ht, ?_⟩
  -- a task that is over is never due
  rw [← Bool.not_eq_true]
  intro hover
  have hnone : t.due? = none := by
    rw [Task.due?, ← Task.isOver, hover]
    rfl
  cases hnone.symm.trans hdue

end Scheduler

end Flowgraph
