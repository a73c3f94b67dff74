import Flowgraph.Proofs.Run.Custody

/-!
# What becomes of a task

A task keeps the terms that it was made on: when it is due, for which graph, and what it does then.
What changes is how far it has come. Runs are counted, and a task that is cancelled or has ended
stays so. Programs do even less: they start no task and end none, and leave the clock alone.

* `Task.Proceeds` — from a task to what has become of it.
* `Evolves.proceeds` — nothing that happens to an engine does more to a task.
* `Scheduler.Steady`, `Deeds.steady` — what is left of a scheduler when programs have run.
-/

namespace Flowgraph

variable {β : Type}

/-- A task has come further, on the terms that it was made on. -/
structure Task.Proceeds (t t' : Task β) : Prop where
  timing : t'.timing = t.timing
  created : t'.created = t.created
  owner : t'.owner = t.owner
  body : t'.body = t.body
  runs : t.runs ≤ t'.runs
  cancelled : t.cancelled = true → t'.cancelled = true
  ended : t.ended = true → t'.ended = true

theorem Task.Proceeds.refl (t : Task β) : t.Proceeds t :=
  ⟨rfl, rfl, rfl, rfl, Nat.le_refl _, id, id⟩

/-- What happens to a task in two steps happens to it in one. -/
theorem Task.Proceeds.trans {t t' t'' : Task β} (h : t.Proceeds t') (h' : t'.Proceeds t'') :
    t.Proceeds t'' where
  timing := h'.timing.trans h.timing
  created := h'.created.trans h.created
  owner := h'.owner.trans h.owner
  body := h'.body.trans h.body
  runs := Nat.le_trans h.runs h'.runs
  cancelled hc := h'.cancelled (h.cancelled hc)
  ended he := h'.ended (h.ended he)

/-- A task that is over stays so. -/
theorem Task.Proceeds.isOver {t t' : Task β} (h : t.Proceeds t') (ht : t.isOver = true) :
    t'.isOver = true :=
  Bool.or_eq_true_iff.mpr ((Bool.or_eq_true_iff.mp ht).imp h.cancelled h.ended)

/-- The start of a run counts it. -/
theorem Task.proceeds_begin (t : Task β) : t.Proceeds t.begin :=
  ⟨rfl, rfl, rfl, rfl, Nat.le_succ _, id, id⟩

/-- The end of a run ends the task at most. -/
theorem Task.proceeds_complete (t : Task β) (now : Nat) : t.Proceeds (t.complete now) := by
  cases hrun : t.running with
  | false =>
    rw [complete_of_not_running hrun]
    exact .refl t
  | true =>
    rw [complete_of_running hrun]
    exact ⟨rfl, rfl, rfl, rfl, Nat.le_refl _, id, fun h => Bool.or_eq_true_iff.mpr (.inl h)⟩

/-- A task that was made at a time and has not run yet. -/
structure Task.Unrun (now : Nat) (t : Task β) : Prop where
  created : t.created = now
  runs : t.runs = 0
  running : t.running = false
  ended : t.ended = false

namespace Scheduler

/-- All tasks of a scheduler have come further in another. -/
def Proceeds (s s' : Scheduler β) : Prop :=
  ∀ id t, s.task? id = some t → ∃ t', s'.task? id = some t' ∧ t.Proceeds t'

theorem Proceeds.refl (s : Scheduler β) : s.Proceeds s := fun _ t ht => ⟨t, ht, .refl t⟩

/-- No task gets lost on the way. -/
theorem Proceeds.trans {s s' s'' : Scheduler β} (h : s.Proceeds s') (h' : s'.Proceeds s'') :
    s.Proceeds s'' := by
  intro id t ht
  obtain ⟨t', ht', hk⟩ := h id t ht
  obtain ⟨t'', ht'', hk'⟩ := h' id t' ht'
  exact ⟨t'', ht'', hk.trans hk'⟩

/-- A task is looked up among the tasks, whatever the clock shows. -/
theorem task?_congr {s s' : Scheduler β} (h : s'.tasks = s.tasks) (id : TaskId) :
    s'.task? id = s.task? id := by
  cases id with
  | zero => rfl
  | succ n => rw [task?, task?, h]

/-- The same tasks have come no further. -/
theorem proceeds_of_tasks {s s' : Scheduler β} (h : s'.tasks = s.tasks) : s.Proceeds s' :=
  fun id t ht => ⟨t, (task?_congr h id).trans ht, .refl t⟩

/-- Where there are no more tasks than before, none is new. -/
theorem exists_task?_of_length {s s' : Scheduler β} (h : s'.tasks.length = s.tasks.length)
    {id : TaskId} {t' : Task β} (ht' : s'.task? id = some t') : s.task? id ≠ none := by
  intro hnone
  have hex : ∃ t, s.task? id = some t :=
    exists_task?_iff.mpr (h ▸ exists_task?_iff.mp ⟨t', ht'⟩)
  rw [hnone] at hex
  exact hex.elim nofun

/-- What comes further with one of the tasks leaves the others where they are. -/
theorem proceeds_modify (s : Scheduler β) (id : TaskId) {f : Task β → Task β}
    (hf : ∀ t : Task β, t.Proceeds (f t)) : s.Proceeds (s.modify id f) := by
  intro id' t ht
  by_cases h : id = id'
  · subst h
    exact ⟨f t, by rw [task?_modify_self, ht]; rfl, hf t⟩
  · exact ⟨t, by rw [task?_modify_of_ne f h, ht], .refl t⟩

/-- A cancelled task has come further. -/
theorem proceeds_cancel (s : Scheduler β) (id : TaskId) : s.Proceeds (s.cancel id) :=
  proceeds_modify s id fun _ =>
    ⟨rfl, rfl, rfl, rfl, Nat.le_refl _, fun _ => rfl, fun h => h⟩

/-- The clock alone takes no task further. -/
theorem proceeds_now (s : Scheduler β) (now : Nat) : s.Proceeds { s with now := now } :=
  proceeds_of_tasks rfl

/-- A run that begins changes the task's count of runs, and no other task. -/
theorem proceeds_begin (s : Scheduler β) (id : TaskId) (due : Nat) :
    s.Proceeds (s.begin id due) :=
  -- the run is counted first, and then the clock moves on
  (proceeds_modify s id Task.proceeds_begin).trans (proceeds_now _ _)

/-- A run that ends lets its task rest, and changes no other task. -/
theorem proceeds_complete (s : Scheduler β) (id : TaskId) : s.Proceeds (s.complete id) :=
  proceeds_modify s id (Task.proceeds_complete · s.now)

/-- When tasks are gone through, those that were cancelled end. -/
theorem task?_settle (s : Scheduler β) (id : TaskId) :
    s.settle.task? id = (s.task? id).map fun t => { t with ended := t.ended || t.cancelled } := by
  cases id with
  | zero => rfl
  | succ n => exact List.getElem?_map ..

/-- A task that ends because it was cancelled has come further. -/
theorem proceeds_settle (s : Scheduler β) : s.Proceeds s.settle := by
  intro id t ht
  refine ⟨{ t with ended := t.ended || t.cancelled }, by rw [task?_settle, ht]; rfl,
    rfl, rfl, rfl, rfl, Nat.le_refl _, fun h => h, ?_⟩
  exact fun h => Bool.or_eq_true_iff.mpr (.inl h)

/-- A task that is made comes behind the others, which stay as they are. -/
theorem proceeds_schedule {s s' : Scheduler β} {owner : Option Nat} {timing : Timing} {body : β}
    {id : TaskId} (h : s.schedule owner timing body = .ok (id, s')) : s.Proceeds s' := by
  obtain ⟨-, -, rfl⟩ := of_schedule h
  exact fun _ t ht => ⟨t, task?_append rfl ht, .refl t⟩

/-- **Whatever happens to a scheduler at once** takes its tasks further and changes no terms. -/
theorem Change.proceeds {s s' : Scheduler β} (h : Change s s') : s.Proceeds s' := by
  cases h with
  | edit h =>
    cases h with
    | cancel id => exact proceeds_cancel s id
    | schedule h => exact proceeds_schedule h
  | settle => exact proceeds_settle s
  | start id due => exact proceeds_begin s id due
  | complete id => exact proceeds_complete s id
  | tick now => exact proceeds_now s now

/-- Any number of changes take the tasks further. -/
theorem Changes.proceeds {s s' : Scheduler β} (h : Changes s s') : s.Proceeds s' := by
  induction h with
  | refl => exact .refl s
  | tail _ hc ih => exact ih.trans hc.proceeds

/-- The task that is made is the only new one. -/
theorem made_of_schedule {s s' : Scheduler β} {owner : Option Nat} {timing : Timing} {body : β}
    {id id' : TaskId} {t' : Task β} (h : s.schedule owner timing body = .ok (id, s'))
    (ht' : s'.task? id' = some t') (hnone : s.task? id' = none) :
    t' = { timing := timing, created := s.now, owner := owner, body := body } := by
  obtain ⟨-, -, rfl⟩ := of_schedule h
  cases id' with
  | zero => cases ht'
  | succ n =>
    -- a number that was free lies behind all the others
    have hge : s.tasks.length ≤ n := List.getElem?_eq_none_iff.mp hnone
    rw [task?, List.getElem?_append_right hge] at ht'
    exact List.mem_singleton.mp (List.mem_of_getElem? ht')

/-- The clock stands still, and no task is started or ended: a task is cancelled at most, and the
tasks that were made since have not run yet. -/
structure Steady (s s' : Scheduler β) : Prop where
  now : s'.now = s.now
  kept : ∀ id t, s.task? id = some t →
    s'.task? id = some t ∨ s'.task? id = some { t with cancelled := true }
  made : ∀ id t', s'.task? id = some t' → s.task? id = none → t'.Unrun s.now

theorem Steady.refl (s : Scheduler β) : s.Steady s where
  now := rfl
  kept _ _ ht := .inl ht
  made id t ht hnone := by
    rw [hnone] at ht
    cases ht

/-- Two steady steps are a steady one. -/
theorem Steady.trans {s s' s'' : Scheduler β} (h : s.Steady s') (h' : s'.Steady s'') :
    s.Steady s'' where
  now := h'.now.trans h.now
  kept id t ht := by
    rcases h.kept id t ht with hm | hm
    · exact h'.kept id t hm
    · -- a task that is cancelled stays as it is
      exact .inr ((h'.kept id _ hm).elim (fun h => h) fun h => h)
  made id t'' ht'' hnone := by
    cases hm : s'.task? id with
    | none =>
      rw [← h.now]
      exact h'.made id t'' ht'' hm
    | some t' =>
      -- what was made in the first part is cancelled at most in the second
      have hnew := h.made id t' hm hnone
      rcases h'.kept id t' hm with hk | hk <;>
      · rw [ht''] at hk
        cases hk
        exact ⟨hnew.created, hnew.runs, hnew.running, hnew.ended⟩

/-- Programs may cancel a task. -/
theorem Steady.cancel (s : Scheduler β) (id : TaskId) : s.Steady (s.cancel id) where
  now := by cases id <;> rfl
  -- only the task of this number is touched, and it is cancelled
  kept id' t ht := by
    by_cases h : id = id'
    · subst h
      rw [Scheduler.cancel, task?_modify_self, ht]
      exact .inr rfl
    · rw [Scheduler.cancel, task?_modify_of_ne _ h]
      exact .inl ht
  made id' t' ht' hnone := by
    by_cases h : id = id'
    · subst h
      rw [Scheduler.cancel, task?_modify_self, hnone] at ht'
      cases ht'
    · rw [Scheduler.cancel, task?_modify_of_ne _ h, hnone] at ht'
      cases ht'

/-- Programs may make a task, whose first run is still to come. -/
theorem Steady.schedule {s s' : Scheduler β} {owner : Option Nat} {timing : Timing} {body : β}
    {id : TaskId} (h : s.schedule owner timing body = .ok (id, s')) : s.Steady s' where
  now := by
    obtain ⟨-, -, rfl⟩ := of_schedule h
    rfl
  kept id t ht := by
    obtain ⟨-, -, rfl⟩ := of_schedule h
    exact .inl (task?_append rfl ht)
  made id t' ht' hnone := by
    rw [made_of_schedule h ht' hnone]
    exact ⟨rfl, rfl, rfl, rfl⟩

/-- An edit makes or cancels tasks; no run begins or ends. -/
theorem Edit.steady {s s' : Scheduler β} (h : Edit s s') : s.Steady s' := by
  cases h with
  | cancel id => exact .cancel s id
  | schedule h => exact .schedule h

/-- Any number of edits leave the clock and the runs alone. -/
theorem Edits.steady {s s' : Scheduler β} (h : Edits s s') : s.Steady s' := by
  induction h with
  | refl => exact .refl s
  | tail _ he ih => exact ih.trans he.steady

end Scheduler

namespace Engine

variable {e e' : Engine}

/-- **A task keeps the terms that it was made on.** -/
theorem Evolves.proceeds (hs : Evolves e e') : e.scheduler.Proceeds e'.scheduler :=
  hs.reschedules.proceeds

/-! ### Programs -/

/-- A single deed does no more to the scheduler than to make and cancel tasks. -/
theorem Deed.steady (hd : Deed e e') : e.scheduler.Steady e'.scheduler := hd.edits.steady

/-- **Programs leave the clock and the runs of tasks alone.** -/
theorem Deeds.steady (hs : Deeds e e') : e.scheduler.Steady e'.scheduler := by
  induction hs with
  | refl => exact .refl _
  | tail _ hd ih => exact ih.trans hd.steady

end Engine

end Flowgraph
