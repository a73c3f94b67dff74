import Flowgraph.Proofs.Run.Custody

/-!
# No task outlives its graph

Once a load or a clearing has returned, no task of the graph that it took down is started any more,
whoever made the task and whenever: nodes while they were initialised, walks and listeners that are
still under way, or the host.

The graph was released on the way, which closed it: it holds no task, and it never gets one again. A
task that is not over is held by the graph it was made for, so every task of that graph is over, and
those that are made for it later are over from the beginning.
-/

namespace Flowgraph

/-- Whether a command replaces the live graph. A stored graph does so if it can be read. -/
def Command.Replaces (e : Engine) : Command → Prop
  | .load _ => True
  | .restore => ∃ c, e.store.readContext = .ok c
  | .clear => True
  | .walk _ => False
  | .fire _ _ => False

namespace Engine

variable {e e' e'' : Engine}

/-- A load that returns was not made while nodes were initialised or unloaded. -/
theorem loaded_of_load (fuel : Nat) {c : Context} {r : Except WorkflowError Unit}
    (h : load (exec (call fuel)) c e = .returned r e') : e.hooks = none ∧ Loaded c e r e' := by
  cases hh : e.hooks with
  | none => exact ⟨rfl, (load_ends fuel c e hh).returned h⟩
  | some g =>
    rw [load_of_hooks _ c (hh ▸ rfl)] at h
    cases h

theorem cleared_of_clear (fuel : Nat) (h : clear (exec (call fuel)) e = .returned () e') :
    e.hooks = none ∧ Cleared e e' := by
  cases hh : e.hooks with
  | none => exact ⟨rfl, (clear_ends fuel e hh).returned h⟩
  | some g =>
    rw [clear_of_hooks _ (hh ▸ rfl)] at h
    cases h

/-- A command that replaces the live graph is a load or a clearing. -/
theorem loaded_or_cleared {fuel : Nat} {c : Command} {answer : c.Answer} (hc : c.Replaces e)
    (h : call fuel c e = .returned answer e') :
    e.hooks = none ∧ ((∃ context r, Loaded context e r e') ∨ Cleared e e') := by
  cases fuel with
  | zero => cases c <;> cases h
  | succ fuel =>
    cases c with
    | load c =>
      obtain ⟨hfree, hl⟩ := loaded_of_load fuel h
      exact ⟨hfree, .inl ⟨c, answer, hl⟩⟩
    | restore =>
      -- the stored graph is readable, so this is a load
      obtain ⟨c, hread⟩ := hc
      have hload : load (exec (call fuel)) c e = .returned answer e' := by
        rw [call, restore, hread] at h
        exact h
      obtain ⟨hfree, hl⟩ := loaded_of_load fuel hload
      exact ⟨hfree, .inl ⟨c, answer, hl⟩⟩
    | clear =>
      obtain ⟨hfree, hl⟩ := cleared_of_clear fuel h
      exact ⟨hfree, .inr hl⟩
    | walk w => exact hc.elim
    | fire event before => exact hc.elim

/-- A command that replaces the live graph releases it on the way. -/
theorem released_of_replaces {fuel : Nat} {c : Command} {answer : c.Answer} (hc : c.Replaces e)
    (h : call fuel c e = .returned answer e') :
    ∃ m, Deeds e m ∧ m.hooks = some e.live ∧ Deeds (m.release e.live) e' := by
  obtain ⟨hfree, ⟨context, r, hl⟩ | hl⟩ := loaded_or_cleared hc h
  · exact hl.released hfree
  · exact hl.released hfree

/-- A graph that was released on the way is closed. -/
theorem closed_of_released (he : Placed e) {g : GraphId}
    (h : ∃ m, Deeds e m ∧ m.hooks = some g ∧ Deeds (m.release g) e') :
    g < e'.graphs.length ∧ (e'.graph g).Closed := by
  obtain ⟨m, hm, hhooks, hend⟩ := h
  -- the release closes it, and what comes after leaves it closed
  have hlt : g < m.graphs.length := (hm.evolves.placed he).hooks_lt hhooks
  have hclosed := closed_release hlt
  have hlt' : g < (m.release g).graphs.length := (length_modifyGraph m g _).symm ▸ hlt
  exact ⟨(hend.evolves.shrinks hlt' hclosed.dropped).1, hend.evolves.closed hlt' hclosed⟩

/-- The graph that a command has replaced is closed. -/
theorem closed_of_replaces (he : Placed e) {fuel : Nat} {c : Command} {answer : c.Answer}
    (hc : c.Replaces e) (h : call fuel c e = .returned answer e') :
    e.live < e'.graphs.length ∧ (e'.graph e.live).Closed :=
  closed_of_released he (released_of_replaces hc h)

/-- Of a closed graph no task is started. -/
theorem startsOnly_of_closed (he : Accounted e) {g : GraphId} (hlt : g < e.graphs.length)
    (hclosed : (e.graph g).Closed) (hs : Evolves e e') :
    StartsOnly (fun task => ∃ t, e'.scheduler.task? task = some t ∧ t.owner ≠ some g) e e' := by
  refine hs.startsOnly fun m hm hm' task t ht hover => ?_
  obtain ⟨t', ht', hk⟩ := hm'.keeps.task task t ht
  refine ⟨t', ht', fun ho => ?_⟩
  -- a task of the graph that is not over would be held by it
  have hmem := (hm.accounted he).tracked task t g ht hover (hk.owner.symm.trans ho)
  rw [(hm.closed hlt hclosed).tracked] at hmem
  cases hmem

/-- **No task outlives its graph.** Once a command that replaces the live graph has returned, in
whatever state it was given and with whatever answer, no task that was made for that graph is
started any more. -/
theorem starts_no_task_of_replaced (he : Reachable e) {fuel : Nat} {c : Command}
    {answer : c.Answer} (hc : c.Replaces e) (h : call fuel c e = .returned answer e')
    (hs : Evolves e' e'') :
    StartsOnly (fun task => ∃ t, e''.scheduler.task? task = some t ∧ t.owner ≠ some e.live)
      e' e'' := by
  obtain ⟨hlt, hclosed⟩ := closed_of_replaces he.placed hc h
  have he' : Accounted e' := ((call_evolves fuel c e).returned h).accounted he.accounted
  exact startsOnly_of_closed he' hlt hclosed hs

/-- A timer of the host, the clearing that takes its graph down, a second timer that a program makes
for that graph afterwards, and a time at which both would have been due. -/
theorem starts_no_timer_after_clear :
    ∃ e e' e₁ e'' : Engine, Reachable e ∧
      (∃ t, e.scheduler.task? 1 = some t ∧ t.owner = some e.live ∧ t.due? = some 5) ∧
      call 1 .clear e = .returned () e' ∧
      perform 1 (.schedule e.live (.once (.ofMillis 5)) (fun _ => .done) fun _ => .done) e' =
        .returned (.ok ⟨∅, none⟩) e₁ ∧
      advance 9 10 e₁ = .returned () e'' ∧ e''.scheduler.tasks.length = 2 ∧
      StartsOnly (fun task => ∃ t, e''.scheduler.task? task = some t ∧ t.owner ≠ some e.live)
        e' e'' := by
  obtain ⟨e, e', e₁, e'', hadd, ht, hclear, hperform, hadvance, hlen⟩ : ∃ e e' e₁ e'',
      (newborn ∅).addTask (.once (.ofMillis 5)) (fun _ => .done) = .returned (.ok 1) e ∧
      (∃ t, e.scheduler.task? 1 = some t ∧ t.owner = some e.live ∧ t.due? = some 5) ∧
      call 1 .clear e = .returned () e' ∧
      perform 1 (.schedule e.live (.once (.ofMillis 5)) (fun _ => .done) fun _ => .done) e' =
        .returned (.ok ⟨∅, none⟩) e₁ ∧
      advance 9 10 e₁ = .returned () e'' ∧ e''.scheduler.tasks.length = 2 :=
    ⟨_, _, _, _, rfl, ⟨_, rfl, rfl, rfl⟩, rfl, rfl, rfl, rfl⟩
  have he := (reachable_newborn ∅).evolves
    (HostStep.dealing (.addTask _ _ (.of_returned hadd))).evolves
  -- the second timer was made after the clear, so its start is allowed
  have hs : Evolves e' e'' :=
    (HostStep.dealing (.perform 1 _ (.of_returned hperform))).evolves.trans
      (HostStep.dealing (.advance 9 10 (.of_returned hadvance))).evolves
  exact ⟨e, e', e₁, e'', he, ht, hclear, hperform, hadvance, hlen,
    starts_no_task_of_replaced (c := .clear) he trivial hclear hs⟩

end Engine

end Flowgraph
