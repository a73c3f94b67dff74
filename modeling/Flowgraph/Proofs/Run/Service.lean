import Flowgraph.Proofs.Run.Succession

/-!
# Engines in service

An engine is made, its live graph is replaced again and again, and in between there is routine:
walks, deliveries, tasks, jobs, registrations. `Served` is that, with replacements that return.
Routine may stop at any point, so a command that a task or a listener gives in the middle of its own
run is a replacement like any other.

* `Served.settled` — in service nothing is under way and only the live graph holds tasks.
* `closePool_idle` — after a shutdown has cleared the graph there is nothing to wait for but jobs.
-/

namespace Flowgraph.Engine

variable {e e' : Engine}

/-! ### What is so between replacements -/

/-- Nothing is under way, only the live graph holds tasks, and every task was made for a graph. -/
structure Settled (e : Engine) : Prop where
  hooks : e.hooks = none
  tracked : ∀ g, g ≠ e.live → (e.graph g).tasks.tracked = []
  owned : ∀ id t, e.scheduler.task? id = some t → t.owner.isSome = true

theorem owned_of_evolves (hs : Evolves e e')
    (h : ∀ id t, e.scheduler.task? id = some t → t.owner.isSome = true) :
    ∀ id t, e'.scheduler.task? id = some t → t.owner.isSome = true := by
  intro id t ht
  -- a task was there before, or it was made on the way, for a graph
  by_cases hle : id ≤ e.scheduler.tasks.length
  · obtain ⟨t₀, ht₀, hk⟩ := hs.keeps.before ht hle
    rw [hk.owner]
    exact h id t₀ ht₀
  · obtain ⟨g, hg⟩ := hs.keeps.owned id t ht (Nat.lt_of_not_le hle)
    rw [hg]
    rfl

/-- Of the graphs that are not live, none gains tasks. -/
theorem Settled.tracked_of_evolves (he : Reachable e) (h : Settled e) (hs : Evolves e e')
    {g : GraphId} (hlt : g < e.graphs.length) (hne : g ≠ e.live) :
    (e'.graph g).tasks.tracked = [] := by
  have hd := he.placed.dropped hne (by rw [h.hooks]; exact nofun)
  have hsub := (hs.shrinks hlt hd).2.tracked
  rw [h.tracked g hne] at hsub
  exact List.subset_nil.mp hsub

/-- **A command that replaces the live graph leaves only the new one with tasks.** -/
theorem Settled.replaced (he : Reachable e) (h : Settled e) {fuel : Nat} {c : Command}
    {answer : c.Answer} (hc : c.Replaces e) (hcall : call fuel c e = .returned answer e') :
    Settled e' := by
  have hr := replaced_of_call he.placed hc hcall
  have hs : Evolves e e' := (call_evolves fuel c e).returned hcall
  refine ⟨hr.hooks, fun g hne => ?_, owned_of_evolves hs h.owned⟩
  -- among the graphs that were there the live one has just been closed
  rcases Nat.lt_or_ge g e.graphs.length with hlt | hge
  · by_cases hlive : g = e.live
    · rw [hlive]
      exact (closed_of_replaces he.placed hc hcall).2.tracked
    · exact h.tracked_of_evolves he hs hlt hlive
  · exact hr.tracked g hge hne

/-- What routine leaves alone. -/
structure Stays (e e' : Engine) : Prop where
  hooks : e'.hooks = e.hooks
  live : e'.live = e.live
  length : e'.graphs.length = e.graphs.length
  nodes : ∀ g, (e'.graph g).nodes = (e.graph g).nodes

theorem Routine.stays (h : Routine e e') : Stays e e' := by
  -- neither the clock nor the workers nor the host touch a graph
  have hsame : SameGraphs e e' → Stays e e' := fun h =>
    ⟨h.hooks, h.live, congrArg _ h.graphs, fun g => congrArg _ (h.graph_eq g)⟩
  cases h with
  | chore hc =>
    cases hc with
    | quiet h =>
      have hf := h.move.frame
      exact ⟨hf.hooks, hf.live, hf.length, fun g => (hf.graph g).nodes⟩
    | pulse h => exact hsame h.sameGraphs
  | supply h => exact hsame h.sameGraphs

theorem Settled.routine (he : Reachable e) (h : Settled e) (hr : Routine e e') : Settled e' := by
  have hs : Evolves e e' := .single hr.change
  have hstays := hr.stays
  refine ⟨hstays.hooks.trans h.hooks, fun g hne => ?_, owned_of_evolves hs h.owned⟩
  rw [hstays.live] at hne
  rcases Nat.lt_or_ge g e.graphs.length with hlt | hge
  · exact h.tracked_of_evolves he hs hlt hne
  · -- no graph was made
    rw [graph_of_le (hstays.length.symm ▸ hge)]
    rfl

/-! ### The end -/

/-- Where no graph holds tasks, all tasks are over. -/
theorem Settled.isOver (he : Reachable e) (h : Settled e) (hnone : e.taskCount = 0) (id : TaskId)
    (t : Task (Nat → Program)) (ht : e.scheduler.task? id = some t) : t.isOver = true := by
  obtain ⟨g, ho⟩ := Option.isSome_iff_exists.mp (h.owned id t ht)
  refine Bool.of_not_eq_false fun hover => ?_
  -- it would be tracked by its graph, and the only one that tracks is the live one
  have hmem := he.accounted.tracked id t g ht hover ho
  by_cases hlive : g = e.live
  · have hempty : (e.graph e.live).tasks.tracked = [] := List.length_eq_zero_iff.mp hnone
    rw [hlive, hempty] at hmem
    cases hmem
  · rw [h.tracked g hlive] at hmem
    cases hmem

theorem vacant_of_clear (he : Reachable e) {fuel : Nat} (h : call fuel .clear e = .returned () e') :
    Vacant e e' := by
  cases fuel with
  | zero => cases h
  | succ fuel => exact (cleared_of_clear fuel h).2.vacant he.placed.live_lt

/-- A clearing leaves a graph without tasks. -/
theorem Vacant.taskCount (h : Vacant e e') : e'.taskCount = 0 := by
  rw [Engine.taskCount, liveGraph, h.live, h.graph]
  rfl

section Idle

variable {P : Engine → Prop} (hchore : ∀ {e e' : Engine}, Chore e e' → P e → P e')
  (hover : ∀ id t, e.scheduler.task? id = some t → t.isOver = true)
include hchore hover

/-- Where all tasks are over, time passes and nothing else happens. -/
theorem advanceTo_idle {fuel time rounds : Nat} (h : advanceTo fuel time rounds e = .returned () e')
    (he : P e) : P e' := by
  cases rounds with
  | zero => cases h
  | succ rounds =>
    -- a task that is over is never next
    have hnext : e.settle.scheduler.next? time = none := by
      cases hn : e.settle.scheduler.next? time with
      | none => rfl
      | some next =>
        obtain ⟨t, ht, hnot⟩ := Scheduler.not_isOver_of_next? hn
        have hle := (List.length_map _) ▸ Scheduler.le_length_of_task? ht
        obtain ⟨t₀, ht₀, hk⟩ := (Scheduler.keeps_settle e.scheduler).before ht hle
        rw [hk.isOver (hover _ t₀ ht₀)] at hnot
        cases hnot
    rw [advanceTo] at h
    dsimp only at h
    rw [hnext] at h
    split at h
    · cases h
      exact hchore (.pulse (.tick e.settle time)) (hchore (.pulse (.settle e)) he)
    · cases h

/-- Where all tasks are over, closing the worker pool runs nothing. -/
theorem closePool_idle {fuel : Nat} {timeout : Duration} {drained : Bool}
    (h : closePool fuel timeout e = .returned drained e') (he : P e) : P e' := by
  have hlog : ∀ (m : Engine) line, P m → P (m.log line) := fun m line =>
    hchore (.quiet (.log m line))
  cases hpool : e.pool.closed with
  | true =>
    rw [closePool_of_closed fuel timeout hpool] at h
    cases h
    exact he
  | false =>
    have hstart : P { e with pool := e.pool.startDrain } := hchore (.pulse (.pool e _)) he
    rw [closePool_eq fuel timeout hpool] at h
    obtain ⟨_, m, hwait, hend⟩ := Run.exists_of_bind h
    cases hend
    have hm : P m := by
      obtain rfl | hadvance := awaitDrain_returned hwait
      · exact hstart
      · -- where all tasks are over, none of them is run while the clock moves on
        exact advanceTo_idle (e := { e with pool := e.pool.startDrain }) hchore hover hadvance
          hstart
    exact concludeDrain_keeps hlog timeout (hchore (.pulse (.pool m _)) hm)

end Idle

/-- **A shutdown that returns is a clearing and chores.** -/
theorem Settled.shutdown {P : Engine → Prop}
    (hchore : ∀ {e e' : Engine}, Chore e e' → P e → P e')
    (he : Reachable e) (h : Settled e) {fuel : Nat} {drained : Bool}
    (hshutdown : Engine.shutdown fuel e = .returned drained e') :
    ∃ m, call fuel .clear e = .returned () m ∧ (P m → P e') := by
  obtain ⟨_, m, hclear, hclose⟩ := Run.exists_of_bind hshutdown
  have hm : Reachable m := he.evolves ((call_evolves fuel .clear e).returned hclear)
  have hsettled : Settled m := h.replaced he (c := .clear) trivial hclear
  -- the clear has left no task, so nothing runs while the pool is closed
  have hover := hsettled.isOver hm (vacant_of_clear he hclear).taskCount
  exact ⟨m, hclear, closePool_idle hchore hover hclose⟩

/-! ### Engines in service -/

/-- The engines that come to be by replacements that return, and by routine. -/
inductive Served : Engine → Prop
  | created {config : Config} {registry : Registry Behaviour} {catalog : Catalog} {store : Store}
      {s : Scheduler (Nat → Program)} {pool : Option (Pool Program)}
      {dice : Nat → Float → Float → Float} {e : Engine}
      (h : create config registry catalog store (some s) pool dice = .ok e) (hs : s.tasks = []) :
      Served e
  /-- A load, a load of the stored graph, or a clearing. -/
  | replaced {e e' : Engine} (he : Served e) {fuel : Nat} {c : Command} {answer : c.Answer}
      (hc : c.Replaces e) (h : call fuel c e = .returned answer e') : Served e'
  | shutdown {e e' : Engine} (he : Served e) {fuel : Nat} {drained : Bool}
      (h : shutdown fuel e = .returned drained e') : Served e'
  | routine {e e' : Engine} (he : Served e) (h : Routine e e') : Served e'

theorem Served.reachable_settled (h : Served e) : Reachable e ∧ Settled e := by
  have hroutine : ∀ {e e' : Engine}, Routine e e' → Reachable e ∧ Settled e →
      Reachable e' ∧ Settled e' := fun hr h => ⟨h.1.change hr.change, h.2.routine h.1 hr⟩
  have hreplaced : ∀ {e e' : Engine} {fuel : Nat} {c : Command} {answer : c.Answer}, c.Replaces e →
      call fuel c e = .returned answer e' → Reachable e ∧ Settled e → Reachable e' ∧ Settled e' :=
    fun hc hcall h => ⟨h.1.evolves ((call_evolves _ _ _).returned hcall), h.2.replaced h.1 hc hcall⟩
  induction h with
  | created h hs =>
    obtain ⟨hgraphs, hlive, hhooks, hsched⟩ := of_create h
    -- a new engine has one graph, which is live, and no task
    refine ⟨.created h (by rw [hs]; exact nofun), hhooks, fun g hne => ?_, fun id t ht => ?_⟩
    · rw [graph, hgraphs]
      cases g with
      | zero => exact absurd hlive.symm hne
      | succ g => rfl
    · have hmem := Scheduler.mem_of_task? ht
      rw [hsched, hs] at hmem
      cases hmem
  | replaced _ hc h ih => exact hreplaced hc h ih
  | shutdown _ h ih =>
    obtain ⟨m, hclear, hend⟩ := ih.2.shutdown (fun hc => hroutine (.chore hc)) ih.1 h
    exact hend (hreplaced (c := .clear) trivial hclear ih)
  | routine _ h ih => exact hroutine h ih

theorem Served.reachable (h : Served e) : Reachable e := h.reachable_settled.1

/-- **In every engine in service, nothing is under way between replacements and only the live graph
holds tasks.** -/
theorem Served.settled (h : Served e) : Settled e := h.reachable_settled.2

end Flowgraph.Engine
