import Flowgraph.Proofs.Builtin.Messages
import Flowgraph.Proofs.Run.Firing
import Flowgraph.Proofs.Run.Lawful
import Flowgraph.Proofs.Run.Lockstep
import Flowgraph.Proofs.Run.Workers

/-!
# Messages do not steer walks

An execution is what a host asks of an engine, what it is answered, and what becomes of the engine,
while anything at all goes on in the worker pool. Two executions of the same demands are compared
here that differ in the pool and in the sink, and in nothing else.

* `Demand`, `Execution` — what a host asks for, and executions.
* `Execution.abreast` — executions of the same demands give the same answers.
* `messages_steer_nothing` — **worker pools and sinks have no part in where walks go**, which tasks
  are made and how many listeners fail.

The clock is moved by demands. A shutdown that waits for jobs moves it as well, and an execution
that has the same demands then lets as much time pass (`Execution.closePool`).
-/

namespace Flowgraph

/-! ### Executions -/

/-- What a host may ask of an engine that has nothing to do with the worker pool. -/
inductive Demand where
  /-- What a program can do. So listeners and tasks are made, events fired and walks started. -/
  | perform (fuel : Nat) (p : Program)
  | call (fuel : Nat) (c : Command)
  | advance (fuel millis : Nat)
  | registerEvent (name : String) (key : EventKey)
  | write (store : Store)

namespace Demand

/-- What a demand answers. -/
@[reducible] def Answer : Demand → Type
  | .perform _ _ => Except WorkflowError Step
  | .call _ c => c.Answer
  | .advance _ _ => Unit
  | .registerEvent _ _ => Unit
  | .write _ => Unit

/-- Carries out a demand. -/
def run : (d : Demand) → Engine → Run d.Answer
  | .perform fuel p, e => e.perform fuel p
  | .call fuel c, e => e.call fuel c
  | .advance fuel millis, e => e.advance fuel millis
  | .registerEvent name key, e => .returned () (e.registerEvent name key)
  | .write store, e => .returned () { e with store := store }

/-- The host's own programs hand in no jobs either but such that deliver messages, and do the same
whether or not these are accepted. -/
def Deaf : Demand → Prop
  | .perform _ p => p.Abreast p
  | _ => True

end Demand

/-- **Whatever is demanded of both, engines that go abreast answer alike.** -/
theorem Demand.run_abreast {d : Demand} (hd : d.Deaf) {e e' : Engine} (h : e.Abreast e') :
    (d.run e).Abreast (d.run e') := by
  cases d with
  | perform fuel p => exact Engine.perform_abreast fuel hd h
  | call fuel c => exact Engine.call_abreast fuel c _ _ h
  | advance fuel millis => exact Engine.advance_abreast fuel millis h
  | registerEvent name key =>
    exact .returned () { h with catalog := congrArg (·.insert name key) h.catalog }
  | write store => exact .returned () (h.withStore rfl)

/-- A demand with its answer. There is none if a program broke off. -/
structure Exchange where
  demand : Demand
  answer : Option demand.Answer

/-- A run ends, with an answer if it does not break off. -/
inductive Run.Yields {α : Type} : Run α → Option α → Engine → Prop
  | returned (a : α) (e : Engine) : Yields (.returned a e) (some a) e
  | panicked (e : Engine) : Yields (.panicked e) none e

theorem Run.exists_yields {α : Type} {r : Run α} {e : Engine} (h : r.left? = some e) :
    ∃ a, r.Yields a e := by
  cases r with
  | returned a m =>
    cases h
    exact ⟨_, .returned a e⟩
  | panicked m =>
    cases h
    exact ⟨_, .panicked e⟩
  | diverged => cases h

theorem Run.Abreast.yields {α : Type} {r r' : Run α} {a a' : Option α} {e e' : Engine}
    (h : r.Abreast r') (hr : r.Yields a e) (hr' : r'.Yields a' e') : a = a' ∧ e.Abreast e' := by
  cases h with
  | returned a hm =>
    cases hr
    cases hr'
    exact ⟨rfl, hm⟩
  | panicked hm =>
    cases hr
    cases hr'
    exact ⟨rfl, hm⟩
  | diverged => cases hr

namespace Engine

/-- What goes on in the worker pool while an engine is asked for nothing. -/
inductive Meanwhile (e : Engine) : Engine → Prop
  /-- A worker runs a job. -/
  | ran {e' : Engine} {job : Job Program} (hjob : job ∈ e.pool.jobs) (fuel : Nat)
      (h : runJob (exec (call fuel)) job e = .returned () e') : Meanwhile e e'
  /-- Others hand in jobs or take them away, and the pool is closed or opened. -/
  | pool (pool : Pool Program) (h : e.pool.Delivers → pool.Delivers) :
      Meanwhile e { e with pool := pool }
  | log (line : LogLine) : Meanwhile e (e.log line)

/-- **An execution**: what a host has asked of an engine so far, what it was answered, and what has
become of the engine. In between anything may go on in the worker pool. -/
inductive Execution (e₀ : Engine) : List Exchange → Engine → Prop
  | start : Execution e₀ [] e₀
  | asked {xs : List Exchange} {e e' : Engine} (h : Execution e₀ xs e) (d : Demand) (hd : d.Deaf)
      {answer : Option d.Answer} (hr : (d.run e).Yields answer e') :
      Execution e₀ (xs ++ [⟨d, answer⟩]) e'
  | meanwhile {xs : List Exchange} {e e' : Engine} (h : Execution e₀ xs e) (hm : Meanwhile e e') :
      Execution e₀ xs e'

variable {e e' e₀ e₀' m : Engine} {xs xs' : List Exchange}

/-! ### What goes on in the pool -/

/-- **What goes on in a pool whose jobs deliver messages goes on aside.** -/
theorem Meanwhile.aside (h : Meanwhile e m) (hpool : e.pool.Delivers) : Aside e m := by
  cases h with
  | pool pool h => exact .pool e h
  | log line => exact .log e line
  | @ran _ job hjob fuel h =>
    obtain ⟨l, l', hleaves, hlog, rfl⟩ := (runJob_iff.mp h).exists_left
    have hrun : (exec (call fuel) job.work (e.record (.worked job.number))).Ends _ _ :=
      Aside.of_delivers (hpool job hjob) _
    have hl : Aside e l := (Aside.record e rfl).trans (hrun.leaves hleaves)
    -- a complaint of the job is logged
    have hl' : Aside e l' := by
      rcases hlog with rfl | ⟨line, rfl⟩
      · exact hl
      · exact hl.trans (.log l line)
    exact hl'.trans (.pool l' fun hpool j hj => hpool j (Pool.jobs_finish_subset _ _ hj))

/-- The accepted jobs are run until there is none. -/
theorem Execution.work (h : Execution e₀ xs e) {fuel : Nat}
    (hwork : Engine.work fuel e = .returned () e') : Execution e₀ xs e' := by
  -- induction on the rounds: a worker's job is one more event of the execution
  have hoff : ∀ rounds e, Execution e₀ xs e → workOff fuel rounds e = .returned () e' →
      Execution e₀ xs e' := by
    intro rounds
    induction rounds with
    | zero => exact fun _ _ hoff => by cases hoff
    | succ rounds ih =>
      intro e h hoff
      rw [workOff] at hoff
      split at hoff
      · cases hoff
        exact h
      · next job _ hjobs =>
        obtain ⟨_, m, hran, hrest⟩ := Run.exists_of_bind hoff
        exact ih m (h.meanwhile (.ran (hjobs ▸ List.mem_cons_self) fuel hran)) hrest
  exact hoff fuel e h hwork

/-- **The pool is closed.** If jobs hold that up, time passes. -/
theorem Execution.closePool (h : Execution e₀ xs e) {fuel : Nat} {timeout : Duration}
    {drained : Bool} (hclose : Engine.closePool fuel timeout e = .returned drained e') :
    ∃ ys, Execution e₀ (xs ++ ys) e' ∧
      (ys = [] ∨ ys = [⟨.advance fuel timeout.ceilMillis, some ()⟩]) := by
  -- the pool that begins to shut down has the same jobs
  have hstart : Execution e₀ xs { e with pool := e.pool.startDrain } :=
    h.meanwhile (.pool _ fun hpool job hjob => hpool job (e.pool.jobs_startDrain ▸ hjob))
  have hend : ∀ {ys m}, Execution e₀ ys m → ∀ number,
      Execution e₀ ys { m with pool := m.pool.endDrain number } := fun hm number =>
    hm.meanwhile (.pool _ fun hpool job hjob => hpool job (Pool.jobs_endDrain _ number ▸ hjob))
  cases hpool : e.pool.closed with
  | true =>
    rw [closePool_of_closed fuel timeout hpool] at hclose
    cases hclose
    exact ⟨[], by rwa [List.append_nil], .inl rfl⟩
  | false =>
    rw [closePool_eq fuel timeout hpool] at hclose
    obtain ⟨_, m, hwait, hrest⟩ := Run.exists_of_bind hclose
    cases hrest
    have hconclude : ∀ {ys}, Execution e₀ ys m →
        Execution e₀ ys (m.concludeDrain timeout e.pool.shutdowns) := fun hm =>
      concludeDrain_keeps (fun _ _ h => h.meanwhile (.log _)) timeout (hend hm _)
    obtain rfl | hadvance := awaitDrain_returned hwait
    · exact ⟨[], by rw [List.append_nil]; exact hconclude hstart, .inl rfl⟩
    · -- jobs hold the shutdown up, and time passes as a request of its own
      refine ⟨_, hconclude (hstart.asked (.advance fuel timeout.ceilMillis) trivial ?_), .inr rfl⟩
      show (Engine.advance fuel timeout.ceilMillis _).Yields _ m
      rw [hadvance]
      exact .returned () m

/-- **A shutdown is a clearing, and the pool is closed.** -/
theorem Execution.shutdown (h : Execution e₀ xs e) {fuel : Nat} {drained : Bool}
    (hshutdown : Engine.shutdown fuel e = .returned drained e') :
    ∃ millis ys, Execution e₀ (xs ++ ⟨.call fuel .clear, some ()⟩ :: ys) e' ∧
      (ys = [] ∨ ys = [⟨.advance fuel millis, some ()⟩]) := by
  obtain ⟨_, m, hclear, hclose⟩ := Run.exists_of_bind hshutdown
  have hcleared : Execution e₀ (xs ++ [⟨.call fuel .clear, some ()⟩]) m := by
    refine h.asked (.call fuel .clear) trivial ?_
    show (Engine.call fuel .clear e).Yields _ m
    rw [hclear]
    exact .returned () m
  obtain ⟨ys, hys, hwait⟩ := hcleared.closePool hclose
  exact ⟨_, ys, List.append_cons .. ▸ hys, hwait⟩

/-! ### Executions side by side -/

/-- As long as nothing is demanded, everything goes on aside. -/
theorem Execution.idle (h₀ : e.Abreast e₀) (h : Execution e₀ [] e') : e.Abreast e' := by
  generalize hxs : ([] : List Exchange) = xs at h
  induction h with
  | start => exact h₀
  | asked => exact absurd hxs.symm (List.append_ne_nil_of_right_ne_nil _ (List.cons_ne_nil _ _))
  | meanwhile h hm ih => exact (ih hxs).right (hm.aside (ih hxs).pool')

/-- After the last demand, nothing is demanded. -/
theorem Execution.last {x : Exchange} (h : Execution e₀ (xs ++ [x]) e') :
    ∃ m m', Execution e₀ xs m ∧ (x.demand.run m).Yields x.answer m' ∧ Execution m' [] e' := by
  generalize hys : xs ++ [x] = ys at h
  induction h with
  | start => exact absurd hys (List.append_ne_nil_of_right_ne_nil _ (List.cons_ne_nil _ _))
  | @asked zs m m' h d hd answer hr ih =>
    obtain ⟨rfl, hlast⟩ := List.append_inj' hys rfl
    obtain rfl := List.head_eq_of_cons_eq hlast
    exact ⟨m, m', h, hr, .start⟩
  | meanwhile h hm ih =>
    obtain ⟨m, m', h, hr, hidle⟩ := ih hys
    exact ⟨m, m', h, hr, hidle.meanwhile hm⟩

/-- **Executions of the same demands give the same answers**, and the engines go abreast. -/
theorem Execution.abreast (h₀ : e₀.Abreast e₀') (h : Execution e₀ xs e) (h' : Execution e₀' xs' e')
    (hsame : xs.map (·.demand) = xs'.map (·.demand)) : xs = xs' ∧ e.Abreast e' := by
  -- what goes on in either pool is passed over, up to the demand that was made last of both
  induction h generalizing xs' e' with
  | start =>
    obtain rfl := List.map_eq_nil_iff.mp hsame.symm
    exact ⟨rfl, h'.idle h₀⟩
  | asked h d hd hr ih =>
    obtain rfl | ⟨ys, y, rfl⟩ := List.eq_nil_or_concat' xs'
    · rw [List.map_append] at hsame
      cases List.append_ne_nil_of_right_ne_nil _ (List.cons_ne_nil _ _) hsame
    · rw [List.map_append, List.map_append] at hsame
      obtain ⟨hdemands, hlast⟩ := List.append_inj' hsame rfl
      obtain ⟨d', answer'⟩ := y
      obtain rfl : d = d' := List.head_eq_of_cons_eq hlast
      obtain ⟨m, m', hm, hr', hidle⟩ := h'.last
      obtain ⟨rfl, hboth⟩ := ih hm hdemands
      obtain ⟨rfl, he⟩ := (Demand.run_abreast hd hboth).yields hr hr'
      exact ⟨rfl, hidle.idle he⟩
  | meanwhile h hm ih =>
    obtain ⟨hxs, he⟩ := ih h' hsame
    exact ⟨hxs, he.left (hm.aside he.pool)⟩

/-! ### New engines -/

/-- Engines that were just made, over the built-in node types, and differ in the sink and in the
worker pool only. -/
inductive NewAbreast (e e' : Engine) : Prop
  | mk {sink sink' : Builtin.Sink} (hsink : sink.Delivers) (hsink' : sink'.Delivers)
      {config config' : Config} (hhops : config.maxHops = config'.maxHops) {catalog : Catalog}
      {store : Store} {s : Scheduler (Nat → Program)} (hs : s.tasks = [])
      {pool pool' : Option (Pool Program)} (hpool : ∀ p ∈ pool, p.Delivers)
      (hpool' : ∀ p ∈ pool', p.Delivers) {dice : Nat → Float → Float → Float}
      (h : create config (builtins sink) catalog store (some s) pool dice = .ok e)
      (h' : create config' (builtins sink') catalog store (some s) pool' dice = .ok e')

/-- Making an engine is over but for the log when it has its parts. -/
theorem aside_of_create {config : Config} {registry : Registry Behaviour} {catalog : Catalog}
    {store : Store} {s : Scheduler (Nat → Program)} {pool : Option (Pool Program)}
    {dice : Nat → Float → Float → Float} (hpool : ∀ p ∈ pool, p.Delivers)
    (h : create config registry catalog store (some s) pool dice = .ok e) :
    ∃ p : Pool Program, p.Delivers ∧
      Aside { config := config, registry := registry, catalog := catalog, store := store,
              scheduler := s, pool := p, dice := dice } e := by
  cases pool with
  | none =>
    cases h
    exact ⟨.ofSize config.workers, List.forall_mem_nil _, (Aside.logAll _ _).trans (.log _ _)⟩
  | some p =>
    cases h
    exact ⟨p, hpool p rfl, (Aside.logAll _ _).trans (.log _ _)⟩

theorem NewAbreast.abreast (h : NewAbreast e e') : e.Abreast e' := by
  obtain ⟨hsink, hsink', hhops, hs, hpool, hpool', h, h'⟩ := h
  obtain ⟨p, hp, he⟩ := aside_of_create hpool h
  obtain ⟨p', hp', he'⟩ := aside_of_create hpool' h'
  refine Abreast.right (Abreast.left ?_ he) he'
  -- two new engines, before a pool of their own is put in
  exact {
    maxHops := hhops
    registry := builtins_abreast hsink hsink'
    catalog := rfl
    store := rfl
    scheduler := ⟨rfl, by rw [hs]; exact .nil⟩
    graphs := .cons (.bare rfl rfl) .nil
    live := rfl
    hooks := rfl
    dice := rfl
    drawn := rfl
    course := rfl
    pool := hp
    pool' := hp' }

/-- What is said aside is no visit. -/
theorem visits_eq (e : Engine) :
    e.visits = (e.journal.course.filterMap Entry.visit?).reverse := by
  have hvisit : (fun entry : Entry => if !entry.isAside then entry.visit? else none) =
      Entry.visit? := by
    funext entry
    cases entry <;> rfl
  rw [visits, List.filterMap_reverse, Journal.course, List.filterMap_filter, hvisit]

/-- The same has happened in two engines, but for what is said aside. -/
structure SameCourse (e e' : Engine) : Prop where
  now : e.now = e'.now
  /-- The same nodes were entered at the same times, by walks with the same variables. -/
  visits : e.visits = e'.visits
  /-- The same tasks were made, and have come equally far. -/
  tasks : List.Forall₂ Task.Abreast e.scheduler.tasks e'.scheduler.tasks
  course : e.journal.course = e'.journal.course

theorem Abreast.sameCourse (h : Abreast e e') : SameCourse e e' where
  now := h.now
  visits := by rw [visits_eq, visits_eq, h.course]
  tasks := h.scheduler.tasks
  course := h.course

/-- **Messages do not steer walks.** Two engines over the built-in node types may differ in their
worker pools, which may be of any size, busy or closed at any time, and in their sinks, which may
deliver messages, fail or break off. Asked for the same they give the same answers, among them how
many listeners have failed, and they make the same visits and the same tasks. So it goes on whatever
they are asked for next. -/
theorem messages_steer_nothing (hnew : NewAbreast e₀ e₀') (h : Execution e₀ xs e)
    (h' : Execution e₀' xs' e') (hsame : xs.map (·.demand) = xs'.map (·.demand)) :
    xs = xs' ∧ SameCourse e e' ∧ ∀ d : Demand, d.Deaf → (d.run e).Abreast (d.run e') := by
  obtain ⟨hxs, he⟩ := h.abreast hnew.abreast h' hsame
  exact ⟨hxs, he.sameCourse, fun d hd => Demand.run_abreast hd he⟩

/-- Demands are made one after another, and nothing else happens. -/
def replay : List Demand → Engine → Option Engine
  | [], e => some e
  | d :: rest, e => (d.run e).left?.bind (replay rest)

theorem Execution.replay (h : Execution e₀ xs e) {ds : List Demand} (hds : ∀ d ∈ ds, d.Deaf)
    (hreplay : Engine.replay ds e = some m) :
    ∃ ys, ys.map (·.demand) = ds ∧ Execution e₀ (xs ++ ys) m := by
  induction ds generalizing e xs with
  | nil =>
    cases hreplay
    exact ⟨[], rfl, by rwa [List.append_nil]⟩
  | cons d rest ih =>
    obtain ⟨hd, hrest⟩ := List.forall_mem_cons.mp hds
    obtain ⟨m', hleft, hgo⟩ := Option.bind_eq_some_iff.mp hreplay
    obtain ⟨answer, hyields⟩ := Run.exists_yields hleft
    -- what was demanded first has happened, and the rest goes on from there
    obtain ⟨ys, hys, hexec⟩ := ih (h.asked d hd hyields) hrest hgo
    exact ⟨⟨d, answer⟩ :: ys, congrArg (d :: ·) hys, List.append_cons .. ▸ hexec⟩

/-- Two messages for each player that joins. -/
def welcome : Context :=
  (Context.mk [])
    |>.addNode "door" Builtin.EventListener.name
    |>.consume Builtin.EventListener.eventField "PlayerJoin"
    |>.connect "Next" (some "greet")
    |>.addNode "greet" Builtin.Chat.metadata.name
    |>.connect "Next" (some "chat")
    |>.addNode "chat" Builtin.Chat.metadata.name

/-- A sink that breaks off. -/
def offline : Builtin.Sink where
  broadcast _ := .panic
  whisper _ _ := .panic

/-- A graph is loaded and a player joins. -/
def opening : List Demand := [.call 1 (.load welcome), .call 4 (.fire (.playerJoin "Ada") false)]

/-- Another player joins a second later. -/
def later : List Demand := [.advance 1 1000, .call 4 (.fire (.playerJoin "Bo") false)]

/-- Twenty workers and the log for a sink on one side. On the other a single worker, which has no
room for the second message and breaks off over the first, and then the pool is closed. -/
theorem messages_steer_nothing_offline : ∃ (e₀ e₀' e e' : Engine) (xs xs' : List Exchange),
    NewAbreast e₀ e₀' ∧ Execution e₀ xs e ∧ Execution e₀' xs' e' ∧
    xs.map (·.demand) = xs'.map (·.demand) ∧
    e.pool.accepted = 4 ∧ e'.pool.accepted = 1 ∧ e'.pool.closed = true ∧
    e.visits.map (fun v => (v.time, v.node)) =
      [(0, "greet"), (0, "chat"), (1000, "greet"), (1000, "chat")] ∧
    xs = xs' ∧ SameCourse e e' := by
  have hopening : ∀ d ∈ opening, d.Deaf :=
    List.forall_mem_cons.mpr ⟨trivial, List.forall_mem_singleton.mpr trivial⟩
  have hlater : ∀ d ∈ later, d.Deaf :=
    List.forall_mem_cons.mpr ⟨trivial, List.forall_mem_singleton.mpr trivial⟩
  obtain ⟨e₀, h₀, hleft⟩ : ∃ e₀, create {} (builtins .toLog) .sample .inMemory (some {}) none
      (fun _ low _ => low) = .ok e₀ ∧
      (Engine.replay (opening ++ later) e₀).map (fun e => (e.pool.accepted,
        e.visits.map fun v => (v.time, v.node))) =
      some (4, [(0, "greet"), (0, "chat"), (1000, "greet"), (1000, "chat")]) :=
    ⟨_, rfl, by decide +kernel⟩
  obtain ⟨e₀', h₀', hright⟩ : ∃ e₀', create { workers := 1 } (builtins offline) .sample .inMemory
      (some {}) none (fun _ low _ => low) = .ok e₀' ∧
      ((Engine.replay opening e₀').bind fun m => (Engine.work 2 m).returned?.bind fun r =>
        (Engine.replay later { r.2 with pool := r.2.pool.close }).map fun e' =>
          (e'.pool.accepted, e'.pool.closed)) = some (1, true) :=
    ⟨_, rfl, by decide +kernel⟩
  obtain ⟨e, hreplay, hseen⟩ := Option.map_eq_some_iff.mp hleft
  obtain ⟨haccepted, hvisits⟩ := Prod.mk.inj hseen
  obtain ⟨xs, hxs, h⟩ := Execution.start.replay
    (List.forall_mem_append.mpr ⟨hopening, hlater⟩) hreplay
  obtain ⟨m, hm, hgo⟩ := Option.bind_eq_some_iff.mp hright
  obtain ⟨⟨_, w⟩, hreturned, hgo⟩ := Option.bind_eq_some_iff.mp hgo
  obtain ⟨e', hreplay', hseen'⟩ := Option.map_eq_some_iff.mp hgo
  obtain ⟨haccepted', hclosed⟩ := Prod.mk.inj hseen'
  obtain ⟨_, hwork, rfl⟩ := Run.exists_returned (f := id)
    (congrArg (Option.map fun p => (p.1, id p.2)) hreturned)
  obtain ⟨ys, hys, hbegun⟩ := Execution.start.replay hopening hm
  -- the one worker breaks off over the first message, and then the pool is closed
  have hclosing := (hbegun.work hwork).meanwhile (.pool (Pool.close _) id)
  obtain ⟨zs, hzs, h'⟩ := hclosing.replay hlater hreplay'
  have hsame : xs.map (·.demand) = (ys ++ zs).map (·.demand) := by
    rw [hxs, List.map_append, hys, hzs]
  have hoffline : offline.Delivers := ⟨fun _ => .panic, fun _ _ => .panic⟩
  have hnone : ∀ p ∈ (none : Option (Pool Program)), p.Delivers := fun _ hp => by cases hp
  have hhops : ({} : Config).maxHops = ({ workers := 1 } : Config).maxHops := rfl
  have hnew : NewAbreast e₀ e₀' :=
    .mk Builtin.delivers_toLog hoffline hhops rfl hnone hnone h₀ h₀'
  obtain ⟨heq, hcourse, -⟩ := messages_steer_nothing hnew h h' hsame
  exact ⟨e₀, e₀', e, e', xs, ys ++ zs, hnew, h, h', hsame, haccepted, haccepted', hclosed, hvisits,
    heq, hcourse⟩

end Engine

end Flowgraph
