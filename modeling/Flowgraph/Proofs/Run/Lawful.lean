import Flowgraph.Proofs.Graph.Wiring
import Flowgraph.Proofs.Run.Requests

/-!
# What engines keep if their programs keep to allowed requests

An invariant that not every program keeps, and the conditions under which those at hand do: `Lawful`
says that what allowed requests and well-behaved nodes lead to is allowed again. Which requests are
allowed may depend on the engine, as long as what is allowed stays so.

The invariant is that of an engine with everything that it stores, since what a program leaves
behind is run later (`Holds`). It is carried through programs (`Lawful.exec`), through commands
(`Lawful.call`), and through whatever a host asks for within the same limits (`Errand.kept`).
-/

namespace Flowgraph

open Engine

variable {A : Engine → Request → Prop} {B : Behaviour → Prop} {J : Engine → Prop}

/-- Everything that an engine stores is in order: its programs make allowed requests only, its nodes
and its node types behave as they should, and an invariant holds of it. -/
structure Holds (A : Engine → Request → Prop) (B : Behaviour → Prop) (J : Engine → Prop)
    (e : Engine) : Prop where
  stores : ∀ p, e.Stores p → p.Within (A e)
  members : ∀ g, ∀ n ∈ (e.graph g).nodes, B n.behaviour
  types : e.registry.Behaves B
  own : J e

/-- An engine that comes of another one is in order. -/
structure Kept (A : Engine → Request → Prop) (B : Behaviour → Prop) (J : Engine → Prop)
    (e e' : Engine) : Prop where
  holds : Holds A B J e'
  since : Extends e e'

/-- The conditions under which programs keep an invariant: what allowed requests and well-behaved
nodes lead to is allowed again, above all the program of a node that a walk enters, and the way
that the walk goes on from there. -/
structure Lawful (A : Engine → Request → Prop) (B : Behaviour → Prop) (J : Engine → Prop) :
    Prop where
  mono : ∀ {e e' q}, Extends e e' → A e q → A e' q
  keep : ∀ {e e'}, Extends e e' → e'.visits = e.visits → J e → J e'
  init : ∀ {b}, B b → ∀ e n s, (b.init n s).Within (A e)
  unload : ∀ {b}, B b → ∀ e n s, (b.unload n s).Within (A e)
  enter : ∀ {e : Engine} {w : Walk} {n : LiveNode} {w' : Walk}, J e → A e (.call (.walk w)) →
    e.arrival w = .entered n w' → B n.behaviour →
    J (e.record (.entered e.now n.id w')) ∧
      (n.behaviour.execute n.node w').Within (A (e.record (.entered e.now n.id w'))) ∧
      ∀ vars next e', (n.behaviour.execute n.node w').Finishes vars next →
        Extends (e.record (.entered e.now n.id w')) e' →
        A e' (.call (.walk { w' with vars := vars, pending := next }))

theorem Holds.kept {e : Engine} (h : Holds A B J e) : Kept A B J e e := ⟨h, .refl e⟩

/-- What is kept twice is kept. -/
theorem Kept.trans {e e' e'' : Engine} (h : Kept A B J e e') (h' : Kept A B J e' e'') :
    Kept A B J e e'' := ⟨h'.holds, h.since.trans h'.since⟩

/-- Wherever a run ends, the engine is in order. -/
abbrev Run.Keeps (A : Engine → Request → Prop) (B : Behaviour → Prop) (J : Engine → Prop)
    (e : Engine) {α : Type} (r : Run α) : Prop :=
  r.Ends (fun _ => Kept A B J e) (Kept A B J e)

/-- A run keeps what was kept on the way to it. -/
theorem Kept.keeps {α : Type} {r : Run α} {e e' : Engine} (h : Kept A B J e e')
    (hr : r.Keeps A B J e') : r.Keeps A B J e :=
  hr.mono (fun _ _ => h.trans) fun _ => h.trans

/-- Runs that keep the engine in order do so one after the other. -/
theorem Run.Keeps.bind {α β : Type} {r : Run α} {k : α → Engine → Run β} {e : Engine}
    (hr : r.Keeps A B J e) (hk : ∀ a e', Kept A B J e e' → (k a e').Keeps A B J e') :
    (r.bind k).Keeps A B J e :=
  Run.Ends.bind hr fun a e' h => h.keeps (hk a e' h)

theorem Run.Keeps.map {α β : Type} {r : Run α} {f : α → β} {e : Engine} (hr : r.Keeps A B J e) :
    (r.map f).Keeps A B J e :=
  Run.Ends.map hr fun _ _ => id

namespace Lawful

variable (L : Lawful A B J) {e e' : Engine}
include L

/-- What a program may ask for it may ask for later. -/
theorem within {p : Program} (h : Extends e e') (hp : p.Within (A e)) : p.Within (A e') :=
  hp.mono fun _ => L.mono h

/-- What an engine gains is in order, and so is the engine then. -/
theorem gains (h : Gains (·.Within (A e)) B e e') (he : Holds A B J e) : Kept A B J e e' := by
  have hin : ∀ {p : Program}, p.Within (A e) → p.Within (A e') := L.within h.toExtends
  exact ⟨{
    stores := fun p hp => hin ((h.stores hp).elim (he.stores p) id)
    members := fun g n hn => (h.members g n hn).elim (he.members g n) id
    types := fun name t b ht hb => (h.types name t b ht hb).elim (he.types name t b · hb) id
    own := L.keep h.toExtends h.entered he.own }, h.toExtends⟩

/-- A node is entered. -/
theorem entered (he : Holds A B J e) (entry : Entry) (hown : J (e.record entry)) :
    Kept A B J e (e.record entry) := by
  refine ⟨{ he with stores := fun p hp => ?_, own := hown }, .record e entry⟩
  refine L.within (.record e entry) (he.stores p ?_)
  -- an entry in the journal is no program
  cases hp with
  | reaction hl event before => exact .reaction (e := e) hl event before
  | body ht run => exact .body (e := e) ht run
  | job hjob => exact .job (e := e) hjob

/-- The log is no matter of order. -/
theorem log (he : Holds A B J e) (line : LogLine) : Kept A B J e (e.log line) :=
  L.gains (.log e line) he

theorem logAll (he : Holds A B J e) (lines : List LogLine) : Kept A B J e (e.logAll lines) :=
  L.gains (.logAll e lines) he

/-- The answer to a request that needs no further program. -/
theorem quiet (he : Holds A B J e) {α : Type} {r : Run α}
    (hr : r.Ends (fun _ => Gains (·.Within (A e)) B e) fun _ => False) : r.Keeps A B J e :=
  hr.mono (fun _ _ h => L.gains h he) fun _ => False.elim

/-! ### Programs -/

/-- What nested commands keep, a program keeps that makes allowed requests only. -/
theorem exec {nested : (c : Command) → Engine → Run c.Answer}
    (hnested : ∀ c e, Holds A B J e → A e (.call c) → (nested c e).Keeps A B J e) (p : Program)
    (e : Engine) (he : Holds A B J e) (hp : p.Within (A e)) :
    (Engine.exec nested p e).Keeps A B J e := by
  -- each request leads from an engine in order to another, in which the rest is allowed
  induction p generalizing e with
  | finish vars next => exact he.kept
  | fail err => exact he.kept
  | panic => exact he.kept
  | act a k ih =>
    obtain ⟨-, hk⟩ := Program.within_act_iff.mp hp
    exact (L.quiet he (act_gains e a)).bind fun answer e' h =>
      ih answer e' h.holds (L.within h.since (hk answer))
  | schedule g timing body k _ ih =>
    obtain ⟨hbody, hk⟩ := Program.within_schedule_iff.mp hp
    exact (L.quiet he (schedule_gains e g timing hbody)).bind fun answer e' h =>
      ih answer e' h.holds (L.within h.since (hk answer))
  | subscribe g key l reaction k _ ih =>
    obtain ⟨hreaction, hk⟩ := Program.within_subscribe_iff.mp hp
    exact (L.quiet he (subscribe_gains e g key ⟨l, reaction⟩ hreaction)).bind fun _ e' h =>
      ih () e' h.holds (L.within h.since hk)
  | submit job k _ ih =>
    obtain ⟨hjob, hk⟩ := Program.within_submit_iff.mp hp
    have h := L.gains (submit_gains e hjob) he
    exact h.keeps (ih _ _ h.holds (L.within h.since (hk _)))
  | call c k ih =>
    obtain ⟨hc, hk⟩ := Program.within_call_iff.mp hp
    exact (hnested c e he hc).bind fun answer e' h =>
      ih answer e' h.holds (L.within h.since (hk answer))

/-! ### Events and walks -/

section Commands

variable {run : Interpreter}
  (hrun : ∀ p e, Holds A B J e → p.Within (A e) → (run p e).Keeps A B J e)
include hrun

/-- An event is delivered to listeners that keep to allowed requests. -/
theorem deliver (event : Event) (before : Bool) (ls : List (Listener Reaction)) (e : Engine)
    (he : Holds A B J e)
    (hls : ∀ l ∈ ls, (l.reaction event before).Within (A e)) :
    (Engine.deliver run event before ls e).Keeps A B J e := by
  induction ls generalizing e with
  | nil => exact he.kept
  | cons l rest ih =>
    obtain ⟨hl, hrest⟩ := List.forall_mem_cons.mp hls
    have hheard : Kept A B J e (e.record (.heard l.id event.key before)) :=
      L.gains (.record e rfl) he
    have hr := hheard.keeps (hrun _ _ hheard.holds (L.within hheard.since hl))
    -- the rest of the listeners is given the event in any case
    have hgo : ∀ {m}, Kept A B J e m → (Engine.deliver run event before rest m).Keeps A B J e :=
      fun hm => hm.keeps (ih _ hm.holds fun l hl => L.within hm.since (hrest l hl))
    rw [Engine.deliver]
    split
    · next m heq =>
      rw [heq] at hr
      exact hgo hr
    · next err m heq =>
      rw [heq] at hr
      exact (hgo (hr.trans (L.log hr.holds _))).map
    · next m heq =>
      rw [heq] at hr
      exact (hgo (hr.trans (L.log hr.holds _))).map
    · trivial

/-- The listeners of the live graph are stored, and so keep to allowed requests. -/
theorem fire (event : Event) (before : Bool) (e : Engine) (he : Holds A B J e) :
    (Engine.fire run event before e).Keeps A B J e := by
  unfold Engine.fire
  split
  · trivial
  · exact L.deliver hrun event before _ e he fun l hl => he.stores _ (.reaction hl event before)

/-! ### Replacing the live graph -/

/-- Well-behaved nodes are unloaded in order. -/
theorem unloadAll (g : GraphId) (nodes : List LiveNode) (e : Engine) (he : Holds A B J e)
    (hnodes : ∀ n ∈ nodes, B n.behaviour) : (Engine.unloadAll run g nodes e).Keeps A B J e := by
  induction nodes generalizing e with
  | nil => exact he.kept
  | cons n rest ih =>
    obtain ⟨hn, hrest⟩ := List.forall_mem_cons.mp hnodes
    have hrec : Kept A B J e (e.record (.unloaded g n.id)) := L.gains (.record e rfl) he
    exact (hrec.keeps (hrun _ _ hrec.holds (L.unload hn _ _ _))).bind fun _ m hm =>
      ih m hm.holds hrest

/-- Well-behaved nodes are initialised in order, and so they are unloaded if one fails. -/
theorem initAll (g : GraphId) (before nodes : List LiveNode) (e : Engine) (he : Holds A B J e)
    (hbefore : ∀ n ∈ before, B n.behaviour) (hnodes : ∀ n ∈ nodes, B n.behaviour) :
    (Engine.initAll run g before nodes e).Keeps A B J e := by
  induction nodes generalizing before e with
  | nil => exact he.kept
  | cons n rest ih =>
    obtain ⟨hn, hrest⟩ := List.forall_mem_cons.mp hnodes
    have hrec : Kept A B J e (e.record (.initialising g n.id)) := L.gains (.record e rfl) he
    refine (hrec.keeps (hrun _ _ hrec.holds (L.init hn _ _ _))).bind ?_
    rintro (err | step) m hm
    · -- a node that fails has those before it unloaded
      have hlog := L.log hm.holds (initLog n err)
      exact (hlog.keeps (L.unloadAll hrun g before _ hlog.holds hbefore)).map
    · have hdone : Kept A B J m (m.record (.initialised g n.id)) := L.gains (.record m rfl) hm.holds
      refine hdone.keeps (ih (before ++ [n]) _ hdone.holds ?_ hrest)
      exact List.forall_mem_append.mpr ⟨hbefore, List.forall_mem_singleton.mpr hn⟩

omit hrun in
/-- Whatever else it holds, an engine of which only other parts change is in order. -/
theorem bare (he : Holds A B J e) (hconfig : e'.config = e.config) (hgraphs : e'.graphs = e.graphs)
    (hregistry : e'.registry = e.registry) (hvisits : e'.visits = e.visits)
    (htasks : e'.scheduler.tasks = e.scheduler.tasks) (hjobs : e'.pool.jobs = e.pool.jobs) :
    Kept A B J e e' :=
  L.gains (.bare hconfig hgraphs hregistry hvisits htasks hjobs) he

omit hrun in
/-- A program that breaks off gives the graph up. -/
theorem onPanic_abandon (g : GraphId) {α : Type} {r : Run α} (hr : r.Keeps A B J e) :
    (r.onPanic (abandon g)).Keeps A B J e :=
  Run.Ends.onPanic hr fun m hm => hm.trans (L.gains (.abandon m g) hm.holds)

/-- A graph of well-behaved nodes is taken down in order. -/
theorem teardown (g : GraphId) (e : Engine) (he : Holds A B J e) :
    (Engine.teardown run g e).Keeps A B J e := by
  have hhook : Kept A B J e { e with hooks := some g } := L.bare he rfl rfl rfl rfl rfl rfl
  have hunload := L.unloadAll hrun g (e.graph g).nodes _ hhook.holds (he.members g)
  refine (hhook.keeps (L.onPanic_abandon g hunload)).bind fun _ m hm => ?_
  have hfree : Kept A B J m { m with hooks := none } := L.bare hm.holds rfl rfl rfl rfl rfl rfl
  have hdrop := hfree.trans (L.gains (.drop { m with hooks := none } g) hfree.holds)
  exact hdrop.trans (L.logAll hdrop.holds _)

/-- An empty graph has no nodes that could misbehave. -/
theorem replace (empty : Graph) (e : Engine) (he : Holds A B J e) (hempty : empty.Fresh)
    (hnodes : empty.nodes = []) : (Engine.replace run empty e).Keeps A B J e := by
  have hadd : Kept A B J e (e.addGraph empty).2 :=
    L.gains (.addGraph e hempty (hnodes ▸ List.forall_mem_nil _)) he
  have hlive : Kept A B J e { (e.addGraph empty).2 with live := (e.addGraph empty).1 } :=
    hadd.trans (L.bare hadd.holds rfl rfl rfl rfl rfl rfl)
  exact (hlive.keeps (L.teardown hrun e.live _ hlive.holds)).map

/-- A graph is wired from types whose nodes behave, and so it is in order. -/
theorem build (c : Context) (generation : Nat) (e : Engine) (he : Holds A B J e) :
    (Engine.build run c generation e).Keeps A B J e := by
  unfold Engine.build
  split
  · exact he.kept
  · next nodes hwire =>
    have hnodes : ∀ n ∈ nodes, B n.behaviour := behaves_of_wire he.types hwire
    have hadd : Kept A B J e
        (e.addGraph { generation := generation, context := c, nodes := nodes }).2 :=
      L.gains (.addGraph e ⟨rfl, rfl, rfl⟩ hnodes) he
    have hhook : Kept A B J e
        (e.raise { generation := generation, context := c, nodes := nodes }) :=
      hadd.trans (L.bare hadd.holds rfl rfl rfl rfl rfl rfl)
    have hinit := L.initAll hrun e.graphs.length [] nodes _ hhook.holds (List.forall_mem_nil _)
      hnodes
    refine (hhook.keeps (L.onPanic_abandon _ hinit)).bind ?_
    -- the new graph is dropped if a node fails, and otherwise the old one
    rintro (err | _) m hm
    · have hfree : Kept A B J m { m with hooks := none } := L.bare hm.holds rfl rfl rfl rfl rfl rfl
      exact hfree.trans (L.gains (.drop { m with hooks := none } _) hfree.holds)
    · have hfree : Kept A B J m { m with hooks := none } := L.bare hm.holds rfl rfl rfl rfl rfl rfl
      have hdrop : Kept A B J { m with hooks := none } ({ m with hooks := none }.modifyGraph m.live
          ({ · with dropped := true })) :=
        L.gains (.modifyGraph _ _ rfl fun _ _ => .inl) hfree.holds
      have h := hfree.trans hdrop
      exact h.trans (L.bare h.holds rfl rfl rfl rfl rfl rfl)

/-- The nodes of the old graph and those of the new one behave. -/
theorem load (c : Context) (e : Engine) (he : Holds A B J e) :
    (Engine.load run c e).Keeps A B J e := by
  have hlog := L.log he (.info ("Loading workflow (" ++ toString c.nodes.length ++ " nodes)"))
  unfold Engine.load
  dsimp only
  split
  · trivial
  · refine Run.Keeps.bind (hlog.keeps (L.replace hrun {} _ hlog.holds ⟨rfl, rfl, rfl⟩ rfl)) ?_
    intro g m hm
    -- the graph that stands in takes over the number and the context
    have hentitled : Kept A B J m (m.modifyGraph g
        ({ · with generation := e.liveGraph.generation + 1, context := c })) :=
      L.gains (.modifyGraph m g rfl fun _ _ => .inl) hm.holds
    have hstored : Kept A B J m { m.modifyGraph g
        ({ · with generation := e.liveGraph.generation + 1, context := c }) with
        store := m.store.writeContext c } :=
      hentitled.trans (L.bare hentitled.holds rfl rfl rfl rfl rfl rfl)
    split
    · exact hstored
    · refine Run.Keeps.bind (hstored.keeps (L.build hrun c _ _ hstored.holds)) ?_
      rintro (err | _) m' hm'
      · exact hm'.holds.kept
      · have hlogs := L.logAll hm'.holds (m'.findingsLog c)
        exact hlogs.trans (L.log hlogs.holds _)

/-- The nodes of the old graph behave. -/
theorem clear (e : Engine) (he : Holds A B J e) : (Engine.clear run e).Keeps A B J e := by
  unfold Engine.clear
  split
  · trivial
  · exact (L.replace hrun _ e he ⟨rfl, rfl, rfl⟩ rfl).bind fun _ m hm => L.log hm.holds _

end Commands

/-! ### Commands -/

/-- **Allowed commands keep what is lawful.** -/
theorem call (fuel : Nat) (c : Command) (e : Engine) (he : Holds A B J e) (hc : A e (.call c)) :
    (Engine.call fuel c e).Keeps A B J e := by
  -- nested commands and the steps of a walk have less fuel
  induction fuel generalizing c e with
  | zero => cases c <;> trivial
  | succ fuel ih =>
    have hrun : ∀ p e, Holds A B J e → p.Within (A e) →
        (Engine.exec (Engine.call fuel) p e).Keeps A B J e := L.exec fun c e => ih c e
    cases c with
    | walk w =>
      rw [Engine.call]
      split
      · exact he.kept
      · exact L.log he _
      · exact L.log he _
      · next n w' ha =>
        have hnode : B n.behaviour := he.members _ n (mem_of_arrival ha)
        obtain ⟨hown, hwithin, hon⟩ := L.enter he.own hc ha hnode
        have hrec := L.entered he (.entered e.now n.id w') hown
        have hr := hrun _ _ hrec.holds hwithin
        unfold Engine.enter
        generalize hexec : Engine.exec (Engine.call fuel) (n.behaviour.execute n.node w')
          (e.record (.entered e.now n.id w')) = r at hr ⊢
        rcases r with ⟨err | step, m⟩ | m | _
        · exact hrec.trans hr
        · -- the walk goes on from where the program has led it
          have hgo := hon _ _ m (finishes_of_exec hexec) hr.since
          exact (hrec.trans hr).keeps (ih (.walk _) m hr.holds hgo)
        · exact hrec.trans hr
        · trivial
    | fire event before => exact L.fire hrun event before e he
    | load c => exact L.load hrun c e he
    | restore =>
      show (Engine.restore (Engine.exec (Engine.call fuel)) e).Keeps A B J e
      unfold Engine.restore
      split
      · exact he.kept
      · exact L.load hrun _ e he
    | clear => exact L.clear hrun e he

/-- A program of the host's that keeps to allowed requests. -/
theorem perform (fuel : Nat) (p : Program) (e : Engine) (he : Holds A B J e)
    (hp : p.Within (A e)) : (Engine.perform fuel p e).Keeps A B J e :=
  L.exec (fun c e => L.call fuel c e) p e he hp

/-! ### The clock, the workers and the end -/

/-- A body or a job that goes wrong is reported, and everything else goes on. -/
theorem guarded {r : Run (Except WorkflowError Flowgraph.Step)}
    (failed : WorkflowError → LogLine) (panicked : LogLine) (hr : r.Keeps A B J e) :
    (Engine.guarded r failed panicked).Keeps A B J e := by
  match r, hr with
  | .returned (.ok _) _, h => exact h
  | .returned (.error _) _, h => exact h.trans (L.log h.holds _)
  | .panicked _, h => exact h.trans (L.log h.holds _)
  | .diverged, _ => trivial

/-- The body of a task is stored, and so keeps to allowed requests. -/
theorem runTask (fuel : Nat) (task : TaskId) (due : Nat) (e : Engine) (he : Holds A B J e) :
    (Engine.runTask (Engine.exec (Engine.call fuel)) task due e).Keeps A B J e := by
  unfold Engine.runTask
  split
  · exact he.kept
  · next t ht =>
    have hbegin : Kept A B J e { e with scheduler := e.scheduler.begin task due } :=
      L.gains (.schedule e (Scheduler.proceeds_begin _ task due) (Scheduler.length_modify ..)) he
    have hstart : Kept A B J e (e.startTask task due) :=
      hbegin.trans (L.gains (.record _ rfl) hbegin.holds)
    -- the body was made by what was allowed to make it
    have hbody : (t.body t.runs).Within (A e) :=
      he.stores _ (.body (Scheduler.mem_of_task? ht) t.runs)
    have hrun := L.perform fuel (t.body t.runs) _ hstart.holds (L.within hstart.since hbody)
    refine (L.guarded _ _ (hstart.keeps hrun)).bind fun _ m hm => ?_
    exact L.gains (.schedule m (Scheduler.proceeds_complete _ task) (Scheduler.length_modify ..))
      hm.holds

/-- Tasks are in order one after another. -/
theorem advanceTo (fuel time rounds : Nat) (e : Engine) (he : Holds A B J e) :
    (Engine.advanceTo fuel time rounds e).Keeps A B J e := by
  induction rounds generalizing e with
  | zero => trivial
  | succ rounds ih =>
    have hsettle : Kept A B J e e.settle :=
      L.gains (.schedule e (Scheduler.proceeds_settle _) (List.length_map _)) he
    rw [Engine.advanceTo]
    dsimp only
    split
    · split
      · exact hsettle.trans (L.bare hsettle.holds rfl rfl rfl rfl rfl rfl)
      · next task due _ =>
        exact hsettle.keeps ((L.runTask fuel task due _ hsettle.holds).bind fun _ m hm =>
          ih m hm.holds)
    · trivial

/-- Jobs are stored, and so keep to allowed requests. -/
theorem workOff (fuel rounds : Nat) (e : Engine) (he : Holds A B J e) :
    (Engine.workOff fuel rounds e).Keeps A B J e := by
  induction rounds generalizing e with
  | zero => trivial
  | succ rounds ih =>
    rw [Engine.workOff]
    split
    · exact he.kept
    · next job rest hjobs =>
      have hrec : Kept A B J e (e.record (.worked job.number)) := L.gains (.record e rfl) he
      have hjob : job.work.Within (A e) := he.stores _ (.job (hjobs ▸ List.mem_cons_self))
      have hrun := L.perform fuel job.work _ hrec.holds (L.within hrec.since hjob)
      have hdone : (runJob (Engine.exec (Engine.call fuel)) job e).Keeps A B J e :=
        (L.guarded _ _ (hrec.keeps hrun)).bind fun _ m hm =>
          L.gains (.pool m fun _ hj => .inl (m.pool.jobs_finish_subset job.number hj)) hm.holds
      exact hdone.bind fun _ m hm => ih m hm.holds

/-- A pool is closed in order, with the time that its jobs are given. -/
theorem closePool (fuel : Nat) (timeout : Duration) (e : Engine) (he : Holds A B J e) :
    (Engine.closePool fuel timeout e).Keeps A B J e := by
  -- neither opening a drain nor ending one brings in a job
  have hstart : Kept A B J e { e with pool := e.pool.startDrain } :=
    L.bare he rfl rfl rfl rfl rfl e.pool.jobs_startDrain
  have hend : ∀ m number, Holds A B J m → Kept A B J m { m with pool := m.pool.endDrain number } :=
    fun m number hm => L.bare hm rfl rfl rfl rfl rfl (m.pool.jobs_endDrain number)
  cases hpool : e.pool.closed with
  | true =>
    rw [Engine.closePool_of_closed fuel timeout hpool]
    exact he.kept
  | false =>
    rw [Engine.closePool_eq fuel timeout hpool]
    refine Run.Keeps.bind (Engine.awaitDrain_ends _ hstart
      (hstart.keeps (L.advanceTo fuel _ fuel _ hstart.holds))) fun _ m hm => ?_
    exact Engine.concludeDrain_keeps (fun _ line h => h.trans (L.log h.holds line)) timeout
      (hend m e.pool.shutdowns hm.holds)

end Lawful

/-! ### The host -/

/-- What the host asks for, if it keeps to allowed requests and well-behaved node types. What it
does at once, or leaves behind, it does as a program. -/
inductive Errand (A : Engine → Request → Prop) (B : Behaviour → Prop) (e : Engine) : Engine → Prop
  | perform (fuel : Nat) (p : Program) {e' : Engine} (hp : p.Within (A e))
      (h : (perform fuel p e).Leaves e') : Errand A B e e'
  | advance (fuel millis : Nat) {e' : Engine} (h : (advance fuel millis e).Leaves e') :
      Errand A B e e'
  | work (fuel : Nat) {e' : Engine} (h : (work fuel e).Leaves e') : Errand A B e e'
  | closePool (fuel : Nat) (timeout : Duration) {e' : Engine}
      (h : (closePool fuel timeout e).Leaves e') : Errand A B e e'
  | register (t : NodeType Behaviour) {e' : Engine} (ht : ∀ b, t.behaviour = some b → B b)
      (h : e.register t = .ok e') : Errand A B e e'
  | registerEvent (name : String) (key : EventKey) : Errand A B e (e.registerEvent name key)
  | write (store : Store) : Errand A B e { e with store := store }

/-- **What is lawful is kept by whatever the host asks for.** -/
theorem Errand.kept (L : Lawful A B J) {e e' : Engine} (h : Errand A B e e') (he : Holds A B J e) :
    Kept A B J e e' := by
  cases h with
  | perform fuel p hp h => exact (L.perform fuel p e he hp).leaves h
  | advance fuel millis h => exact (L.advanceTo fuel _ fuel e he).leaves h
  | work fuel h => exact (L.workOff fuel fuel e he).leaves h
  | closePool fuel timeout h => exact (L.closePool fuel timeout e he).leaves h
  | register t ht h =>
    obtain ⟨registry, hreg, rfl⟩ := of_register h
    -- a name stands for the type that is registered under it, or for what it stood for before
    have htypes : ∀ name t' b, registry.get? name = some t' → t'.behaviour = some b →
        e.registry.get? name = some t' ∨ B b := by
      intro name t' b ht' hb
      by_cases hname : name = t.metadata.name
      · rw [hname, Registry.register_name hreg] at ht'
        obtain rfl := Option.some.inj ht'
        exact .inr (ht b hb)
      · rw [Registry.get?_register_of_ne hreg hname] at ht'
        exact .inl ht'
    have hext : Extends e { e with registry := registry } :=
      ⟨rfl, Nat.le_refl _, fun _ _ => rfl, List.Subset.refl _⟩
    have hgains : Gains (·.Within (A e)) B e { e with registry := registry } := { hext with
      listeners := fun _ _ _ => .inl
      proceeds := .refl _
      made := fun _ _ ht' hnone => absurd hnone (Scheduler.exists_task?_of_length rfl ht')
      jobs := fun _ => .inl
      members := fun _ _ => .inl
      types := htypes
      entered := rfl }
    exact L.gains hgains he
  | registerEvent name key => exact L.bare he rfl rfl rfl rfl rfl rfl
  | write store => exact L.bare he rfl rfl rfl rfl rfl rfl

end Flowgraph
