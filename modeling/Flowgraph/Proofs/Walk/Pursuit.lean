import Flowgraph.Proofs.Builtin.Passage
import Flowgraph.Proofs.Run.Starts

/-!
# Following a walk

A walk goes from node to node until no node is pending, the pending one is not there, or something
fails. A node may hand the rest of the walk to a task; then the walk is taken up again when the task
comes to run, and much may happen in between that has nothing to do with it. A *pursuit* follows one
walk through all of this, in the engines that come one after another, and notes the nodes that are
entered and the draws that are made in them.

* `Pace`, `Pursuit` — one step of a walk, and any number of them.
* `Enacts`, `Pace.paced` — in a graph over the built-in node types a step is what the node's role
  says.
* `pursuit_of_call` — a walk that is run to its end, or to where a task takes over, is a pursuit.
-/

namespace Flowgraph

/-- How a walk ends. -/
inductive Ending where
  /-- There is no further node. -/
  | finished
  /-- The next node is not there. -/
  | stray (id : String)
  | failed (err : WorkflowError)

/-- Where the rest of a walk is. -/
inductive Stand where
  | walking (w : Walk)
  /-- A task is to go on with the walk. -/
  | waiting (task : TaskId)
  | ended (how : Ending)

theorem Graph.id_of_node? {graph : Graph} {id : String} {n : LiveNode}
    (h : graph.node? id = some n) : n.id = id := by
  have hfound := List.find?_some h
  exact of_decide_eq_true hfound

theorem Program.walkOn_inj {w w' : Walk} {next next' : String}
    (h : walkOn w next = walkOn w' next') :
    ({ w with pending := some next } : Walk) = { w' with pending := some next' } := by
  rw [walkOn, walkOn, Program.call.injEq, Command.walk.injEq] at h
  exact h.1

namespace Engine

/-- The draws that were made on the way from one engine to another. -/
def rolls (e m : Engine) : List Roll := (List.range' e.drawn (m.drawn - e.drawn)).map e.dice

/-- The engine in which the program of a node runs. -/
def entering (e : Engine) (n : LiveNode) (w : Walk) : Engine := e.record (.entered e.now n.id w)

/-- A walk goes on from where the program of the node leaves it. -/
theorem enter_eq (run : Interpreter) (n : LiveNode) (w : Walk) (e : Engine) :
    enter run n w e = (run (n.behaviour.execute n.node w) (e.entering n w)).map
      fun r => r.map fun step => { w with vars := step.vars, pending := step.next } := rfl

/-- One step of a walk, with the nodes that are entered and the draws that are made in it. -/
inductive Pace : Engine → Stand → List Visit → List Roll → Engine → Stand → Prop
  | finished {e : Engine} {w : Walk} (ha : e.arrival w = .over) :
      Pace e (.walking w) [] [] e (.ended .finished)
  | stray {e : Engine} {w : Walk} {id : String} (ha : e.arrival w = .stray id) :
      Pace e (.walking w) [] [] (e.log (strayLog id)) (.ended (.stray id))
  | stopped {e : Engine} {w : Walk} {limit : Nat} {id : String}
      (ha : e.arrival w = .stopped limit id) :
      Pace e (.walking w) [] [] (e.log (hopsLog limit id))
        (.ended (.failed (.hopLimitExceeded limit id)))
  | failed {e m : Engine} {w w' : Walk} {n : LiveNode} {fuel : Nat} {err : WorkflowError}
      (ha : e.arrival w = .entered n w')
      (hexec : exec (call fuel) (n.behaviour.execute n.node w') (e.entering n w') =
        .returned (.error err) m) :
      Pace e (.walking w) [⟨e.now, n.id, w'⟩] (e.rolls m) m (.ended (.failed err))
  | onward {e m : Engine} {w w' : Walk} {n : LiveNode} {fuel : Nat} {step : Flowgraph.Step}
      (ha : e.arrival w = .entered n w')
      (hexec : exec (call fuel) (n.behaviour.execute n.node w') (e.entering n w') =
        .returned (.ok step) m)
      (hlen : m.scheduler.tasks.length = e.scheduler.tasks.length) :
      Pace e (.walking w) [⟨e.now, n.id, w'⟩] (e.rolls m) m
        (.walking { w' with vars := step.vars, pending := step.next })
  /-- The node makes a task. -/
  | handed {e m : Engine} {w w' : Walk} {n : LiveNode} {fuel : Nat} {step : Flowgraph.Step}
      (ha : e.arrival w = .entered n w')
      (hexec : exec (call fuel) (n.behaviour.execute n.node w') (e.entering n w') =
        .returned (.ok step) m)
      (hlen : m.scheduler.tasks.length = e.scheduler.tasks.length + 1) :
      Pace e (.walking w) [⟨e.now, n.id, w'⟩] (e.rolls m) m
        (.waiting (e.scheduler.tasks.length + 1))
  /-- Whatever happens in between. -/
  | later {e m : Engine} {task : TaskId} (h : Elapses e m) :
      Pace e (.waiting task) [] [] m (.waiting task)
  /-- The task starts to run, while no other one does. -/
  | resumed {e : Engine} {limit : Nat} {task : TaskId} {due : Nat} {t : Task (Nat → Program)}
      {w : Walk} {next : String} (hresting : e.scheduler.resting = true)
      (hnext : e.scheduler.next? limit = some (task, due))
      (ht : e.scheduler.task? task = some t) (hbody : t.body t.runs = .walkOn w next) :
      Pace e (.waiting task) [] [] (e.startTask task due)
        (.walking { w with pending := some next })

/-- Any number of steps. -/
inductive Pursuit : Engine → Stand → List Visit → List Roll → Engine → Stand → Prop
  | refl (e : Engine) (s : Stand) : Pursuit e s [] [] e s
  | step {e m e' : Engine} {s s' s'' : Stand} {vs vs' : List Visit} {rs rs' : List Roll}
      (h : Pace e s vs rs m s') (rest : Pursuit m s' vs' rs' e' s'') :
      Pursuit e s (vs ++ vs') (rs ++ rs') e' s''

variable {e m e' : Engine} {s s' s'' : Stand} {vs vs' : List Visit} {rs rs' : List Roll}

theorem Pursuit.single (h : Pace e s vs rs m s') : Pursuit e s vs rs m s' := by
  have hone := Pursuit.step h (.refl m s')
  rwa [List.append_nil, List.append_nil] at hone

theorem Pursuit.trans (h : Pursuit e s vs rs m s') (h' : Pursuit m s' vs' rs' e' s'') :
    Pursuit e s (vs ++ vs') (rs ++ rs') e' s'' := by
  induction h with
  | refl => exact h'
  | step h _ ih =>
    rw [List.append_assoc, List.append_assoc]
    exact .step h (ih h')

theorem Pace.beats (h : Pace e s vs rs m s') : Beats e m := by
  -- entering a node is noted, and the rest is what its program does
  have hexec : ∀ {e m : Engine} {n : LiveNode} {w : Walk} {fuel : Nat} {p : Program}
      {r : Except WorkflowError Flowgraph.Step},
      exec (call fuel) p (e.entering n w) = .returned r m → Beats e m := by
    intro e m n w fuel p r hr
    have hdeeds : Deeds (e.entering n w) m := (exec_deeds fuel p _).returned hr
    exact .head (Deed.move (.record e _ rfl)).beat hdeeds.beats
  cases h with
  | finished _ => exact .refl
  | stray _ => exact .single (Deed.move (.log e _)).beat
  | stopped _ => exact .single (Deed.move (.log e _)).beat
  | failed _ hr => exact hexec hr
  | onward _ hr _ => exact hexec hr
  | handed _ hr _ => exact hexec hr
  | later h => exact h.beats
  | resumed hresting hnext _ _ => exact .single (.start hresting hnext)

theorem Pace.evolves (h : Pace e s vs rs m s') : Evolves e m := h.beats.evolves

theorem Pursuit.evolves (h : Pursuit e s vs rs e' s') : Evolves e e' := by
  induction h with
  | refl => exact .refl
  | step h _ ih => exact h.evolves.trans ih

theorem over_of_arrival {w : Walk} (h : e.arrival w = .over) : w.pending = none := by
  unfold arrival at h
  split at h
  · next hnone => exact hnone
  · split at h
    · cases h
    · dsimp only at h
      split at h <;> cases h

theorem stray_of_arrival {w : Walk} {id : String} (h : e.arrival w = .stray id) :
    w.pending = some id ∧ (e.graph w.graph).node? id = none := by
  unfold arrival at h
  split at h
  · cases h
  · next id' hid =>
    split at h
    · next hnone =>
      cases h
      exact ⟨hid, hnone⟩
    · dsimp only at h
      split at h <;> cases h

/-! ### Graphs over the built-in node types -/

open Builtin (Sink)

/-- A graph is there, and its nodes play the roles of their types. -/
structure Enacts (sink : Sink) (g : GraphId) (e : Engine) : Prop where
  lt : g < e.graphs.length
  roles : ∀ n ∈ (e.graph g).nodes, n.behaviour.execute = n.node.role.execute sink

variable {sink : Sink} {g : GraphId} {w w' : Walk} {n : LiveNode}

theorem Enacts.extends (h : Enacts sink g e) (he : Extends e e') : Enacts sink g e' where
  lt := Nat.lt_of_lt_of_le h.lt he.length
  roles := by
    rw [he.nodes g h.lt]
    exact h.roles

/-- Where a walk stands behind a node, by the node's passage. -/
inductive Left (w : Walk) (e m : Engine) : Passage → Stand → Prop
  | onward (vars : Variables) (next : Option String) (h : m.scheduler = e.scheduler) :
      Left w e m (.onward vars next) (.walking { w with vars := vars, pending := next })
  | handed (delay : Duration) (next : String) {t : Task (Nat → Program)}
      (ht : m.scheduler.task? (e.scheduler.tasks.length + 1) = some t)
      (hcarries : Carries t w next (e.now + delay.ceilMillis)) :
      Left w e m (.handed delay next) (.waiting (e.scheduler.tasks.length + 1))
  | failed (err : WorkflowError) (h : m.scheduler = e.scheduler) :
      Left w e m (.failed err) (.ended (.failed err))

/-- The draws of a node. -/
def rollsOf (e : Engine) : Bool → List Roll
  | true => [e.dice e.drawn]
  | false => []

/-- A step of a walk through a graph over the built-in node types. -/
inductive Paced (e : Engine) (w : Walk) : List Visit → List Roll → Engine → Stand → Prop
  | finished (ha : e.arrival w = .over) : Paced e w [] [] e (.ended .finished)
  | stray {id : String} (ha : e.arrival w = .stray id) :
      Paced e w [] [] (e.log (strayLog id)) (.ended (.stray id))
  | stopped {limit : Nat} {id : String} (ha : e.arrival w = .stopped limit id) :
      Paced e w [] [] (e.log (hopsLog limit id)) (.ended (.failed (.hopLimitExceeded limit id)))
  | entered {n : LiveNode} {w' : Walk} {m : Engine} {s : Stand} (ha : e.arrival w = .entered n w')
      (hpassing : Passing (e.entering n w') m (n.node.draws w'.vars))
      (hleft : Left w' e m (n.node.passage w'.vars (e.dice e.drawn)) s) :
      Paced e w [⟨e.now, n.id, w'⟩] (e.rollsOf (n.node.draws w'.vars)) m s

theorem rolls_of_passing {draws : Bool} (h : Passing (e.entering n w') m draws) :
    e.rolls m = e.rollsOf draws := by
  have hdrawn : m.drawn = e.drawn + draws.toNat := h.drawn
  rw [rolls, hdrawn, Nat.add_sub_cancel_left]
  cases draws <;> rfl

/-- What a node that is entered does with the walk. -/
theorem Enacts.passed {fuel : Nat} {r : Except WorkflowError Flowgraph.Step}
    (he : Enacts sink w.graph e) (ha : e.arrival w = .entered n w')
    (hexec : exec (call fuel) (n.behaviour.execute n.node w') (e.entering n w') = .returned r m) :
    e.rolls m = e.rollsOf (n.node.draws w'.vars) ∧
      Passing (e.entering n w') m (n.node.draws w'.vars) ∧
      Passed w' (e.entering n w') m (n.node.passage w'.vars (e.dice e.drawn)) r := by
  rw [he.roles _ (mem_of_arrival ha)] at hexec
  obtain ⟨hpassing, hpassed⟩ := (n.node.role.passes sink n.node).returned (fun _ => rfl) hexec
  exact ⟨rolls_of_passing hpassing, hpassing, hpassed⟩

/-- The graph is still there behind a node. -/
theorem Enacts.past {draws : Bool} (he : Enacts sink w.graph e) (ha : e.arrival w = .entered n w')
    (h : Passing (e.entering n w') m draws) : Enacts sink w'.graph m := by
  rw [graph_of_arrival ha]
  exact he.extends ((Extends.record e _).trans h.moves.evolves.extends)

/-- No task was made where the scheduler is what it was. -/
theorem length_tasks_of_scheduler (h : m.scheduler = (e.entering n w).scheduler) :
    m.scheduler.tasks.length = e.scheduler.tasks.length :=
  congrArg (fun s => s.tasks.length) h

/-- It is enough to know where a node leaves the walk. -/
theorem Enacts.paced {fuel : Nat} {r : Except WorkflowError Flowgraph.Step} {s : Stand}
    (he : Enacts sink w.graph e) (ha : e.arrival w = .entered n w')
    (hexec : exec (call fuel) (n.behaviour.execute n.node w') (e.entering n w') = .returned r m)
    (hleft : ∀ passage, Passed w' (e.entering n w') m passage r → Left w' e m passage s) :
    Paced e w [⟨e.now, n.id, w'⟩] (e.rolls m) m s := by
  obtain ⟨hrolls, hpassing, hpassed⟩ := he.passed ha hexec
  rw [hrolls]
  exact .entered ha hpassing (hleft _ hpassed)

/-- **In a graph over the built-in node types a step of a walk is what the node's role says.** -/
theorem Pace.paced (h : Pace e (.walking w) vs rs m s) (he : Enacts sink w.graph e) :
    Paced e w vs rs m s := by
  cases h with
  | finished ha => exact .finished ha
  | stray ha => exact .stray ha
  | stopped ha => exact .stopped ha
  | failed ha hexec =>
    refine he.paced ha hexec fun passage hpassed => ?_
    cases hpassed with
    | failed _ hs => exact .failed _ hs
  | onward ha hexec hlen =>
    refine he.paced ha hexec fun passage hpassed => ?_
    cases hpassed with
    | onward vars next hs => exact .onward vars next hs
    | handed delay next hlen' _ _ =>
      -- a task would have been made
      rw [hlen] at hlen'
      exact absurd hlen' (Nat.ne_of_lt (Nat.lt_succ_self _))
  | handed ha hexec hlen =>
    refine he.paced ha hexec fun passage hpassed => ?_
    cases hpassed with
    | onward vars next hs =>
      -- no task would have been made
      have hlen' := length_tasks_of_scheduler hs
      rw [hlen] at hlen'
      exact absurd hlen' (Nat.succ_ne_self _)
    | handed delay next _ ht hcarries => exact .handed delay next ht hcarries

/-! ### Runs -/

/-- What is answered where a walk through a graph stands that does not go on at once. -/
inductive Answers (g : GraphId) (m : Engine) : Stand → Except WorkflowError Unit → Prop
  | finished : Answers g m (.ended .finished) (.ok ())
  | stray (id : String) : Answers g m (.ended (.stray id)) (.ok ())
  | failed (err : WorkflowError) : Answers g m (.ended (.failed err)) (.error err)
  | waiting {task : TaskId} {t : Task (Nat → Program)} {w : Walk} {next : String} {due : Nat}
      (ht : m.scheduler.task? task = some t) (hg : w.graph = g) (hcarries : Carries t w next due) :
      Answers g m (.waiting task) (.ok ())

/-- A walk with nothing pending is over. -/
theorem of_call_walk {fuel : Nat} {r : Except WorkflowError Unit} (hnone : w.pending = none)
    (h : call fuel (.walk w) e = .returned r m) : m = e ∧ r = .ok () := by
  cases fuel with
  | zero => cases h
  | succ fuel =>
    rw [call, arrival, hnone] at h
    cases h
    exact ⟨rfl, rfl⟩

/-- A run of a walk that enters a node has run the node's program. Then it has failed with it, or
gone on behind the node. -/
theorem of_call_walk_entered {fuel : Nat} {r : Except WorkflowError Unit}
    (ha : e.arrival w = .entered n w') (h : call (fuel + 1) (.walk w) e = .returned r m) :
    ∃ r' m', exec (call fuel) (n.behaviour.execute n.node w') (e.entering n w') = .returned r' m' ∧
      (∀ err, r' = .error err → m' = m ∧ r = .error err) ∧
      ∀ vars next, r' = .ok ⟨vars, next⟩ →
        call fuel (.walk { w' with vars := vars, pending := next }) m' = .returned r m := by
  rw [call, ha] at h
  dsimp only at h
  rw [enter_eq] at h
  -- the node's program decides: its error is the walk's, and else the walk goes on behind it
  cases hexec : exec (call fuel) (n.behaviour.execute n.node w') (e.entering n w') with
  | panicked m' => rw [hexec] at h; cases h
  | diverged => rw [hexec] at h; cases h
  | returned r' m' =>
    rw [hexec] at h
    refine ⟨r', m', rfl, fun err herr => ?_, fun vars next hstep => ?_⟩
    · subst herr
      cases h
      exact ⟨rfl, rfl⟩
    · subst hstep
      exact h

/-- **A walk that is run is followed**, to its end or to where a task takes over. -/
theorem pursuit_of_call {fuel : Nat} {r : Except WorkflowError Unit} (he : Enacts sink w.graph e)
    (h : call fuel (.walk w) e = .returned r m) :
    ∃ vs rs s, Pursuit e (.walking w) vs rs m s ∧ Answers w.graph m s r ∧
      m.visits = e.visits ++ vs := by
  induction fuel generalizing w e with
  | zero => cases h
  | succ fuel ih =>
    match ha : e.arrival w with
    | .over =>
      rw [call, ha] at h
      cases h
      exact ⟨[], [], _, .single (.finished ha), .finished, (List.append_nil _).symm⟩
    | .stray id =>
      rw [call, ha] at h
      cases h
      refine ⟨[], [], _, .single (.stray ha), .stray id, ?_⟩
      rw [visits_log, List.append_nil]
    | .stopped limit id =>
      rw [call, ha] at h
      cases h
      refine ⟨[], [], _, .single (.stopped ha), .failed _, ?_⟩
      rw [visits_log, List.append_nil]
    | .entered n w' =>
      have hgraph : w'.graph = w.graph := graph_of_arrival ha
      obtain ⟨r', m', hexec, hfailed, honward⟩ := of_call_walk_entered ha h
      obtain ⟨-, hpassing, hpassed⟩ := he.passed ha hexec
      have hvisits : m'.visits = e.visits ++ [⟨e.now, n.id, w'⟩] := by
        rw [hpassing.visits, entering, visits_record]
        rfl
      generalize NodeInstance.passage _ _ _ = passage at hpassed
      cases hpassed with
      | failed err hs =>
        obtain ⟨rfl, rfl⟩ := hfailed err rfl
        exact ⟨_, _, _, .single (.failed ha hexec), .failed err, hvisits⟩
      | onward vars next hs =>
        obtain ⟨vs, rs, s, hpursuit, hanswers, hvs⟩ :=
          ih (w := { w' with vars := vars, pending := next }) (he.past ha hpassing :)
            (honward vars next rfl)
        have hpace := Pace.onward ha hexec (length_tasks_of_scheduler hs)
        refine ⟨_, _, s, .step hpace hpursuit, hgraph ▸ hanswers, ?_⟩
        rw [hvs, hvisits, List.append_assoc]
      | handed delay next hlen ht hcarries =>
        -- nothing is pending in this place
        obtain ⟨rfl, rfl⟩ := of_call_walk rfl (honward _ none rfl)
        exact ⟨_, _, _, .single (.handed ha hexec hlen), .waiting ht hgraph hcarries, hvisits⟩

/-- **A walk is never held up**, as long as its graph can be asked for: it enters the next node and
comes out of it. -/
theorem Enacts.returns (he : Enacts sink w.graph e) (ha : e.arrival w = .entered n w')
    (hreach : e.reaches w.graph = true) (fuel : Nat) :
    ∃ r m, exec (call fuel) (n.behaviour.execute n.node w') (e.entering n w') = .returned r m ∧
      m.reaches w.graph = true := by
  have hreach' : (e.entering n w').reaches w'.graph = true := graph_of_arrival ha ▸ hreach
  obtain ⟨r, m, hexec, hpassing, -⟩ : ∃ r m,
      exec (call fuel) (n.node.role.execute sink n.node w') (e.entering n w') = .returned r m ∧
        Passing _ m _ ∧ Passed w' _ m _ r :=
    (n.node.role.passes sink n.node).returns (fun _ => rfl) hreach'
  refine ⟨r, m, he.roles _ (mem_of_arrival ha) ▸ hexec, ?_⟩
  -- the program leaves the live graph where it is
  have hframe := hpassing.moves.frame
  rw [reaches, hframe.hooks, hframe.live]
  exact hreach

/-- **A walk that is run comes to its end, or enters as many nodes as there is fuel for.** -/
theorem Enacts.returns_or_pursuit (he : Enacts sink w.graph e)
    (hreach : e.reaches w.graph = true) (fuel : Nat) :
    (∃ r m, call fuel (.walk w) e = .returned r m) ∨
      ∃ vs rs m s, Pursuit e (.walking w) vs rs m s ∧ vs.length = fuel := by
  induction fuel generalizing w e with
  | zero => exact .inr ⟨[], [], e, _, .refl e _, rfl⟩
  | succ fuel ih =>
    match ha : e.arrival w with
    | .over => exact .inl ⟨_, _, by rw [call, ha]⟩
    | .stray id => exact .inl ⟨_, _, by rw [call, ha]⟩
    | .stopped limit id => exact .inl ⟨_, _, by rw [call, ha]⟩
    | .entered n w' =>
      have hgraph : w'.graph = w.graph := graph_of_arrival ha
      obtain ⟨r, m, hexec, hreach'⟩ := he.returns ha hreach fuel
      obtain ⟨-, hpassing, hpassed⟩ := he.passed ha hexec
      have henter : enter (exec (call fuel)) n w' e =
          .returned (r.map fun step => { w' with vars := step.vars, pending := step.next }) m := by
        rw [enter_eq, hexec]
        rfl
      rw [call, ha]
      dsimp only
      rw [henter]
      generalize NodeInstance.passage _ _ _ = passage at hpassed
      cases hpassed with
      | failed err _ => exact .inl ⟨_, m, rfl⟩
      | onward vars next hs =>
        refine (ih (w := { w' with vars := vars, pending := next }) (he.past ha hpassing :)
          (hgraph ▸ hreach')).imp_right ?_
        rintro ⟨vs, rs, m', s, hpursuit, hvs⟩
        have hpace := Pace.onward ha hexec (length_tasks_of_scheduler hs)
        refine ⟨_, _, m', s, .step hpace hpursuit, ?_⟩
        rw [List.length_append, hvs, Nat.add_comm]
        rfl
      | handed delay next hlen _ _ =>
        -- nothing is pending in this place
        cases fuel with
        | zero => exact .inr ⟨_, _, m, _, .single (.handed ha hexec hlen), rfl⟩
        | succ fuel => exact .inl ⟨_, m, rfl⟩

end Engine

end Flowgraph
