import Flowgraph.Proofs.Walk.Embodied

/-!
# The course of a walk

What a walk through a graph over the built-in node types does can be read off the stored graph,
without an engine: the nodes that it enters, when, and with which variables. A draw may come out one
way or another; all else is settled. Times are counted from the start of the walk.

* `Leg`, `Course` — one step of a walk, and any number of them, as the stored graph has them.
* `Course.joined` — two courses with the same draws keep together for as long as both go.
* `Pursuit.course` — a walk in an engine follows a course of the stored graph, if no guard stops it
  and no task is overdue.
-/

namespace Flowgraph

/-! ### Nodes of stored graphs -/

namespace Builtin

/-- The description of a built-in node type. -/
def metadataNamed? (name : String) : Option NodeMetadata :=
  ((nodeTypes .toLog).find? (·.metadata.name = name)).map (·.metadata)

theorem metadataNamed?_eq {sink : Sink} {t : NodeType Behaviour} (ht : t ∈ nodeTypes sink) :
    metadataNamed? t.metadata.name = some t.metadata := by
  have hall : ∀ t ∈ nodeTypes sink, metadataNamed? t.metadata.name = some t.metadata := by
    simp only [nodeTypes, List.forall_mem_cons]
    exact ⟨rfl, rfl, rfl, rfl, rfl, rfl, List.forall_mem_nil _⟩
  exact hall t ht

end Builtin

/-- The node that an entry becomes, in a graph over the built-in types. -/
def NodeEntry.instance? (entry : NodeEntry) : Option NodeInstance :=
  (Builtin.metadataNamed? entry.name).map fun m => m.overlay entry.id entry.state

/-- The node of a name that a stored graph has when it is loaded. -/
def Context.member? (c : Context) (id : String) : Option NodeInstance :=
  (c.findNode id).bind NodeEntry.instance?

variable {sink : Builtin.Sink} {c : Context}

theorem NodeEntry.Becomes.instance? {registry : Registry Behaviour}
    (hbuiltin : registry.IsBuiltin sink) (hr : registry.Registered) {entry : NodeEntry}
    {n : LiveNode} (h : entry.Becomes registry n) : entry.instance? = some n.node := by
  obtain ⟨t, b, ht, -, rfl⟩ := h
  rw [NodeEntry.instance?, ← (hr.of_get? ht).1, Builtin.metadataNamed?_eq (hbuiltin _ t ht)]
  rfl

namespace Engine

/-- **The nodes of a loaded graph are those of the stored one.** -/
theorem Embodies.member? {g : GraphId} {e : Engine} (h : Embodies sink c g e) (id : String) :
    c.member? id = ((e.graph g).node? id).map (·.node) := by
  obtain ⟨registry, hbuiltin, hr, hwire⟩ := h.wired
  obtain ⟨-, -, hall⟩ := wellFormed_of_wire hr hwire
  unfold Context.member? Context.findNode Graph.node?
  generalize c.nodes = entries, (e.graph g).nodes = nodes at hall
  -- entries and nodes stand side by side under the same names
  induction hall with
  | nil => rfl
  | @cons entry n entries nodes hbecomes _ ih =>
    have hid : n.id = entry.id := by
      obtain ⟨t, b, -, -, rfl⟩ := hbecomes
      rfl
    have hsame : decide (n.id = id) = decide (entry.id = id) := by rw [hid]
    rw [List.find?_cons, List.find?_cons, hsame]
    cases decide (entry.id = id) with
    | true => exact hbecomes.instance? hbuiltin hr
    | false => exact ih

end Engine

/-! ### Courses -/

/-- A walk enters a node, at a time and with variables. -/
structure Stop where
  time : Nat
  node : String
  vars : Variables

/-- How far a walk has come. -/
inductive Post where
  /-- The walk is to enter the next node at a time. -/
  | standing (time : Nat) (vars : Variables) (next : Option String)
  | ended (time : Nat) (how : Ending)

namespace Post

/-- The time at which a walk stands there. -/
def time : Post → Nat
  | .standing time _ _ => time
  | .ended time _ => time

/-- Where a walk stands behind a node. -/
def behind (time : Nat) (vars : Variables) : Passage → Post
  | .onward vars next => .standing time vars next
  | .handed delay next => .standing (time + delay.ceilMillis) vars (some next)
  | .failed err => .ended time (.failed err)

end Post

/-- One step of a walk through a stored graph, with the nodes that are entered and the draws that
are made in it. -/
inductive Leg (c : Context) : Post → List Stop → List Roll → Post → Prop
  | finished (time : Nat) (vars : Variables) :
      Leg c (.standing time vars none) [] [] (.ended time .finished)
  | stray (time : Nat) (vars : Variables) {id : String} (h : c.member? id = none) :
      Leg c (.standing time vars (some id)) [] [] (.ended time (.stray id))
  | entered (time : Nat) (vars : Variables) (roll : Roll) {id : String} {n : NodeInstance}
      (h : c.member? id = some n) :
      Leg c (.standing time vars (some id)) [⟨time, id, vars⟩]
        (if n.draws vars then [roll] else []) (Post.behind time vars (n.passage vars roll))

/-- Any number of steps. -/
inductive Course (c : Context) : Post → List Stop → List Roll → Post → Prop
  | refl (p : Post) : Course c p [] [] p
  | step {p p' p'' : Post} {ss ss' : List Stop} {rs rs' : List Roll} (h : Leg c p ss rs p')
      (rest : Course c p' ss' rs' p'') : Course c p (ss ++ ss') (rs ++ rs') p''

/-- Of two lists of draws one goes on where the other stops. -/
def Agree (rs rs' : List Roll) : Prop := rs <+: rs' ∨ rs' <+: rs

variable {p p' p'' q q' : Post} {ss ss' : List Stop} {rs rs' : List Roll}

theorem Agree.of_append {rs₁ rs₂ : List Roll} (h : Agree (rs ++ rs₁) (rs ++ rs₂)) : Agree rs₁ rs₂ :=
  h.imp (List.prefix_append_right_inj rs).mp (List.prefix_append_right_inj rs).mp

theorem Course.single (h : Leg c p ss rs q) : Course c p ss rs q := by
  have hone := Course.step h (.refl q)
  rwa [List.append_nil, List.append_nil] at hone

theorem Course.trans (h : Course c p ss rs p') (h' : Course c p' ss' rs' p'') :
    Course c p (ss ++ ss') (rs ++ rs') p'' := by
  induction h with
  | refl => exact h'
  | step h _ ih =>
    rw [List.append_assoc, List.append_assoc]
    exact .step h (ih h')

theorem not_leg_ended {time : Nat} {how : Ending} : ¬ Leg c (.ended time how) ss rs q := nofun

/-- Where a walk has ended nothing more happens. -/
theorem Course.of_ended {time : Nat} {how : Ending} (h : Course c (.ended time how) ss rs q) :
    ss = [] ∧ rs = [] ∧ q = .ended time how := by
  cases h with
  | refl => exact ⟨rfl, rfl, rfl⟩
  | step h _ => exact absurd h not_leg_ended

theorem Post.time_le_behind (time : Nat) (vars : Variables) (passage : Passage) :
    time ≤ (Post.behind time vars passage).time := by
  cases passage with
  | onward vars next => exact Nat.le_refl _
  | handed delay next =>
    rw [behind, Post.time]
    exact Nat.le_add_right time _
  | failed err => exact Nat.le_refl _

theorem Leg.time_le (h : Leg c p ss rs q) : p.time ≤ q.time := by
  cases h with
  | finished time vars => exact Nat.le_refl _
  | stray time vars h => exact Nat.le_refl _
  | entered time vars roll h => exact Post.time_le_behind ..

theorem Course.time_le (h : Course c p ss rs q) : p.time ≤ q.time := by
  induction h with
  | refl => exact Nat.le_refl _
  | step h _ ih => exact Nat.le_trans h.time_le ih

/-- What is drawn makes a difference only where something is drawn. -/
theorem NodeInstance.passage_congr {n : NodeInstance} {vars : Variables} {roll roll' : Roll}
    (h : n.draws vars = true → roll = roll') : n.passage vars roll = n.passage vars roll' := by
  cases hd : n.draws vars with
  | true => rw [h hd]
  | false =>
    exact congrArg (Builtin.Effect.passage vars n.next)
      (Builtin.Role.effect_of_not_draws hd roll roll')

/-- **A step is settled but for its draw.** -/
theorem Leg.joined (h : Leg c p ss rs q) (h' : Leg c p ss' rs' q') {rs₁ rs₂ : List Roll}
    (hagree : Agree (rs ++ rs₁) (rs' ++ rs₂)) : ss = ss' ∧ rs = rs' ∧ q = q' := by
  cases h with
  | finished time vars =>
    cases h' with
    | finished => exact ⟨rfl, rfl, rfl⟩
  | stray time vars h =>
    cases h' with
    | stray => exact ⟨rfl, rfl, rfl⟩
    | entered _ _ _ hn =>
      rw [h] at hn
      cases hn
  | @entered time vars roll id n h =>
    cases h' with
    | stray _ _ hn =>
      rw [h] at hn
      cases hn
    | @entered _ _ roll' _ n' hn =>
      rw [h] at hn
      cases hn
      -- where the node draws, both walks have drawn the same
      have hroll : n.draws vars = true → roll = roll' := fun hd => by
        rw [hd] at hagree
        rcases hagree with hpre | hpre
        · exact (List.cons_prefix_cons.mp hpre).1
        · exact (List.cons_prefix_cons.mp hpre).1.symm
      refine ⟨rfl, ?_, congrArg (Post.behind time vars) (NodeInstance.passage_congr hroll)⟩
      cases hd : n.draws vars with
      | true => exact congrArg (fun r => [r]) (hroll hd)
      | false => rfl

/-- **Two courses with the same draws keep together**: one of them goes on where the other stops. -/
theorem Course.joined (h : Course c p ss rs q) (h' : Course c p ss' rs' q')
    (hagree : Agree rs rs') :
    (∃ ss₁ rs₁, ss' = ss ++ ss₁ ∧ Course c q ss₁ rs₁ q') ∨
      ∃ ss₁ rs₁, ss = ss' ++ ss₁ ∧ Course c q' ss₁ rs₁ q := by
  induction h generalizing ss' rs' with
  | refl p => exact .inl ⟨ss', rs', rfl, h'⟩
  | @step p p₁ q ss₁ ss₂ rs₁ rs₂ hleg hrest ih =>
    cases h' with
    | refl => exact .inr ⟨ss₁ ++ ss₂, rs₁ ++ rs₂, rfl, .step hleg hrest⟩
    | @step _ p₁' _ _ _ _ _ hleg' hrest' =>
      -- the two agree on what is rolled, so they take the same leg
      obtain ⟨rfl, rfl, rfl⟩ := hleg.joined hleg' hagree
      refine (ih hrest' hagree.of_append).imp ?_ ?_
      · rintro ⟨ss₃, rs₃, rfl, hgo⟩
        exact ⟨ss₃, rs₃, (List.append_assoc ..).symm, hgo⟩
      · rintro ⟨ss₃, rs₃, rfl, hgo⟩
        exact ⟨ss₃, rs₃, (List.append_assoc ..).symm, hgo⟩

/-- A course with the same draws does not lead beyond the end of another. -/
theorem Course.ahead {time : Nat} {how : Ending} (h : Course c p ss rs (.ended time how))
    (h' : Course c p ss' rs' q') (hagree : Agree rs rs') :
    ∃ ss₁ rs₁, ss = ss' ++ ss₁ ∧ Course c q' ss₁ rs₁ (.ended time how) := by
  rcases h.joined h' hagree with ⟨ss₁, rs₁, rfl, hgo⟩ | hgo
  · obtain ⟨rfl, rfl, rfl⟩ := hgo.of_ended
    exact ⟨[], [], by rw [List.append_nil, List.append_nil], .refl _⟩
  · exact hgo

/-! ### Walks in engines -/

/-- A visit as a stop of a walk that started at a time. -/
def Visit.since (start : Nat) (v : Visit) : Stop := ⟨v.time - start, v.node, v.walk.vars⟩

namespace Engine

variable {e e' m : Engine} {g : GraphId} {s s' : Stand} {vs : List Visit} {start time : Nat}
  {w : Walk}

/-- A stored graph is there, loaded over the built-in node types; no guard stops its walks, and no
task is overdue. -/
structure Bears (sink : Builtin.Sink) (c : Context) (g : GraphId) (e : Engine) : Prop where
  embodies : Embodies sink c g e
  unguarded : e.config.maxHops = none
  punctual : e.scheduler.Punctual

theorem Bears.evolves (h : Bears sink c g e) (hs : Evolves e e') (hp : e'.scheduler.Punctual) :
    Bears sink c g e' where
  embodies := h.embodies.extends hs.extends
  unguarded := by
    rw [hs.extends.config]
    exact h.unguarded
  punctual := hp

theorem Bears.elapses (h : Bears sink c g e) (hs : Elapses e e') : Bears sink c g e' :=
  h.evolves hs.evolves (hs.beats.punctual h.punctual)

theorem Pace.bears (h : Pace e s vs rs m s') (hb : Bears sink c g e) : Bears sink c g m :=
  hb.evolves h.evolves (h.beats.punctual hb.punctual)

/-- How far a walk has come that started at a time. -/
inductive Position (g : GraphId) (start : Nat) (e : Engine) : Stand → Post → Prop
  | walking {w : Walk} {time : Nat} (hg : w.graph = g) (hnow : e.now = start + time) :
      Position g start e (.walking w) (.standing time w.vars w.pending)
  | waiting {task : TaskId} {t : Task (Nat → Program)} {w : Walk} {next : String} {time : Nat}
      (ht : e.scheduler.task? task = some t) (hg : w.graph = g)
      (hcontinues : Continues t w next (start + time)) :
      Position g start e (.waiting task) (.standing time w.vars (some next))
  | ended {how : Ending} {time : Nat} (hnow : e.now = start + time) :
      Position g start e (.ended how) (.ended time how)

theorem Left.position {passage : Passage} (h : Left w e m passage s)
    (hnow : e.now = start + time) :
    Position w.graph start m s (Post.behind time w.vars passage) := by
  have hkept : m.scheduler = e.scheduler → m.now = start + time := fun hs =>
    (congrArg Scheduler.now hs).trans hnow
  cases h with
  | onward vars next hs =>
    exact .walking (w := { w with vars := vars, pending := next }) rfl (hkept hs)
  | handed delay next ht hcarries =>
    refine .waiting ht rfl ?_
    rw [hnow, Nat.add_assoc] at hcarries
    exact hcarries.toContinues
  | failed err hs => exact .ended (hkept hs)

/-- No guard stops a walk where none is set. -/
theorem Bears.not_stopped (h : Bears sink c g e) {limit : Nat} {id : String} :
    e.arrival w ≠ .stopped limit id := by
  -- there is no limit to be passed
  have hnone : ∀ hops, e.exceeded? hops = none := fun hops => by
    rw [exceeded?, h.unguarded]
    rfl
  unfold arrival
  split
  · nofun
  · split
    · nofun
    · dsimp only
      rw [hnone]
      nofun

/-- A task that runs once is to run at one time only. -/
theorem Continues.due_eq {t : Task (Nat → Program)} {next : String} {due due' : Nat}
    (h : Continues t w next due) (hdue : t.due? = some due') : due' = due ∧ t.runs = 0 := by
  obtain ⟨delay, htiming, hcreated⟩ := h.once
  have hrun := (Task.due?_eq_some hdue).2.2.2
  rw [htiming] at hrun
  cases hruns : t.runs with
  | zero =>
    rw [hruns] at hrun
    exact ⟨(Option.some.inj hrun).symm.trans hcreated, rfl⟩
  | succ n =>
    rw [hruns] at hrun
    cases hrun

theorem Continues.due_unique {t : Task (Nat → Program)} {w' : Walk} {next next' : String}
    {due due' : Nat} (h : Continues t w next due) (h' : Continues t w' next' due') :
    due = due' := by
  obtain ⟨delay, htiming, rfl⟩ := h.once
  obtain ⟨delay', htiming', rfl⟩ := h'.once
  rw [htiming] at htiming'
  cases htiming'
  rfl

theorem Continues.proceeds {t t' : Task (Nat → Program)} {next : String} {due : Nat}
    (h : Continues t w next due) (hp : t.Proceeds t') : Continues t' w next due where
  body := hp.body.trans h.body
  owner := hp.owner.trans h.owner
  once := by
    rw [hp.timing, hp.created]
    exact h.once

/-- When no task is overdue, a task takes a walk up just when it is due. -/
theorem Continues.resumed {t : Task (Nat → Program)} {next : String} {task : TaskId}
    {limit due due' : Nat} (h : Continues t w next due) (hp : e.scheduler.Punctual)
    (ht : e.scheduler.task? task = some t) (hnext : e.scheduler.next? limit = some (task, due')) :
    due' = due ∧ t.runs = 0 ∧ (e.startTask task due').now = due := by
  obtain ⟨⟨t', ht', hdue⟩, -, -⟩ := Scheduler.due_of_next? hnext
  rw [ht] at ht'
  cases ht'
  obtain ⟨rfl, hruns⟩ := h.due_eq hdue
  exact ⟨rfl, hruns, Nat.max_eq_right (hp.le_due ht hdue)⟩

/-- **A step of a walk in an engine is one of the stored graph**, or the walk waits. -/
theorem Pace.leg (h : Pace e s vs rs m s') (hb : Bears sink c g e) (hp : Position g start e s p) :
    ∃ p', Position g start m s' p' ∧
      ((vs = [] ∧ rs = [] ∧ p' = p) ∨ Leg c p (vs.map (Visit.since start)) rs p') := by
  cases hp with
  | @walking w time hg hnow =>
    subst hg
    -- what the walk arrives at can be read off the stored graph
    cases h.paced hb.embodies.enacts with
    | finished ha =>
      rw [over_of_arrival ha]
      exact ⟨_, .ended hnow, .inr (.finished time w.vars)⟩
    | stray ha =>
      obtain ⟨hpending, hnode⟩ := stray_of_arrival ha
      rw [hpending]
      refine ⟨_, .ended hnow, .inr (.stray time w.vars ?_)⟩
      rw [hb.embodies.member?, hnode]
      rfl
    | stopped ha => exact absurd ha hb.not_stopped
    | @entered n w' _ _ ha hpassing hleft =>
      obtain ⟨⟨id, hpending, hn⟩, -, rfl⟩ := entered_of_arrival ha
      have hid := Graph.id_of_node? hn
      have hmember : c.member? id = some n.node := by
        rw [hb.embodies.member?, hn]
        rfl
      refine ⟨_, hleft.position hnow, .inr ?_⟩
      have hleg := Leg.entered time w.vars (e.dice e.drawn) hmember
      have hstop : Visit.since start ⟨e.now, n.id, { w with hops := w.hops + 1, pending := none }⟩ =
          ⟨time, id, w.vars⟩ := by
        rw [Visit.since, hnow, Nat.add_sub_cancel_left, hid]
      have hrolls : e.rollsOf (n.node.draws w.vars) =
          if n.node.draws w.vars then [e.dice e.drawn] else [] := by
        cases n.node.draws w.vars <;> rfl
      rw [hpending, List.map_singleton, hstop]
      exact hrolls ▸ hleg
  | @waiting task t w next time ht hg hcontinues =>
    -- while a walk waits, time passes or its task takes it up again
    cases h with
    | later h =>
      obtain ⟨t', ht', hproceeds⟩ := h.evolves.proceeds task t ht
      exact ⟨_, .waiting ht' hg (hcontinues.proceeds hproceeds), .inl ⟨rfl, rfl, rfl⟩⟩
    | resumed _ hnext ht' hbody' =>
      rw [ht] at ht'
      cases ht'
      have hwalk := Program.walkOn_inj ((congrFun hcontinues.body _).symm.trans hbody')
      obtain ⟨-, -, hnow⟩ := hcontinues.resumed hb.punctual ht hnext
      rw [← hwalk]
      exact ⟨_, .walking hg hnow, .inl ⟨rfl, rfl, rfl⟩⟩
  | ended hnow => cases h

/-- **A walk follows a course of the stored graph**, wherever it is started and whatever else goes
on in the engine. -/
theorem Pursuit.course (h : Pursuit e s vs rs e' s') (hb : Bears sink c g e)
    (hp : Position g start e s p) :
    ∃ p', Position g start e' s' p' ∧ Course c p (vs.map (Visit.since start)) rs p' := by
  induction h generalizing p with
  | refl => exact ⟨p, hp, .refl p⟩
  | step hpace _ ih =>
    obtain ⟨p₁, hp₁, hleg⟩ := hpace.leg hb hp
    obtain ⟨p₂, hp₂, hcourse⟩ := ih (hpace.bears hb) hp₁
    refine ⟨p₂, hp₂, ?_⟩
    rw [List.map_append]
    -- a step that is not seen in the course leaves the position alone
    rcases hleg with ⟨rfl, rfl, rfl⟩ | hleg
    · exact hcourse
    · exact .step hleg hcourse

end Engine

end Flowgraph
