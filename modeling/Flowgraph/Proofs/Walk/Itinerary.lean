import Flowgraph.Proofs.Walk.Detour
import Flowgraph.Proofs.Walk.Tracking

/-!
# A wait only delays

A walk that goes through a graph to its end makes a certain course, and whoever sends a walk with
the same variables and the same draws along that course sees it make the same stops: none is left
out or put in, and once the clock has come far enough all of them have been made. With that, what a
wait on a link does to a walk can be told from the stored graphs alone.

* `Keeps` — a walk keeps to an itinerary.
* `keeps_of_course` — as does every walk that starts on a course of its graph.
* `splice_delays` — a wait that is put on a link only delays the walks of the graph.
-/

namespace Flowgraph

namespace Engine

variable {sink sink' : Builtin.Sink} {c : Context} {g g' : GraphId} {e e' m : Engine} {w w' : Walk}
  {s : Stand} {vs : List Visit} {rs rs' : List Roll} {ss : List Stop} {time : Nat} {how : Ending}

/-! ### Itineraries -/

/-- **A walk keeps to an itinerary**: it is to make some stops in a time and to end in a way,
provided that its draws give what they are to give. -/
structure Keeps (g : GraphId) (e : Engine) (w : Walk) (rs : List Roll) (ss : List Stop) (time : Nat)
    (how : Ending) : Prop where
  /-- What the walk has entered at any point is the beginning of the itinerary. -/
  begins : ∀ {vs : List Visit} {rs' : List Roll} {m : Engine} {s : Stand},
    Pursuit e (.walking w) vs rs' m s → Agree rs rs' → vs.map (Visit.since e.now) <+: ss
  /-- If it has ended it has made all stops, in that time, and ended in that way. -/
  ends : ∀ {vs : List Visit} {rs' : List Roll} {m : Engine} {how' : Ending},
    Pursuit e (.walking w) vs rs' m (.ended how') → Agree rs rs' →
    vs.map (Visit.since e.now) = ss ∧ m.now = e.now + time ∧ how' = how
  /-- The walk can be run, or it draws something else. -/
  returns : ∀ {fuel : Nat}, e.reaches g = true → ss.length < fuel →
    (∃ r m, call fuel (.walk w) e = .returned r m) ∨
      ∃ vs rs' m s, Pursuit e (.walking w) vs rs' m s ∧ ¬ Agree rs rs'
  /-- When it was run, the clock has come to the end of that time, and all is done that is due, then
  the walk has ended. To take its graph down cancels the tasks that wait with it. -/
  completes : ∀ {fuel : Nat} {r : Except WorkflowError Unit} {m x : Engine},
    call fuel (.walk w) e = .returned r m → Elapses m x →
    (∀ id t, x.scheduler.task? id = some t → t.owner = some g → t.cancelled = false) →
    e.now + time ≤ x.now → x.scheduler.next? x.now = none →
    ∃ vs rs' m' s, Pursuit e (.walking w) vs rs' m' s ∧ Elapses m' x ∧
      (Agree rs rs' → s = .ended how)

theorem Position.start (hg : w.graph = g) :
    Position g e.now e (.walking w) (.standing 0 w.vars w.pending) := .walking hg rfl

section Starting

variable (hb : Bears sink c g e) (hg : w.graph = g)
  (hc : Course c (.standing 0 w.vars w.pending) ss rs (.ended time how))
include hb hg hc

/-- Wherever a walk is followed to, it has come there along the course that it started on, and goes
on along what is left of it. -/
theorem Pursuit.along (h : Pursuit e (.walking w) vs rs' m s) (hagree : Agree rs rs') :
    ∃ p ss₁ rs₁, Position g e.now m s p ∧ ss = vs.map (Visit.since e.now) ++ ss₁ ∧
      Course c p ss₁ rs₁ (.ended time how) := by
  obtain ⟨p, hp, hcourse⟩ := h.course hb (.start hg)
  obtain ⟨ss₁, rs₁, hss, hgo⟩ := hc.ahead hcourse hagree
  exact ⟨p, ss₁, rs₁, hp, hss, hgo⟩

/-- Where a walk has ended, nothing is left of its course. -/
theorem Pursuit.along_ended {how' : Ending} (h : Pursuit e (.walking w) vs rs' m (.ended how'))
    (hagree : Agree rs rs') :
    vs.map (Visit.since e.now) = ss ∧ m.now = e.now + time ∧ how' = how := by
  obtain ⟨p, ss₁, rs₁, hp, rfl, hgo⟩ := h.along hb hg hc hagree
  cases hp with
  | ended hnow =>
    obtain ⟨rfl, -, hend⟩ := hgo.of_ended
    cases hend
    exact ⟨(List.append_nil _).symm, hnow, rfl⟩

/-- A task that a walk waits with is due before its course has ended. -/
theorem Pursuit.due_le {task : TaskId} {t : Task (Nat → Program)} {next : String} {due : Nat}
    (h : Pursuit e (.walking w) vs rs' m (.waiting task)) (hagree : Agree rs rs')
    (ht : m.scheduler.task? task = some t) (hcontinues : Continues t w' next due) :
    due ≤ e.now + time := by
  obtain ⟨p, ss₁, rs₁, hp, -, hgo⟩ := h.along hb hg hc hagree
  cases hp with
  | @waiting _ t' w₁ next' time' ht' hg' hcontinues' =>
    rw [ht] at ht'
    cases ht'
    rw [hcontinues.due_unique hcontinues']
    exact Nat.add_le_add_left hgo.time_le _

/-- **A walk keeps to the course that it starts on.** -/
theorem keeps_of_course : Keeps g e w rs ss time how := by
  have henacts : Enacts sink w.graph e := hg ▸ hb.embodies.enacts
  have hbegins : ∀ {vs : List Visit} {rs' : List Roll} {m : Engine} {s : Stand},
      Pursuit e (.walking w) vs rs' m s → Agree rs rs' → vs.map (Visit.since e.now) <+: ss := by
    intro vs rs' m s hpursuit hagree
    obtain ⟨-, ss₁, -, -, rfl, -⟩ := hpursuit.along hb hg hc hagree
    exact List.prefix_append ..
  refine ⟨hbegins, fun hpursuit => hpursuit.along_ended hb hg hc, ?_, ?_⟩
  · intro fuel hreach hfuel
    refine (henacts.returns_or_pursuit (hg ▸ hreach) fuel).imp_right ?_
    rintro ⟨vs, rs', m, s, hpursuit, hlen⟩
    refine ⟨vs, rs', m, s, hpursuit, fun hagree => ?_⟩
    -- the itinerary has no room for as many nodes
    have hle := (hbegins hpursuit hagree).length_le
    rw [List.length_map, hlen] at hle
    exact absurd hle (Nat.not_le.mpr hfuel)
  · intro fuel r m x hcall hx hkept htime hnext
    have htracked : Tracked g e (.walking w) x :=
      (hg ▸ tracked_of_call henacts hcall : Tracked g e (.walking w) m).elapses
        ((hb.embodies.extends ((call_evolves fuel _ e).returned hcall).extends).enacts) hx
    rcases htracked.settled hkept hnext with ⟨vs, rs', m', how', hpursuit, hm'⟩ |
      ⟨vs, rs', task, t, w', next, due, hpursuit, ht, -, hcontinues, hdue⟩
    · refine ⟨vs, rs', m', _, hpursuit, hm', fun hagree => ?_⟩
      rw [(hpursuit.along_ended hb hg hc hagree).2.2]
    · refine ⟨vs, rs', x, _, hpursuit, .refl, fun hagree => ?_⟩
      -- the task would be due after the end of the itinerary
      have hle := hpursuit.due_le hb hg hc hagree ht hcontinues
      omega

end Starting

/-! ### Waits on links -/

theorem Hosted.punctual (h : Hosted sink e) : e.scheduler.Punctual := by
  induction h with
  | created h hs _ =>
    obtain ⟨-, -, -, hscheduler⟩ := of_create h
    intro id t due ht
    have hmem := Scheduler.mem_of_task? ht
    rw [hscheduler, hs] at hmem
    cases hmem
  | step _ h _ ih => exact h.beats.punctual ih

/-- A host has loaded a stored graph, over the built-in node types and with no guard on hops, and
the run has gone on from there. -/
inductive Housed (sink : Builtin.Sink) (c : Context) : GraphId → Engine → Prop
  | mk {e m x : Engine} {fuel : Nat} (he : Hosted sink e) (hr : e.registry.Registered)
      (hmax : e.config.maxHops = none) (hload : call fuel (.load c) e = .returned (.ok ()) m)
      (hx : Elapses m x) : Housed sink c m.live x

theorem Housed.bears (h : Housed sink c g e) : Bears sink c g e := by
  cases h with
  | @mk e m x fuel he hr hmax hload hx =>
    have hdeeds : Deeds e m := (call_deeds fuel (.load c) e).returned hload
    have hm : Bears sink c m.live m := ⟨embodies_of_load he hr hload,
      hdeeds.evolves.extends.config ▸ hmax, hdeeds.beats.punctual he.punctual⟩
    exact hm.elapses hx

/-- **A wait on a link only delays.** Let a graph over the built-in node types be loaded, and
anywhere the same graph with a wait of a constant delay put on one of its links. If a walk through
the first comes to its end, then a walk through the second that starts at the same node with the
same variables — or at the wait, if that is now behind the trigger — makes the same stops with the
same variables, and the stops at the wait hold up what follows by its delay. -/
theorem splice_delays {l : Link} {wait text : String} {delay : Duration} (hl : l ∈ c.links)
    (hname : wait ≠ "") (hnew : wait ∉ c.ids) (hunsought : ∀ l' ∈ c.links, l'.target ≠ wait)
    (hdelay : ConstantDelay text delay) (he : Housed sink c g e)
    (he' : Housed sink' (c.splice l wait text) g' e') (hg : w.graph = g) (hg' : w'.graph = g')
    (hvars : w'.vars = w.vars) (hstart : w.pending ≠ some wait)
    (hpending : w'.pending = w.pending ∨ w.pending = some l.target ∧ w'.pending = some wait)
    (hwalk : Pursuit e (.walking w) vs rs m (.ended how)) :
    ∃ ss late, Delayed wait delay.ceilMillis 0 (vs.map (Visit.since e.now)) ss late ∧
      Keeps g' e' w' rs ss (m.now - e.now + late) how := by
  have hd := he.bears.embodies.detour hl hname hnew hunsought hdelay
  obtain ⟨p, hp, hcourse⟩ := hwalk.course he.bears (.start hg)
  cases hp with
  | @ended _ time hnow =>
    rw [hnow, Nat.add_sub_cancel_left]
    rcases hpending with hsame | ⟨htarget, hwait⟩
    · obtain ⟨ss, late, hcourse', hdelayed⟩ := hd.delayed_of_course hcourse hstart 0
      refine ⟨ss, late, hdelayed, keeps_of_course he'.bears hg' ?_⟩
      rw [hvars, hsame]
      exact hcourse'
    · -- the first stop is at the wait
      obtain ⟨ss, late, hcourse', hdelayed⟩ :=
        hd.delayed_of_course hcourse hstart (0 + delay.ceilMillis)
      refine ⟨⟨0, wait, w.vars⟩ :: ss, late, .wait hdelayed, keeps_of_course he'.bears hg' ?_⟩
      rw [hvars, hwait]
      rw [htarget, Post.later, Nat.zero_add] at hcourse'
      exact .step (hd.crossing 0 w.vars) hcourse'

/-- A message with another behind it. -/
def duet : Context :=
  (Context.mk [])
    |>.addNode "first" Builtin.Chat.metadata.name
    |>.connect "Next" (some "second")
    |>.addNode "second" Builtin.Chat.metadata.name

/-- A pause of two seconds between the messages. -/
theorem splice_delays_duet : ∃ e e' m vs rs how ss late,
    Housed .toLog duet e.live e ∧
    Housed .toLog (duet.splice ⟨"first", "Next", "second"⟩ "pause" "2") e'.live e' ∧
    Pursuit e (.walking { graph := e.live, pending := some "first" }) vs rs m (.ended how) ∧
    vs.map (·.node) = ["first", "second"] ∧
    Delayed "pause" 2000 0 (vs.map (Visit.since e.now)) ss late ∧
    Keeps e'.live e' { graph := e'.live, pending := some "first" } rs ss (m.now - e.now + late)
      how := by
  let idle : Engine := equipped { maxHops := none } .toLog
  let paused : Context := duet.splice ⟨"first", "Next", "second"⟩ "pause" "2"
  have hrun : (done? (call 1 (.load duet) idle)).map (fun e => (e.visits.length,
      (done? (call 4 (.walk { graph := e.live, pending := some "first" }) e)).map fun m =>
        (m.visits.map (·.node), m.scheduler.tasks.length))) =
          some (0, some (["first", "second"], 0)) := by decide +kernel
  obtain ⟨e, hload, hparts⟩ := exists_done hrun
  obtain ⟨hnone, hwalk⟩ := Prod.mk.inj hparts
  obtain ⟨m, hcall, hparts⟩ := exists_done hwalk
  obtain ⟨hnodes, htasks⟩ := Prod.mk.inj hparts
  have hosted := hosted_equipped { maxHops := none } .toLog
  have hregistered := registered_builtins .toLog
  have hl : ⟨"first", "Next", "second"⟩ ∈ duet.links := by decide +kernel
  have hdelay : ConstantDelay "2" (.ofMillis 2000) := constantDelay_of_spelled (by decide +kernel)
  have hwell := ((wires_of_registered hregistered duet).loaded 1 idle e hosted.served.1.reachable
    rfl
    hload).1
  obtain ⟨e', hload'⟩ := hosted.loads (c := paused) hregistered rfl
    (hwell.splice hl (by decide) hdelay rfl) (by decide +kernel) 0
  have he : Housed .toLog duet e.live e := .mk hosted hregistered rfl hload .refl
  have he' : Housed .toLog paused e'.live e' := .mk hosted hregistered rfl hload' .refl
  obtain ⟨vs, rs, s, hpursuit, hanswers, hvisits⟩ :=
    pursuit_of_call (w := { graph := e.live, pending := some "first" })
      he.bears.embodies.enacts hcall
  have hvs : vs.map (·.node) = ["first", "second"] := by
    rw [hvisits, List.length_eq_zero_iff.mp hnone] at hnodes
    exact hnodes
  have hend : ∃ how, s = .ended how := by
    cases hanswers with
    | finished => exact ⟨_, rfl⟩
    | stray id => exact ⟨_, rfl⟩
    | waiting ht =>
      -- no task was made
      have hmem := Scheduler.mem_of_task? ht
      rw [List.length_eq_zero_iff.mp htasks] at hmem
      cases hmem
  obtain ⟨how, rfl⟩ := hend
  have hdelays : ∃ ss late, Delayed "pause" 2000 0 (vs.map (Visit.since e.now)) ss late ∧
      Keeps e'.live e' { graph := e'.live, pending := some "first" } rs ss (m.now - e.now + late)
        how :=
    splice_delays (w := { graph := e.live, pending := some "first" }) hl (by decide) (by decide)
      (by decide +kernel) hdelay he he' rfl rfl rfl (by simp) (.inl rfl) hpursuit
  obtain ⟨ss, late, hdelayed, hkeeps⟩ := hdelays
  exact ⟨e, e', m, vs, rs, how, ss, late, he, he', hpursuit, hvs, hdelayed, hkeeps⟩

end Engine

end Flowgraph
