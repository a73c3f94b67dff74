import Flowgraph.Builtin.Types
import Flowgraph.Proofs.Run.Twins

/-!
# The built-in node types are uniform

The nodes of the built-in types keep to their own graph, and it makes no difference to them which
number it has. A trigger gives its graph a listener or a task when it is initialised, and takes the
listener away when it is unloaded; the other types do nothing then.

* `Builtin.uniform` — every built-in node type is uniform.
-/

namespace Flowgraph

open Program (Twins)

variable {g g' : GraphId}

/-- Leaving a node through its first output. -/
theorem Program.Twins.leave {phase : Phase} (n : NodeInstance) (vars : Variables) :
    Twins g g' phase (.attempt n.next fun next => .finish vars next)
      (.attempt n.next fun next => .finish vars next) :=
  .attempt n.next fun next => .finish vars next

/-- A behaviour that does nothing but when a walk enters its node. -/
theorem Behaviour.uniform_of_execute {execute : NodeInstance → Walk → Program}
    (h : ∀ n (w : Walk) g g',
      Twins g g' .live (execute n (w.through g)) (execute n (w.through g'))) :
    ({ execute := execute } : Behaviour).Uniform where
  init _ _ _ _ := .done
  unload _ _ _ := .done
  execute := h

namespace Builtin

namespace EventListener

/-- The listener of such a node starts the same walk in either graph. -/
theorem reaction_twins (phase : Bool) (p : Producer) (next : String) (event : Event)
    (before : Bool) :
    Twins g g' .live (reaction g phase p next event before)
      (reaction g' phase p next event before) := by
  rw [reaction, reaction]
  -- both wait for the phase that the node is set to
  split
  · exact .startWalk next _
  · exact .done

theorem init_twins (n : NodeInstance) {s s' : Setting} (h : s.catalog = s'.catalog) :
    Twins s.graph s'.graph .hook (init n s) (init n s') := by
  rw [init, init, h]
  refine .attempt _ fun key => .attempt _ fun phase => .attempt _ fun p => .attempt _ fun next => ?_
  cases next with
  | none => exact .done
  | some next => exact .subscribe key (listenerId n) (reaction_twins phase p next) .done

theorem uniform : behaviour.Uniform where
  init n _ _ h := init_twins n h
  unload n _ _ := .withdraw (listenerId n) .done
  execute n w _ _ := .leave n w.vars

end EventListener

namespace Interval

theorem init_twins (n : NodeInstance) (s s' : Setting) :
    Twins s.graph s'.graph .hook (init n s) (init n s') := by
  refine .attempt _ fun period => .attempt _ fun next => ?_
  cases next with
  | none => exact .done
  | some next =>
    -- a period that cannot be kept fails the node, and each run starts a walk of its own
    refine .schedule _ (fun _ => .startWalk next ∅) ?_ ?_
    · exact fun err => .fail (.scheduling err)
    · exact fun _ _ => .done

theorem uniform : behaviour.Uniform where
  init n s s' _ := init_twins n s s'
  unload _ _ _ := .done
  execute n w _ _ := .leave n w.vars

end Interval

namespace Wait

/-- A walk passes such a node in the same way in either graph. -/
theorem execute_twins (n : NodeInstance) (w : Walk) :
    Twins g g' .live (execute n (w.through g)) (execute n (w.through g')) := by
  refine .attempt _ fun delay => .attempt _ fun next => ?_
  cases next with
  | none => exact .finish w.vars none
  | some next =>
    -- the walk ends here, and a task goes on with it later
    refine .schedule (.once delay) (fun _ => .walkOn w next) ?_ ?_
    · exact fun _ => .finish w.vars none
    · exact fun _ _ => .finish w.vars none

theorem uniform : behaviour.Uniform :=
  Behaviour.uniform_of_execute fun n w _ _ => execute_twins n w

end Wait

namespace MathRandom

/-- Both programs make the same draw, if any. -/
theorem choose_twins (min max : Float) {k k' : Float → Program}
    (hk : ∀ x, Twins g g' .live (k x) (k' x)) :
    Twins g g' .live (choose min max k) (choose min max k') := by
  rw [choose, choose]
  cases choices min max with
  | one x => exact hk x
  | range low high => exact .draw low high hk

theorem execute_twins (n : NodeInstance) (w : Walk) :
    Twins g g' .live (execute n (w.through g)) (execute n (w.through g')) := by
  refine .attempt _ fun min => .attempt _ fun max => choose_twins min max fun x => ?_
  exact .attempt _ fun _ => .attempt _ fun next => .finish _ next

theorem uniform : behaviour.Uniform :=
  Behaviour.uniform_of_execute fun n w _ _ => execute_twins n w

end MathRandom

namespace Chat

variable (sink : Sink)

/-- The node is left in the same way whether or not the job is accepted. -/
theorem dispatch_twins (n : NodeInstance) (w : Walk) (job : Program) :
    Twins g g' .live (dispatch n (w.through g) job) (dispatch n (w.through g') job) := by
  refine .submit job fun r => ?_
  cases r with
  | ok _ => exact .leave n w.vars
  | error err => exact .log _ (.leave n w.vars)

theorem execute_twins (n : NodeInstance) (w : Walk) :
    Twins g g' .live (execute sink n (w.through g)) (execute sink n (w.through g')) :=
  .attempt _ fun message => dispatch_twins n w (sink.broadcast message)

/-- A walk passes such a node in the same way in either graph. -/
theorem executeWhisper_twins (n : NodeInstance) (w : Walk) :
    Twins g g' .live (executeWhisper sink n (w.through g))
      (executeWhisper sink n (w.through g')) := by
  refine .attempt _ fun player => .attempt _ fun message => ?_
  split
  · exact .log _ (.leave n w.vars)
  · exact dispatch_twins n w (sink.whisper player message)

theorem uniform : (behaviour sink).Uniform :=
  Behaviour.uniform_of_execute fun n w _ _ => execute_twins sink n w

/-- So do nodes that speak to one player. -/
theorem uniform_whisper : (whisperBehaviour sink).Uniform :=
  Behaviour.uniform_of_execute fun n w _ _ => executeWhisper_twins sink n w

end Chat

/-- **Every built-in node type is uniform.** -/
theorem uniform (sink : Sink) {t : NodeType Behaviour} (ht : t ∈ nodeTypes sink) {b : Behaviour}
    (hb : t.behaviour = some b) : b.Uniform := by
  have hall : ∀ t ∈ nodeTypes sink, ∀ b, t.behaviour = some b → b.Uniform := by
    simp only [nodeTypes, List.forall_mem_cons, Option.some.injEq, forall_eq']
    exact ⟨EventListener.uniform, Interval.uniform, Wait.uniform, MathRandom.uniform,
      Chat.uniform sink, Chat.uniform_whisper sink, List.forall_mem_nil _⟩
  exact hall t ht b hb

end Builtin

end Flowgraph
