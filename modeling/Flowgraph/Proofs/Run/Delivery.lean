import Flowgraph.Proofs.Run.Evolution

/-!
# Delivering events

An event is given to one listener after another. Each has its turn once, in the order of the list,
whether those before it accept the event, fail or break off; and what is counted in the end are
those that did not accept it.

* `InTurn` — everything in a list has its turn, and something else may happen in between.
* `Round` — a run that consists of such turns. It fails to end only if one of the turns does.
* `round_of_deliver` — a delivery is a round of its listeners.
-/

namespace Flowgraph

/-- How an event is taken. -/
inductive Reply where
  | accepted
  | failed (err : WorkflowError)
  | brokeOff

/-- Whether a listener has failed. -/
def Reply.isFailure : Reply → Bool
  | .accepted => false
  | .failed _ => true
  | .brokeOff => true

/-- How many replies are failures. -/
def failures (rs : List Reply) : Nat := rs.countP Reply.isFailure

namespace Engine

/-! ### Turns -/

section Turns

variable {α : Type}

/-- Everything in a list has its turn, one after another; in between something else may happen. -/
inductive InTurn (turn : α → Engine → Run Reply) (between : Engine → Engine → Prop) :
    List α → Engine → List Reply → Engine → Prop
  | done (e : Engine) : InTurn turn between [] e [] e
  | meanwhile {as : List α} {e m e' : Engine} {rs : List Reply} (h : between e m)
      (rest : InTurn turn between as m rs e') : InTurn turn between as e rs e'
  | turn {a : α} {as : List α} {e m e' : Engine} {r : Reply} {rs : List Reply}
      (h : turn a e = .returned r m) (rest : InTurn turn between as m rs e') :
      InTurn turn between (a :: as) e (r :: rs) e'

/-- A run that consists of turns: it returns the number of failures, or one of the turns does not
end. -/
inductive Round (turn : α → Engine → Run Reply) (between : Engine → Engine → Prop) (as : List α)
    (e : Engine) : Run Nat → Prop
  | returned {rs : List Reply} {e' : Engine} (h : InTurn turn between as e rs e') :
      Round turn between as e (.returned (failures rs) e')
  | diverged {before after : List α} {a : α} {rs : List Reply} {m : Engine}
      (hsplit : as = before ++ a :: after) (h : InTurn turn between before e rs m)
      (hstuck : turn a m = .diverged) : Round turn between as e .diverged

variable {take : α → Engine → Run Reply} {between : Engine → Engine → Prop} {as : List α}
  {e m e' : Engine} {rs : List Reply} {run : Run Nat}

theorem Round.meanwhile (h : between e m) (hround : Round take between as m run) :
    Round take between as e run := by
  cases hround with
  | returned hrest => exact .returned (.meanwhile h hrest)
  | diverged hsplit hrest hstuck => exact .diverged hsplit (.meanwhile h hrest) hstuck

/-- What follows a turn that returned. -/
theorem Round.turn {a : α} {r : Reply} (h : take a e = .returned r m)
    (hround : Round take between as m run) :
    Round take between (a :: as) e (run.map (· + failures [r])) := by
  cases hround with
  | @returned rs e' hrest =>
    -- the failure of this turn is counted behind those of the rest
    have hcount : failures rs + failures [r] = failures ([r] ++ rs) := by
      rw [failures, failures, failures, List.countP_append, Nat.add_comm]
    show Round take between (a :: as) e (.returned (failures rs + failures [r]) e')
    rw [hcount]
    exact .returned (.turn h hrest)
  | diverged hsplit hrest hstuck =>
    rw [hsplit]
    exact .diverged (List.cons_append ..).symm (.turn h hrest) hstuck

namespace InTurn

theorem length_eq (h : InTurn take between as e rs e') : rs.length = as.length := by
  induction h with
  | done => rfl
  | meanwhile _ _ ih => exact ih
  | turn _ _ ih => exact congrArg Nat.succ ih

end InTurn

end Turns

/-! ### Deliveries -/

/-- Reports on what a listener has run. -/
def heed (key : EventKey) {α : Type} : Run (Except WorkflowError α) → Run Reply
  | .returned (.ok _) e => .returned .accepted e
  | .returned (.error err) e => .returned (.failed err) (e.log (listenerLog key err))
  | .panicked e => .returned .brokeOff (e.log (listenerPanicLog key))
  | .diverged => .diverged

/-- A listener's turn in a delivery. -/
def hear (run : Interpreter) (event : Event) (before : Bool) (l : Listener Reaction) (e : Engine) :
    Run Reply :=
  heed event.key (run (l.reaction event before) (e.record (.heard l.id event.key before)))

variable {run : Interpreter} {event : Event} {before : Bool} {e m : Engine}

/-- How the rest of a delivery goes on does not depend on how a turn ended. -/
theorem deliver_cons (l : Listener Reaction) (rest : List (Listener Reaction)) :
    deliver run event before (l :: rest) e = (hear run event before l e).bind fun r m =>
      (deliver run event before rest m).map (· + failures [r]) := by
  rw [deliver, hear]
  rcases run (l.reaction event before) (e.record (.heard l.id event.key before)) with
    ⟨err | step, m⟩ | m | _
  · rfl
  · -- one that accepts the event adds nothing to the count
    show deliver run event before rest m = (deliver run event before rest m).map (· + 0)
    cases deliver run event before rest m <;> rfl
  · rfl
  · rfl

/-- A turn does not break off. -/
theorem hear_ne_panicked (l : Listener Reaction) : hear run event before l e ≠ .panicked m := by
  intro h
  rw [hear] at h
  generalize run (l.reaction event before) (e.record (.heard l.id event.key before)) = r at h
  rcases r with ⟨err | step, m'⟩ | m' | _ <;> cases h

/-- **A delivery is a round of its listeners.** -/
theorem round_of_deliver (between : Engine → Engine → Prop) (ls : List (Listener Reaction)) :
    Round (hear run event before) between ls e (deliver run event before ls e) := by
  induction ls generalizing e with
  | nil => exact .returned (.done e)
  | cons l rest ih =>
    rw [deliver_cons]
    -- a failure is a reply like any other, so the delivery goes on
    cases h : hear run event before l e with
    | returned r m => exact .turn h ih
    | panicked m => exact absurd h (hear_ne_panicked l)
    | diverged => exact .diverged (List.nil_append _).symm (.done e) h

/-- A fire is a delivery to the listeners that there are at its beginning. -/
theorem fire_eq (hfree : e.hooks = none) :
    fire run event before e = deliver run event before (e.liveGraph.bus.listeners event.key) e := by
  refine if_neg ?_
  rw [hfree]
  exact Bool.false_ne_true

end Engine

end Flowgraph
