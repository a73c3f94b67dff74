import Flowgraph.Proofs.Run.Abreast
import Flowgraph.Proofs.Walk.Embodied

/-!
# Messages and the built-in node types

A node that sends a chat message hands it to the worker pool and is left in one way, whether the
pool takes the message or not, and whatever becomes of it later. The nodes of the other types do not
know of the pool. So with any two sinks, and in front of any two pools, the built-in types do the
same.

* `Builtin.Sink.Delivers` — what a sink may do with a message.
* `Builtin.nodeTypes_abreast` — with any two sinks the built-in node types go abreast.
* `builtins_abreast` — and so do their registries.
-/

namespace Flowgraph

open Program (Abreast Jobless)

/-! ### The built-in node types -/

namespace Builtin

/-- A sink that does nothing with a message but deliver it, or fail to. -/
structure Sink.Delivers (sink : Sink) : Prop where
  broadcast : ∀ message, (sink.broadcast message).Delivers
  whisper : ∀ player message, (sink.whisper player message).Delivers

/-- The log takes every message. -/
theorem delivers_toLog : Sink.toLog.Delivers :=
  ⟨fun _ => .log _ (.finish ∅ none), fun _ _ => .log _ (.finish ∅ none)⟩

/-- To go on takes no job. -/
theorem jobless_leave (n : NodeInstance) (vars : Variables) :
    Jobless (.attempt n.next fun next => .finish vars next) :=
  .attempt n.next fun next => .finish vars next

/-- A behaviour that does nothing but when a walk enters its node. -/
theorem abreast_of_execute {execute execute' : NodeInstance → Walk → Program}
    (h : ∀ n w, Abreast (execute n w) (execute' n w)) :
    Behaviour.Abreast { execute := execute } { execute := execute' } where
  init _ _ _ _ _ _ := Jobless.done.abreast
  unload _ _ _ _ _ _ := Jobless.done.abreast
  execute := h

/-- To listen takes no job. -/
theorem jobless_listening (n : NodeInstance) (s : Setting) : (EventListener.init n s).Jobless := by
  refine .attempt _ fun key => .attempt _ fun phase => .attempt _ fun p => .attempt _ fun next => ?_
  cases next with
  | none => exact .done
  | some next =>
    refine .subscribe _ _ _ (fun event before => ?_) .done
    rw [EventListener.reaction]
    -- a walk is started in the phase that the node is set to
    split
    · exact .walkOn _ next
    · exact .done

/-- To tick takes no job. -/
theorem jobless_ticking (n : NodeInstance) (s : Setting) : (Interval.init n s).Jobless := by
  refine .attempt _ fun period => .attempt _ fun next => ?_
  cases next with
  | none => exact .done
  | some next =>
    exact .schedule _ _ (fun _ => .walkOn _ next) fun answer => .attempt _ fun _ => .done

/-- To wait takes no job. -/
theorem jobless_waiting (n : NodeInstance) (w : Walk) : (Wait.execute n w).Jobless := by
  refine .attempt _ fun delay => .attempt _ fun next => ?_
  cases next with
  | none => exact .finish w.vars none
  | some next => exact .schedule _ _ (fun _ => .walkOn w next) fun _ => .finish w.vars none

/-- To draw takes no job. -/
theorem jobless_drawing (n : NodeInstance) (w : Walk) : (MathRandom.execute n w).Jobless := by
  refine .attempt _ fun min => .attempt _ fun max => ?_
  rw [MathRandom.choose]
  cases MathRandom.choices min max with
  | one x => exact .attempt _ fun p => jobless_leave n _
  | range low high => exact .act _ fun x => .attempt _ fun p => jobless_leave n _

/-- How large the pool is makes no difference to a trigger. -/
theorem eventListener_abreast : EventListener.behaviour.Abreast EventListener.behaviour where
  init n s s' hgraph _ hcatalog := by
    -- what it looks at is the same on both sides
    have hsame : EventListener.init n s' = EventListener.init n s := by
      rw [EventListener.init, EventListener.init, hgraph, hcatalog]
    show Abreast (EventListener.init n s) (EventListener.init n s')
    rw [hsame]
    exact (jobless_listening n s).abreast
  unload n s s' hgraph _ _ := by
    have hsame : EventListener.unload n s' = EventListener.unload n s := by
      rw [EventListener.unload, EventListener.unload, hgraph]
    have h : Jobless (EventListener.unload n s) := .act _ fun _ => .done
    show Abreast (EventListener.unload n s) (EventListener.unload n s')
    rw [hsame]
    exact h.abreast
  execute n w := (jobless_leave n w.vars).abreast

/-- Nodes that tick do so whatever becomes of messages. -/
theorem interval_abreast : Interval.behaviour.Abreast Interval.behaviour where
  init n s s' hgraph _ _ := by
    have hsame : Interval.init n s' = Interval.init n s := by
      rw [Interval.init, Interval.init, hgraph]
    show Abreast (Interval.init n s) (Interval.init n s')
    rw [hsame]
    exact (jobless_ticking n s).abreast
  unload _ _ _ _ _ _ := Jobless.done.abreast
  execute n w := (jobless_leave n w.vars).abreast

section Chat

variable {sink sink' : Sink} (hsink : sink.Delivers) (hsink' : sink'.Delivers)

/-- **A node that hands in a message is left in the same way**, whether or not it is accepted. -/
theorem dispatch_abreast (n : NodeInstance) (w : Walk) {job job' : Program} (hjob : job.Delivers)
    (hjob' : job'.Delivers) : Abreast (Chat.dispatch n w job) (Chat.dispatch n w job') := by
  have hleave : Abreast (Chat.leave n w) (Chat.leave n w) := (jobless_leave n w.vars).abreast
  refine .submit hjob hjob' fun answer answer' => ?_
  -- a refusal is reported, and nothing else is different
  cases answer with
  | ok _ =>
    cases answer' with
    | ok _ => exact hleave
    | error err' => exact .logRight _ hleave
  | error err =>
    cases answer' with
    | ok _ => exact .logLeft _ hleave
    | error err' => exact .logLeft _ (.logRight _ hleave)

include hsink hsink'

/-- Nodes that speak go on whatever becomes of what they say. -/
theorem chat_abreast : (Chat.behaviour sink).Abreast (Chat.behaviour sink') :=
  abreast_of_execute fun n w =>
    .attempt _ fun message =>
      dispatch_abreast n w (hsink.broadcast message) (hsink'.broadcast message)

/-- Nodes that speak to one player go on whatever becomes of what they say. -/
theorem whisper_abreast : (Chat.whisperBehaviour sink).Abreast (Chat.whisperBehaviour sink') :=
  abreast_of_execute fun n w => by
    refine .attempt _ fun player => .attempt _ fun message => ?_
    split
    · exact .act _ fun _ => (jobless_leave n w.vars).abreast
    · exact dispatch_abreast n w (hsink.whisper player message) (hsink'.whisper player message)

/-- **With any two sinks the built-in node types go abreast.** -/
theorem nodeTypes_abreast : List.Forall₂ NodeType.Abreast (nodeTypes sink) (nodeTypes sink') :=
  .cons ⟨rfl, .some eventListener_abreast⟩ <| .cons ⟨rfl, .some interval_abreast⟩ <|
  .cons ⟨rfl, .some (abreast_of_execute fun n w => (jobless_waiting n w).abreast)⟩ <|
  .cons ⟨rfl, .some (abreast_of_execute fun n w => (jobless_drawing n w).abreast)⟩ <|
  .cons ⟨rfl, .some (chat_abreast hsink hsink')⟩ <|
  .cons ⟨rfl, .some (whisper_abreast hsink hsink')⟩ .nil

end Chat

end Builtin

/-! ### Registries -/

/-- Types abreast are added to types abreast. -/
theorem Registry.Abreast.insert {r r' : Registry Behaviour} (hr : r.Abreast r')
    {t t' : NodeType Behaviour} (ht : t.Abreast t') (name : String) :
    Registry.Abreast (r.insert name t) (r'.insert name t') := by
  intro other
  rw [StringMap.get?_insert, StringMap.get?_insert]
  split
  · exact .some ht
  · exact hr other

/-- Types are registered, or refused for the same reason. -/
theorem Registry.Abreast.registerAll {r r' : Registry Behaviour} (hr : r.Abreast r')
    {ts ts' : List (NodeType Behaviour)} (hts : List.Forall₂ NodeType.Abreast ts ts') :
    Registry.Abreast (r.registerAll ts).1 (r'.registerAll ts').1 := by
  induction hts generalizing r r' with
  | nil => exact hr
  | @cons t t' _ _ ht _ ih =>
    -- the same names are taken in both
    have hcontains : r.contains t'.metadata.name = r'.contains t'.metadata.name := by
      have hname := hr t'.metadata.name
      rw [StringMap.contains, StringMap.contains]
      generalize r.get? t'.metadata.name = old at hname ⊢
      generalize r'.get? t'.metadata.name = old' at hname ⊢
      cases hname <;> rfl
    unfold Registry.registerAll Registry.register
    rw [ht.metadata, hcontains]
    by_cases hknown : r'.contains t'.metadata.name = true
    · rw [if_pos hknown, if_pos hknown]
      exact hr
    · rw [if_neg hknown, if_neg hknown]
      cases t'.metadata.repeatedMember with
      | some member => exact hr
      | none => exact ih (hr.insert ht _)

/-- **The registries of the built-in types go abreast.** -/
theorem builtins_abreast {sink sink' : Builtin.Sink} (hsink : sink.Delivers)
    (hsink' : sink'.Delivers) : Registry.Abreast (builtins sink) (builtins sink') :=
  .registerAll (fun _ => .none) (Builtin.nodeTypes_abreast hsink hsink')

end Flowgraph
