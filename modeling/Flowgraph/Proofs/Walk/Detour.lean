import Flowgraph.Proofs.Expression.Recognition
import Flowgraph.Proofs.Walk.Course

/-!
# Detours

A detour leads a link by way of a wait: what was behind a node is now behind a wait, and the wait is
behind the node. Walks go through both graphs alike, but each time that the wait is entered all that
follows is later by its delay.

* `Context.Detour` — one stored graph is another with a detour.
* `Delayed` — the same stops, but for those at the wait and what they are late.
* `Course.delayed` — every course has one with the same draws in the graph with the detour, and the
  stops are delayed.
* `Context.splice` — putting a wait on a link makes a detour.
-/

namespace Flowgraph

/-- The stops of a walk with a detour: those without it, each later by what it was held up before,
and stops at the wait in between. At first the stops are late by one time and at last by another. -/
inductive Delayed (wait : String) (delay : Nat) : Nat → List Stop → List Stop → Nat → Prop
  | done (late : Nat) : Delayed wait delay late [] [] late
  | stop {s : Stop} {late last : Nat} {ss ss' : List Stop} (hs : s.node ≠ wait)
      (h : Delayed wait delay late ss ss' last) :
      Delayed wait delay late (s :: ss) ({ s with time := s.time + late } :: ss') last
  | wait {time late last : Nat} {vars : Variables} {ss ss' : List Stop}
      (h : Delayed wait delay (late + delay) ss ss' last) :
      Delayed wait delay late ss (⟨time, wait, vars⟩ :: ss') last

/-- One stored graph is another, but a link of it leads by way of a wait of its own. -/
structure Context.Detour (c c' : Context) (source target wait : String) (delay : Duration) :
    Prop where
  redirected : ∃ n n', c.member? source = some n ∧ c'.member? source = some n' ∧
    n.next = .ok (some target) ∧ n'.next = .ok (some wait) ∧ n'.fields = n.fields ∧
    n'.metadata = n.metadata
  waits : ∃ n, c'.member? wait = some n ∧ n.role = .wait ∧ n.next = .ok (some target) ∧
    ∀ vars, n.readSeconds Builtin.Wait.delayField vars = .ok delay
  others : ∀ id, id ≠ source → id ≠ wait → c'.member? id = c.member? id
  /-- Without the detour the wait is neither there nor looked for. -/
  absent : c.member? wait = none
  unsought : ∀ id n, c.member? id = some n → n.next ≠ .ok (some wait)

variable {c c' : Context} {source target wait : String} {delay : Duration} {p q : Post}
  {ss ss' ss₁ ss₁' : List Stop} {rs : List Roll} {late late' last : Nat}

theorem Delayed.append {d : Nat} (h : Delayed wait d late ss ss' late')
    (h' : Delayed wait d late' ss₁ ss₁' last) :
    Delayed wait d late (ss ++ ss₁) (ss' ++ ss₁') last := by
  induction h with
  | done late => exact h'
  | stop hs _ ih => exact .stop hs (ih h')
  | wait _ ih => exact .wait (ih h')

namespace Post

/-- The same point of a walk, at a later time. -/
def later (late : Nat) : Post → Post
  | .standing time vars next => .standing (time + late) vars next
  | .ended time how => .ended (time + late) how

/-- The node to enter next. -/
def next? : Post → Option String
  | .standing _ _ next => next
  | .ended _ _ => none

theorem later_later (p : Post) (late late' : Nat) :
    (p.later late).later late' = p.later (late + late') := by
  cases p with
  | standing time vars next => exact congrArg (Post.standing · vars next) (Nat.add_assoc ..)
  | ended time how => exact congrArg (Post.ended · how) (Nat.add_assoc ..)

theorem later_behind (time : Nat) (vars : Variables) (passage : Passage) (late : Nat) :
    (behind time vars passage).later late = behind (time + late) vars passage := by
  cases passage with
  | onward vars next => rfl
  | handed delay next => exact congrArg (Post.standing · vars (some next)) (Nat.add_right_comm ..)
  | failed err => rfl

theorem next?_behind (time : Nat) (vars : Variables) (passage : Passage) :
    (behind time vars passage).next? = passage.next? := by
  cases passage <;> rfl

/-- Behind a node that leads to another, a walk has failed or comes to that one. -/
theorem behind_redirected (time : Nat) (vars : Variables) (target wait : String)
    (effect : Except WorkflowError Builtin.Effect) :
    (∃ err, behind time vars (Builtin.Effect.passage vars (.ok (some target)) effect) =
        .ended time (.failed err) ∧
      behind time vars (Builtin.Effect.passage vars (.ok (some wait)) effect) =
        .ended time (.failed err)) ∨
      ∃ time' vars', behind time vars (Builtin.Effect.passage vars (.ok (some target)) effect) =
          .standing time' vars' (some target) ∧
        behind time vars (Builtin.Effect.passage vars (.ok (some wait)) effect) =
          .standing time' vars' (some wait) := by
  -- an effect decides when and with what the walk goes on, and the output decides where
  cases effect with
  | error err => exact .inl ⟨err, rfl, rfl⟩
  | ok effect =>
    cases effect with
    | pass vars' => exact .inr ⟨time, vars', rfl, rfl⟩
    | delay d => exact .inr ⟨time + d.ceilMillis, vars, rfl, rfl⟩

end Post

namespace Context.Detour

variable (hd : Context.Detour c c' source target wait delay)
include hd

/-- The wait holds every walk up by its delay, and then lets it go on as it was. -/
theorem crossing (time : Nat) (vars : Variables) :
    Leg c' (.standing time vars (some wait)) [⟨time, wait, vars⟩] []
      (.standing (time + delay.ceilMillis) vars (some target)) := by
  obtain ⟨n, hmember, hrole, hnext, hdelay⟩ := hd.waits
  have hpassage : n.passage vars (fun low _ => low) = .handed delay target := by
    rw [NodeInstance.passage, hrole, Builtin.Role.passage, hnext, Builtin.Role.effect, hdelay]
    rfl
  -- a wait draws nothing
  have hdraws : n.draws vars = false := by
    rw [NodeInstance.draws, hrole]
    rfl
  have hleg := Leg.entered time vars (fun low _ => low) hmember
  rw [hpassage, hdraws] at hleg
  exact hleg

/-- The node at the beginning of the link does and draws the same in both graphs, and leads to the
wait where it led to the target. -/
theorem passages (vars : Variables) (roll : Roll) : ∃ n n' effect,
    c.member? source = some n ∧ c'.member? source = some n' ∧ n'.draws vars = n.draws vars ∧
      n.passage vars roll = Builtin.Effect.passage vars (.ok (some target)) effect ∧
      n'.passage vars roll = Builtin.Effect.passage vars (.ok (some wait)) effect := by
  obtain ⟨n, n', hmember, hmember', hnext, hnext', hfields, hmetadata⟩ := hd.redirected
  -- redirecting an output changes neither the type nor the fields
  have hrole : n'.role = n.role := by
    rw [NodeInstance.role, NodeInstance.role, NodeInstance.nodeType, hmetadata]
    rfl
  obtain ⟨heffect, hdraws⟩ := Builtin.Role.effect_congr hfields vars roll n.role
  refine ⟨n, n', n.role.effect n vars roll, hmember, hmember', ?_, ?_, ?_⟩
  · rw [NodeInstance.draws, hrole, hdraws]
    rfl
  · rw [NodeInstance.passage, Builtin.Role.passage, hnext]
  · rw [NodeInstance.passage, Builtin.Role.passage, hnext', hrole, heffect]

/-- A walk never comes to the wait without the detour. -/
theorem next_ne (h : Leg c p ss rs q) : q.next? ≠ some wait := by
  cases h with
  | finished => nofun
  | stray => nofun
  | entered time vars roll hmember =>
    rw [Post.next?_behind]
    exact fun hnext => hd.unsought _ _ hmember (Builtin.Effect.next_of_passage hnext)

/-- **A step of a walk is one of the walk with the detour, or one and the wait behind it.** -/
theorem delayed_of_leg (h : Leg c p ss rs q) (hp : p.next? ≠ some wait) (late : Nat) :
    ∃ ss' last, Course c' (p.later late) ss' rs (q.later last) ∧
      Delayed wait delay.ceilMillis late ss ss' last := by
  cases h with
  | finished time vars => exact ⟨[], late, .single (.finished _ vars), .done late⟩
  | @stray time vars id hnone =>
    have hid : id ≠ wait := fun h => hp (congrArg some h)
    refine ⟨[], late, .single (.stray _ vars ?_), .done late⟩
    by_cases hsource : id = source
    · obtain ⟨n, -, hmember, -⟩ := hd.redirected
      rw [hsource, hmember] at hnone
      cases hnone
    · rw [hd.others id hsource hid]
      exact hnone
  | @entered time vars roll id n hmember =>
    have hid : id ≠ wait := fun h => hp (congrArg some h)
    by_cases hsource : id = source
    · subst hsource
      obtain ⟨n₁, n', effect, hmember₁, hmember', hdraws, hpassage, hpassage'⟩ :=
        hd.passages vars roll
      rw [hmember] at hmember₁
      cases hmember₁
      have hleg := Leg.entered (time + late) vars roll hmember'
      rw [hdraws, hpassage'] at hleg
      rw [hpassage]
      have hstop : ∀ {last ss'}, Delayed wait delay.ceilMillis late [] ss' last →
          Delayed wait delay.ceilMillis late [⟨time, id, vars⟩]
            (⟨time + late, id, vars⟩ :: ss') last := .stop hid
      rcases Post.behind_redirected (time + late) vars target wait effect with
        ⟨err, hb, hb'⟩ | ⟨time', vars', hb, hb'⟩
      · -- the walk fails in the node and does not come to the wait
        refine ⟨_, late, ?_, hstop (.done late)⟩
        rw [Post.later_behind, hb, ← hb']
        exact .single hleg
      · refine ⟨[⟨time + late, id, vars⟩, ⟨time', wait, vars'⟩], late + delay.ceilMillis, ?_,
          hstop (.wait (.done _))⟩
        rw [← Post.later_later, Post.later_behind, hb]
        rw [hb'] at hleg
        have hcourse := Course.step hleg (.single (hd.crossing time' vars'))
        rwa [List.append_nil] at hcourse
    · -- the node is the same in both graphs
      rw [← hd.others id hsource hid] at hmember
      refine ⟨[⟨time + late, id, vars⟩], late, ?_, .stop hid (.done late)⟩
      rw [Post.later_behind]
      exact .single (.entered _ vars roll hmember)

/-- **Every course has one with the same draws by way of the detour**, and its stops are delayed. -/
theorem delayed_of_course (h : Course c p ss rs q) (hp : p.next? ≠ some wait) (late : Nat) :
    ∃ ss' last, Course c' (p.later late) ss' rs (q.later last) ∧
      Delayed wait delay.ceilMillis late ss ss' last := by
  induction h generalizing late with
  | refl p => exact ⟨[], late, .refl _, .done late⟩
  | step hleg _ ih =>
    obtain ⟨ss₁, late₁, hcourse₁, hdelayed₁⟩ := hd.delayed_of_leg hleg hp late
    obtain ⟨ss₂, last, hcourse₂, hdelayed₂⟩ := ih (hd.next_ne hleg) late₁
    exact ⟨ss₁ ++ ss₂, last, hcourse₁.trans hcourse₂, hdelayed₁.append hdelayed₂⟩

end Context.Detour

/-! ### Putting a wait on a link -/

/-- The entry with an output that points at another node. -/
def NodeEntry.point (entry : NodeEntry) (output target : String) : NodeEntry :=
  { entry with
    state := { entry.state with outputs := entry.state.outputs.insert output (some target) } }

/-- An entry for a wait. -/
def waitEntry (id text target : String) : NodeEntry where
  id := id
  name := Builtin.Wait.name
  state := {
    outputs := (∅ : StringMap _).insert "Next" (some target)
    fields := (∅ : StringMap _).insert Builtin.Wait.delayField { consumer := some text } }

/-- Puts a wait on a link. -/
def Context.splice (c : Context) (l : Link) (wait text : String) : Context :=
  ⟨c.nodes.map (fun entry => if entry.id = l.source then entry.point l.output wait else entry) ++
    [waitEntry wait text l.target]⟩

/-- A text is a number of seconds, whatever the variables are. -/
def ConstantDelay (text : String) (delay : Duration) : Prop :=
  ∃ x, (∀ vars, Expression.evaluateNumber text vars = .ok x) ∧ Duration.ofSeconds? x = some delay

/-- The delay that a text spells, if it is a number. -/
def spelledDelay? (text : String) : Option Duration :=
  match Expression.Lexeme.scan text.toList with
  | .ok [⟨.number x, _⟩] => Duration.ofSeconds? x
  | _ => none

theorem constantDelay_of_spelled {text : String} (h : spelledDelay? text = some delay) :
    ConstantDelay text delay := by
  unfold spelledDelay? at h
  split at h
  · next x _ hscan => exact ⟨x, Expression.evaluateNumber_of_number hscan, h⟩
  · cases h

theorem readSeconds_waitEntry {text : String} {delay : Duration} (h : ConstantDelay text delay)
    (id target : String) (vars : Variables) :
    (Builtin.Wait.metadata.overlay id (waitEntry id text target).state).readSeconds
      Builtin.Wait.delayField vars = .ok delay := by
  obtain ⟨x, hx, hdelay⟩ := h
  have hread : (Builtin.Wait.metadata.overlay id (waitEntry id text target).state).readDouble
      Builtin.Wait.delayField vars = .ok x := by
    show FieldError.lift _ ((Expression.evaluateNumber text vars).mapError .expression) = _
    rw [hx]
    rfl
  rw [NodeInstance.readSeconds, hread]
  dsimp only
  rw [hdelay]

theorem Context.id_of_findNode {id : String} {entry : NodeEntry}
    (h : c.findNode id = some entry) : entry.id = id := by
  have hfound := List.find?_some h
  exact of_decide_eq_true hfound

theorem Context.findNode_of_mem (hdistinct : c.ids.Nodup) {entry : NodeEntry}
    (h : entry ∈ c.nodes) : c.findNode entry.id = some entry := by
  cases hfind : c.findNode entry.id with
  | none => exact absurd (decide_eq_true rfl) (List.find?_eq_none.mp hfind entry h)
  | some entry' =>
    exact congrArg some (List.inj_on_of_nodup_map hdistinct (List.mem_of_find?_eq_some hfind) h
      (Context.id_of_findNode hfind))

theorem Context.findNode_eq_none {id : String} (h : id ∉ c.ids) : c.findNode id = none :=
  List.find?_eq_none.mpr fun entry hentry hid =>
    h (List.mem_map.mpr ⟨entry, hentry, of_decide_eq_true hid⟩)

theorem target?_of_ne {target : String} (h : target ≠ "") : target? (some target) = some target :=
  Option.filter_eq_some_iff.mpr ⟨rfl, decide_eq_true h⟩

/-- A node with one output leads to where the output is stored to lead. -/
theorem NodeMetadata.next_overlay {m : NodeMetadata} {o : OutputSpec} (hout : m.outputs = [o])
    (id : String) (s : NodeState) : (m.overlay id s).next = .ok (s.target o.name) := by
  rw [NodeInstance.next, NodeMetadata.overlay, hout]
  rfl

theorem NodeEntry.target_point (entry : NodeEntry) (output : String) {target : String}
    (h : target ≠ "") : (entry.point output target).state.target output = some target := by
  rw [NodeState.target, NodeEntry.point, StringMap.get?_insert_self]
  exact target?_of_ne h

theorem Context.findNode_splice (l : Link) (wait text id : String) :
    (c.splice l wait text).findNode id =
      ((c.findNode id).map fun entry =>
        if entry.id = l.source then entry.point l.output wait else entry).or
        (if wait = id then some (waitEntry wait text l.target) else none) := by
  have hid : ∀ entry : NodeEntry,
      (if entry.id = l.source then entry.point l.output wait else entry).id = entry.id := by
    intro entry
    split <;> rfl
  unfold Context.splice Context.findNode
  rw [List.find?_append, List.find?_map]
  -- the entries keep their names, and the wait stands behind all of them
  refine congrArg₂ Option.or ?_ ?_
  · have htest : ((fun entry : NodeEntry => decide (entry.id = id)) ∘ fun entry =>
        if entry.id = l.source then entry.point l.output wait else entry) =
        fun entry => decide (entry.id = id) := funext fun entry => by
      rw [Function.comp_apply, hid]
    rw [htest]
  · by_cases h : wait = id
    · rw [if_pos h, List.find?_cons_of_pos]
      exact decide_eq_true h
    · rw [if_neg h, List.find?_cons_of_neg]
      · rfl
      · exact fun hw => h (of_decide_eq_true hw)

theorem Builtin.outputs_eq_singleton {sink : Sink} {t : NodeType Behaviour}
    (ht : t ∈ nodeTypes sink) : ∃ o, t.metadata.outputs = [o] := by
  have hall : ∀ t ∈ nodeTypes sink, ∃ o, t.metadata.outputs = [o] := by
    simp only [nodeTypes, List.forall_mem_cons]
    exact ⟨⟨_, rfl⟩, ⟨_, rfl⟩, ⟨_, rfl⟩, ⟨_, rfl⟩, ⟨_, rfl⟩, ⟨_, rfl⟩, List.forall_mem_nil _⟩
  exact hall t ht

/-! ### Well-formed graphs with a wait on a link -/

/-- Pointing an output that there is at another node keeps a state that fits. -/
theorem NodeState.Fits.point {entry : NodeEntry} {m : NodeMetadata} (h : entry.state.Fits m)
    {output : String} (hout : output ∈ entry.state.outputs.keys) (target : String) :
    (entry.point output target).state.Fits m where
  outputs name hname := by
    have hkey := (StringMap.mem_keys_iff _ _).mp hname
    -- no output is mentioned that was not mentioned before
    by_cases heq : name = output
    · exact h.outputs name (heq ▸ hout)
    · refine h.outputs name ((StringMap.mem_keys_iff _ _).mpr ?_)
      unfold StringMap.contains NodeEntry.point at *
      rwa [StringMap.get?_insert_of_ne _ _ heq] at hkey
  fields := h.fields
  halves := h.halves
  required := h.required
  valid := h.valid

/-- A constant delay passes the check of the field. -/
theorem ConstantDelay.check {text : String} (h : ConstantDelay text delay) {c : Consumer}
    (hraw : c.raw = some text) (hkind : c.kind = .double) : c.check = .ok () := by
  obtain ⟨x, hx, -⟩ := h
  rw [Consumer.check, hraw]
  dsimp only
  split
  · rfl
  · rw [hkind]
    dsimp only
    rw [Consumer.readDouble, Consumer.withRaw, hraw]
    dsimp only
    rw [hx]
    rfl

theorem fits_waitEntry {text : String} (h : ConstantDelay text delay) (id target : String) :
    (waitEntry id text target).state.Fits Builtin.Wait.metadata where
  -- a wait has one output and one field, and the entry stores both
  outputs name hname := by
    obtain rfl := List.mem_singleton.mp hname
    exact ⟨_, List.mem_singleton.mpr rfl, rfl⟩
  fields name hname := by
    obtain rfl := List.mem_singleton.mp hname
    exact ⟨_, List.mem_singleton.mpr rfl, rfl⟩
  halves f hf := by
    obtain rfl := List.mem_singleton.mp hf
    exact ⟨fun _ => rfl, nofun⟩
  required f hf c hc _ := by
    obtain rfl := List.mem_singleton.mp hf
    rfl
  valid f hf c hc := by
    obtain rfl := List.mem_singleton.mp hf
    obtain rfl := Option.some.inj hc
    exact h.check rfl rfl

/-- A well-formed graph stays one when a wait is put on a link. -/
theorem Context.WellFormed.splice {registry : Registry Behaviour} (h : c.WellFormed registry)
    {l : Link} {text : String} (hl : l ∈ c.links)
    (hnew : wait ∉ c.ids) (hdelay : ConstantDelay text delay) {b : Behaviour}
    (hwait : registry.get? Builtin.Wait.name = some ⟨Builtin.Wait.metadata, some b⟩) :
    (c.splice l wait text).WellFormed registry where
  distinct := by
    have hids : (c.splice l wait text).ids = c.ids ++ [wait] := by
      unfold Context.splice Context.ids
      rw [List.map_append, List.map_map]
      refine congrArg (· ++ [wait]) (List.map_congr_left fun entry _ => ?_)
      show (if entry.id = l.source then entry.point l.output wait else entry).id = entry.id
      split <;> rfl
    rw [hids]
    exact List.nodup_append.mpr ⟨h.distinct, List.nodup_singleton _, fun id hid id' hid' heq =>
      hnew (List.mem_singleton.mp hid' ▸ heq ▸ hid)⟩
  fits entry hentry := by
    rcases List.mem_append.mp hentry with hentry | hentry
    · obtain ⟨entry, hmem, rfl⟩ := List.mem_map.mp hentry
      obtain ⟨t, b, ht, hb, hfits⟩ := h.fits entry hmem
      split
      · next hid =>
        -- the names are distinct, so the link is one of this entry
        obtain ⟨owner, howner, hlink⟩ := List.mem_flatMap.mp hl
        obtain ⟨⟨output, next⟩, hstored, hlink⟩ := List.mem_filterMap.mp hlink
        obtain ⟨target, -, rfl⟩ := Option.map_eq_some_iff.mp hlink
        obtain rfl := List.inj_on_of_nodup_map h.distinct hmem howner hid
        exact ⟨t, b, ht, hb, hfits.point (List.mem_map.mpr ⟨_, hstored, rfl⟩) wait⟩
      · exact ⟨t, b, ht, hb, hfits⟩
    · obtain rfl := List.mem_singleton.mp hentry
      exact ⟨_, b, hwait, rfl, fits_waitEntry hdelay wait l.target⟩

/-! ### Loaded graphs -/

namespace Engine

variable {sink : Builtin.Sink} {g : GraphId} {e : Engine}

theorem Embodies.wellFormed (h : Embodies sink c g e) : ∃ registry : Registry Behaviour,
    registry.IsBuiltin sink ∧ registry.Registered ∧ c.WellFormed registry := by
  obtain ⟨registry, hbuiltin, hr, hwire⟩ := h.wired
  exact ⟨registry, hbuiltin, hr, (wellFormed_of_wire hr hwire).1⟩

/-- In a graph that is loaded over the built-in types a link leaves its node by the only output. -/
theorem Embodies.next_of_link (h : Embodies sink c g e) {l : Link} (hl : l ∈ c.links) :
    ∃ entry m o, c.findNode l.source = some entry ∧ entry.id = l.source ∧
      Builtin.metadataNamed? entry.name = some m ∧ m.outputs = [o] ∧ o.name = l.output ∧
      entry.state.target l.output = some l.target ∧ l.target ≠ "" := by
  obtain ⟨registry, hbuiltin, hr, hdistinct, hfits⟩ := h.wellFormed
  obtain ⟨entry, hentry, hlink⟩ := List.mem_flatMap.mp hl
  obtain ⟨⟨output, next⟩, hstored, hlink⟩ := List.mem_filterMap.mp hlink
  obtain ⟨target, htarget, rfl⟩ := Option.map_eq_some_iff.mp hlink
  obtain ⟨t, b, ht, -, hfit⟩ := hfits entry hentry
  obtain ⟨o, hout⟩ := Builtin.outputs_eq_singleton (hbuiltin _ t ht)
  -- what is stored is an output of the type, which has only one
  have hname : o.name = output := by
    obtain ⟨o', ho', hname⟩ := hfit.outputs output (List.mem_map.mpr ⟨_, hstored, rfl⟩)
    rw [hout] at ho'
    exact List.mem_singleton.mp ho' ▸ hname
  refine ⟨entry, t.metadata, o, Context.findNode_of_mem hdistinct hentry, rfl, ?_, hout, hname,
    ?_, ?_⟩
  · rw [← (hr.of_get? ht).1, Builtin.metadataNamed?_eq (hbuiltin _ t ht)]
  · rw [NodeState.target, StringMap.mem_entries_iff.mp hstored]
    exact htarget
  · exact of_decide_eq_true (Option.filter_eq_some_iff.mp htarget).2

/-- The node at the beginning of the link is the same but for where it leads. -/
theorem Embodies.redirected (h : Embodies sink c g e) {l : Link} (hl : l ∈ c.links)
    (hname : wait ≠ "") (hnew : wait ∉ c.ids) (text : String) : ∃ n n',
    c.member? l.source = some n ∧ (c.splice l wait text).member? l.source = some n' ∧
      n.next = .ok (some l.target) ∧ n'.next = .ok (some wait) ∧ n'.fields = n.fields ∧
      n'.metadata = n.metadata := by
  obtain ⟨entry, m, o, hfind, hid, hm, hout, ho, htarget, -⟩ := h.next_of_link hl
  -- the wait is new, so it is not the node that the link leaves
  have hsource : wait ≠ l.source := by
    rintro rfl
    rw [Context.findNode_eq_none hnew] at hfind
    cases hfind
  refine ⟨m.overlay entry.id entry.state, m.overlay entry.id (entry.point l.output wait).state,
    ?_, ?_, ?_, ?_, rfl, rfl⟩
  · rw [Context.member?, hfind]
    show entry.instance? = _
    rw [NodeEntry.instance?, hm]
    rfl
  · rw [Context.member?, Context.findNode_splice, hfind, if_neg hsource]
    show (if entry.id = l.source then entry.point l.output wait else entry).instance? = _
    rw [if_pos hid, NodeEntry.instance?]
    show (Builtin.metadataNamed? entry.name).map _ = _
    rw [hm]
    rfl
  · rw [NodeMetadata.next_overlay hout, ho, htarget]
  · rw [NodeMetadata.next_overlay hout, ho, entry.target_point l.output hname]

/-- Nothing leads to a node that no link leads to. -/
theorem Embodies.unsought (h : Embodies sink c g e) (hunsought : ∀ l ∈ c.links, l.target ≠ wait)
    {id : String} {n : NodeInstance} (hn : c.member? id = some n) : n.next ≠ .ok (some wait) := by
  intro hnext
  rw [h.member?] at hn
  obtain ⟨live, hlive, rfl⟩ := Option.map_eq_some_iff.mp hn
  obtain ⟨registry, -, entry, hentry, hbecomes⟩ := h.becomes (List.mem_of_find?_eq_some hlive)
  obtain ⟨output, hlink⟩ := hbecomes.mem_links hnext
  exact hunsought _ (List.mem_flatMap.mpr ⟨entry, hentry, hlink⟩) rfl

/-- **A wait on a link is a detour**, if its name is new and its delay constant. -/
theorem Embodies.detour (h : Embodies sink c g e) {l : Link} (hl : l ∈ c.links)
    (hname : wait ≠ "") (hnew : wait ∉ c.ids) (hunsought : ∀ l' ∈ c.links, l'.target ≠ wait)
    {text : String} (hdelay : ConstantDelay text delay) :
    c.Detour (c.splice l wait text) l.source l.target wait delay where
  redirected := h.redirected hl hname hnew text
  waits := by
    obtain ⟨-, -, -, -, -, -, -, -, -, htarget⟩ := h.next_of_link hl
    refine ⟨Builtin.Wait.metadata.overlay wait (waitEntry wait text l.target).state, ?_, rfl, ?_,
      readSeconds_waitEntry hdelay wait l.target⟩
    · rw [Context.member?, Context.findNode_splice, Context.findNode_eq_none hnew, if_pos rfl]
      rfl
    · exact congrArg Except.ok (target?_of_ne htarget)
  others id hne hwait := by
    rw [Context.member?, Context.member?, Context.findNode_splice, if_neg (Ne.symm hwait),
      Option.or_none]
    -- any other node is found as before, and is not the one that the link leaves
    cases hother : c.findNode id with
    | none => rfl
    | some entry =>
      rw [Option.map_some, if_neg (Context.id_of_findNode hother ▸ hne)]
  absent := by
    rw [Context.member?, Context.findNode_eq_none hnew]
    rfl
  unsought _ _ hn := h.unsought hunsought hn

end Engine

end Flowgraph
