import Flowgraph.Proofs.Graph.Findings
import Flowgraph.Proofs.Run.Loading
import Flowgraph.Proofs.Run.Renewal

/-!
# Refused loads and findings

A graph that cannot be wired is refused wherever it is loaded. Its load is nothing but the taking
down of the old graph: what it answers is settled by then, and no program of the new graph runs. A
fatal finding is enough for that. The converse does not hold, since wiring looks at more than the
findings do: it asks for a behaviour, for the halves of the fields, and for texts that pass their
checks.

* `Engine.Refuses` — what becomes of the loads of a graph that cannot be wired.
* `Engine.refuses_of_fatal` — a graph with a fatal finding is refused.
* `Engine.wires_iff_sound` — one without is wired exactly if its entries are sound, and the error is
  otherwise about what no finding is about.
-/

namespace Flowgraph.Engine

open Context

variable {registry : Registry Behaviour} {c : Context} {e e' : Engine}

/-! ### Graphs that cannot be wired -/

/-- The wiring of a graph is refused with an error, and so are its loads. -/
structure Refuses (registry : Registry Behaviour) (c : Context) (err : LoadError) : Prop where
  wiring : wire registry c = .error err
  /-- A load takes the old graph down, puts the new one on record and answers with the error, unless
  the record fails, which is answered then. -/
  load : ∀ fuel e, e.registry = registry → e.hooks = none →
    call (fuel + 1) (.load c) e = (replace (exec (call fuel)) {} (announce c e)).bind
      fun _ e' => .returned (.error (e.refusal err)) (e'.entitle (e.generation + 1) c)
  /-- It does answer, if the nodes of the old graph do not keep it from that. -/
  returns : ∀ fuel e, Reachable e → e.registry = registry → e.hooks = none →
    (∀ n ∈ e.liveGraph.nodes, n.behaviour.Uniform) →
    ∃ e', call (fuel + 1) (.load c) e = .returned (.error (e.refusal err)) e'
  /-- The old graph is unloaded, and no node begins to be initialised. -/
  stages : ∀ fuel e e' r, Reachable e → e.registry = registry →
    call fuel (.load c) e = .returned r e' →
    r = .error (e.refusal err) ∧ e'.stages = e.stages ++ unloads e.live e.nodeIds

theorem load_of_wire_error {err : LoadError} (fuel : Nat) (hfree : e.hooks = none)
    (h : wire e.registry c = .error err) :
    load (exec (call fuel)) c e = (replace (exec (call fuel)) {} (announce c e)).bind
      fun _ e' => .returned (.error (e.refusal err)) (e'.entitle (e.generation + 1) c) := by
  have hfree' : ¬ e.hooks.isSome = true := by
    rw [hfree]
    exact Bool.false_ne_true
  have hload : load (exec (call fuel)) c e = _ := if_neg hfree'
  rw [hload]
  refine (replace_ends fuel {} (announce c e)).bind_congr ?_
  rintro g _ ⟨rfl, m, lines, hm, rfl⟩
  have hlive : ((m.release e.live).logAll lines).live = e.graphs.length := by
    rw [(Frame.logAll _ lines).live]
    show m.live = _
    exact live_of_retire (e := announce c e) hm.moves
  -- where the graph would be built, the node types are still the same
  have hregistry := registry_vacated lines hm
  have hbuild : build (exec (call fuel)) c (e.generation + 1) (vacated c e m lines) =
      .returned (.error (.load err)) (vacated c e m lines) := by
    rw [build, hregistry, h]
  show _ = Run.returned (Except.error (e.refusal err)) (vacated c e m lines)
  rw [vacated, entitle, hlive] at hbuild ⊢
  dsimp only
  rw [refusal, ← store_released lines hm.moves]
  split
  · next err' hw =>
    have hw : ((m.release e.live).logAll lines).store.writeError? = some err' := hw
    rw [hw]
    rfl
  · next hw =>
    have hw : ((m.release e.live).logAll lines).store.writeError? = none := hw
    rw [hw]
    show (build (exec (call fuel)) c (e.generation + 1) _).bind _ = _
    exact congrArg (Run.bind · _) hbuild

/-- **A graph that cannot be wired is refused wherever it is loaded.** -/
theorem refuses_of_wire {err : LoadError} (h : wire registry c = .error err) :
    Refuses registry c err where
  wiring := h
  load fuel e hreg hfree := load_of_wire_error fuel hfree (hreg ▸ h)
  returns fuel e he hreg hfree hnodes := by
    have hload : call (fuel + 1) (.load c) e = _ := load_of_wire_error fuel hfree (hreg ▸ h)
    obtain ⟨m, lines, hreplace, -⟩ :=
      replace_returns fuel (e := announce c e) hnodes he.placed.live_lt {}
    rw [hload, hreplace]
    exact ⟨_, rfl⟩
  stages fuel e e' r he hreg hcall := by
    obtain ⟨stages, hstages, hc⟩ := (loaded_of_call hcall).2.concluded he.placed.live_lt
    subst hreg
    -- of the ways in which a load ends only the refusal fits what the wiring gives
    cases hc with
    | unstored hw =>
      refine ⟨?_, hstages⟩
      rw [refusal, hw]
      rfl
    | refused hw hwire =>
      rw [h] at hwire
      cases hwire
      exact ⟨congrArg _ (refusal_of_stored hw err).symm, hstages⟩
    | failed _ _ hwire =>
      rw [h] at hwire
      cases hwire
    | loaded hwire =>
      rw [h] at hwire
      cases hwire

/-! ### Fatal findings -/

/-- **Fatal findings are fatal**: a graph with one of them is refused. -/
theorem refuses_of_fatal (hr : registry.Registered) {f : Finding}
    (hf : f ∈ c.findings (some registry.metadata?)) (hfatal : f.isFatal = true) :
    ∃ err, Refuses registry c err := by
  cases h : wire registry c with
  | error err => exact ⟨err, refuses_of_wire h⟩
  | ok nodes =>
    -- a graph that is wired is well formed, and so without fatal findings
    have hwell := (accepts_iff hr).mp ⟨nodes, h⟩
    have hpasses := (wellFormed_iff.mp hwell).1 f hf
    rw [hfatal] at hpasses
    cases hpasses

/-- The registry that knows greeters only. -/
def greeters : Registry Behaviour := (∅ : StringMap _).insert "greeter" greeter

theorem registered_greeters : greeters.Registered := .register (t := greeter) .empty rfl

/-- A graph of one node, with a link to a node that is not there. -/
def hello : Context := ⟨[⟨"hello", "greeter", greeting⟩]⟩

/-- The graph with that node too, which lacks its text. -/
def helloBye : Context := ⟨[⟨"hello", "greeter", greeting⟩, ⟨"bye", "greeter", {}⟩]⟩

/-- The second node lacks its text, so not even the first is initialised. -/
theorem refuses_speechless : ∃ err, Refuses greeters helloBye err ∧
    ∃ e', call 1 (.load helloBye) (newborn greeters) = .returned (.error (.load err)) e' ∧
      e'.stages = [] := by
  have hfound : .missingRequiredValue "bye" "text" ∈
      helloBye.findings (some greeters.metadata?) := by decide +kernel
  obtain ⟨err, h⟩ := refuses_of_fatal registered_greeters hfound rfl
  have he := reachable_newborn greeters
  -- the graph of an engine that was just made has no nodes that could keep the load from answering
  obtain ⟨e', hcall⟩ := h.returns 0 _ he rfl rfl (List.forall_mem_nil _)
  obtain ⟨-, hstages⟩ := h.stages 1 _ e' _ he rfl hcall
  exact ⟨err, h, e', hcall, hstages⟩

/-! ### Graphs without fatal findings -/

/-- What the wiring does with a graph on which there is no fatal finding. -/
structure Examined (registry : Registry Behaviour) (c : Context) : Prop where
  wires : (∃ nodes, wire registry c = .ok nodes) ↔ ∀ e ∈ c.nodes, e.Sound registry
  /-- If it is refused, then at an entry that is not sound: its type has no behaviour, or a value
  does not fit its field. -/
  refuses : ∀ err, wire registry c = .error err → ∃ e ∈ c.nodes, ¬ e.Sound registry ∧
    ((∃ nodeType, err = .noConstructor e.id nodeType) ∨
      ∃ fault, err = .invalidFieldValue e.id fault)

/-- Without fatal findings the entry that an error names is not sound. -/
theorem not_sound_of_wire (hr : registry.Registered) (h : c.Passes registry) {err : LoadError}
    (hwire : wire registry c = .error err) :
    ∃ e ∈ c.nodes, ¬ e.Sound registry ∧ err.nodeId? = some e.id := by
  obtain ⟨hids, hdeclared⟩ := passes_iff.mp h
  obtain ⟨before, e, after, hnodes, hwell, hnot, hid⟩ := first_of_wire hr hwire
  have hmem : e ∈ c.nodes := by
    rw [hnodes]
    exact List.mem_append_right _ List.mem_cons_self
  refine ⟨e, hmem, ?_, hid⟩
  -- what is in front is well formed, and with a sound entry it would still be
  intro hsound
  apply hnot
  refine ⟨?_, ?_⟩
  · rw [ids, hnodes, List.map_append, List.map_cons] at hids
    rw [ids, List.map_append, List.map_singleton]
    exact hids.sublist ((List.Sublist.refl _).append ((List.nil_sublist _).cons_cons _))
  · intro e' he'
    rcases List.mem_append.mp he' with he' | he'
    · exact hwell.fits e' he'
    · rw [List.mem_singleton.mp he']
      exact NodeEntry.fits_iff.mpr ⟨hdeclared e hmem, hsound⟩

/-- **What the findings leave open**: a graph without fatal findings is wired exactly if all its
entries are sound. -/
theorem examined_of_passes (hr : registry.Registered) (h : c.Passes registry) :
    Examined registry c where
  wires := by
    rw [accepts_iff hr, wellFormed_iff]
    exact ⟨fun hwell => hwell.2, fun hsound => ⟨h, hsound⟩⟩
  refuses err hwire := by
    obtain ⟨e, he, hsound, hid⟩ := not_sound_of_wire hr h hwire
    refine ⟨e, he, hsound, err.unexamined hid ?_⟩
    cases hfinding : err.finding? with
    | none => rfl
    | some f =>
      -- the error would repeat a fatal finding, and there is none
      have hpasses := h f (mem_findings_of_wire hr hfinding hwire)
      rw [LoadError.isFatal_of_finding? hfinding] at hpasses
      cases hpasses

/-- The link that leads nowhere is the only finding on the graph of one node, and the node is wired:
its entry is sound. -/
theorem examined_hello : hello.Passes greeters ∧ ∀ e ∈ hello.nodes, e.Sound greeters := by
  have hfindings : hello.findings (some greeters.metadata?) =
      [.brokenLink "hello" "next" "bye"] := by decide +kernel
  -- a broken link is a finding, but not a fatal one
  have hpasses : hello.Passes greeters := by
    intro f hf
    rw [hfindings] at hf
    rw [List.mem_singleton.mp hf]
    rfl
  have hwired : ∃ nodes, wire greeters hello = .ok nodes := by
    have hok : (wire greeters hello).isOk = true := by decide +kernel
    cases h : wire greeters hello with
    | ok nodes => exact ⟨nodes, rfl⟩
    | error err =>
      rw [h] at hok
      cases hok
  exact ⟨hpasses, (examined_of_passes registered_greeters hpasses).wires.mp hwired⟩

/-- A node type that reads a whole number. -/
def counter : NodeType Behaviour where
  metadata := {
    name := "Count", group := .action, color := .lime
    fields := [{ name := "times", consumer := some { kind := .long } }] }
  behaviour := some {}

/-- A node type that is described only. -/
def sketch : NodeType Behaviour where
  metadata := { name := "Sketch", group := .action, color := .lime }
  behaviour := none

/-- Types of which one counts and one cannot be built. -/
def workshop : Registry Behaviour :=
  ((∅ : StringMap _).insert "Count" counter).insert "Sketch" sketch

/-- A graph of one counter, with what is stored for its field. -/
def counting (s : FieldState) : Context :=
  ⟨[⟨"n", "Count", { fields := StringMap.insert ∅ "times" s }⟩]⟩

/-- The message with which the wiring of a graph is refused. -/
def refusal? (registry : Registry Behaviour) (c : Context) : Option String :=
  match wire registry c with
  | .ok _ => none
  | .error err => some err.message

/-- **Not everything that stops a load is found**: a text that is no number, a variable for a field
that does not publish, and a type without a behaviour. -/
theorem findings_overlook : workshop.Registered ∧
    (counting ⟨some "ten", none⟩).findings (some workshop.metadata?) = [] ∧
    refusal? workshop (counting ⟨some "ten", none⟩) =
      some "Invalid value on node 'n': Invalid long value for field 'times': 'ten'" ∧
    (counting ⟨some "10", some "x"⟩).findings (some workshop.metadata?) = [] ∧
    refusal? workshop (counting ⟨some "10", some "x"⟩) =
      some "Invalid value on node 'n': Field 'times' does not produce a value" ∧
    Context.findings ⟨[⟨"n", "Sketch", {}⟩]⟩ (some workshop.metadata?) = [] ∧
    refusal? workshop ⟨[⟨"n", "Sketch", {}⟩]⟩ =
      some "No constructor for node type 'Sketch' (node 'n')" := by
  have hr : workshop.Registered :=
    .register (t := sketch) (.register (t := counter) .empty rfl) rfl
  refine ⟨hr, ?_⟩
  decide +kernel

end Flowgraph.Engine
