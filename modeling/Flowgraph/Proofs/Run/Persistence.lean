import Flowgraph.Proofs.Run.Independence
import Flowgraph.Proofs.Store.Blobs

/-!
# The stored graph

A load writes its graph to the store before it builds it, and nothing else writes there. So after
whatever has happened the store holds the graph of the latest load, whether that load came off or
not, and a clearing takes the live graph away but leaves the stored one.

`Past` goes along with an engine over the built-in node types and notes down the latest load. It
takes loads and clearings as steps of their own wherever they come from, from the host or from a
program in the middle of its run; between them there are chores, and the host writes blobs.

* `Past.asNoted` — what is known of an engine by its past.
* `Past.dealing` — the host's dealings make such steps only.
* `persists_of_past` — what the store keeps of an engine's past, and what can be loaded from it.

That a load can be made again rests on `loads_level`: its result and its nodes depend on nothing but
its circumstances, and of these the clock is the one that moves.
-/

namespace Flowgraph

/-- A load that returned. -/
structure LoadRecord where
  context : Context
  result : Except WorkflowError Unit
  /-- When it was asked for. -/
  time : Nat
  /-- The nodes that were live afterwards. -/
  nodes : List LiveNode

/-- What is noted down of an engine's past. -/
structure History where
  /-- The store that the engine was made with. -/
  original : Store
  latest : Option LoadRecord := none
  /-- Whether there was a clearing after the latest load. -/
  cleared : Bool := false

namespace History

/-- A load is added; it is the latest now. -/
def load (p : History) (l : LoadRecord) : History := { p with latest := some l, cleared := false }

/-- A clearing is added. -/
def clear (p : History) : History := { p with cleared := true }

/-- What the store's graph should read as. -/
def stored (p : History) : Except WorkflowError Context :=
  match p.latest with
  | none => p.original.readContext
  | some l => .ok l.context

/-- What the graph of the engine should be. -/
def context (p : History) : Context := if p.cleared then {} else p.latest.elim {} (·.context)

end History

namespace Engine

variable {sink : Builtin.Sink} {c : Context} {e e' : Engine} {p : History}

/-- **What engines over the built-in node types have gone through**, with fixed node types and event
types, and with a store that nothing else writes to. -/
inductive Past (sink : Builtin.Sink) : Engine → History → Prop
  /-- The store may hold anything at first, but it takes what is written to it. -/
  | created {config : Config} {registry : Registry Behaviour} {catalog : Catalog} {store : Store}
      {s : Scheduler (Nat → Program)} {pool : Option (Pool Program)}
      {dice : Nat → Float → Float → Float} {e : Engine}
      (h : create config registry catalog store (some s) pool dice = .ok e) (hs : s.tasks = [])
      (ht : registry.IsBuiltin sink) (hstore : store.Reliable) : Past sink e { original := store }
  | loaded {e e' : Engine} {p : History} {fuel : Nat} {c : Context}
      {r : Except WorkflowError Unit} (hpast : Past sink e p)
      (h : call fuel (.load c) e = .returned r e') :
      Past sink e' (p.load ⟨c, r, e.now, e'.liveGraph.nodes⟩)
  /-- The graph that was read from the store counts as the graph of the load. -/
  | restored {e e' : Engine} {p : History} {fuel : Nat} {c : Context}
      {r : Except WorkflowError Unit} (hpast : Past sink e p) (hread : e.store.readContext = .ok c)
      (h : call fuel .restore e = .returned r e') :
      Past sink e' (p.load ⟨c, r, e.now, e'.liveGraph.nodes⟩)
  | cleared {e e' : Engine} {p : History} {fuel : Nat} (hpast : Past sink e p)
      (h : call fuel .clear e = .returned () e') : Past sink e' p.clear
  | chore {e e' : Engine} {p : History} (hpast : Past sink e p) (h : Chore e e') : Past sink e' p
  | wrote {e : Engine} {p : History} (hpast : Past sink e p) (b : Blob) (j : Json) :
      Past sink { e with store := e.store.writeBlob b j } p

/-! ### What replacements write -/

/-- To build a graph leaves the store alone. -/
theorem Built.store {generation : Nat} {v : Engine} {r : Except WorkflowError Unit}
    (h : Built c generation v r e') : e'.store = v.store := by
  cases h with
  | refused _ => rfl
  | failed _ ht _ => exact (ht.moves rfl).frame.store
  | live _ ht _ => exact (ht.moves rfl).frame.store

/-- **A load writes its graph to the store**, however it ends. -/
theorem Loaded.store {r : Except WorkflowError Unit} (h : Loaded c e r e') :
    e'.store = e.store.writeContext c := by
  cases h with
  | unstored hm _ => exact store_vacated _ hm.moves
  | failed hm _ hb => exact hb.store.trans (store_vacated _ hm.moves)
  | done hm _ hb =>
    rw [(Frame.logAll _ _).store]
    exact hb.store.trans (store_vacated _ hm.moves)

/-- The live graph after a load is that of the load, however it ended. -/
theorem Loaded.titled {r : Except WorkflowError Unit} (hlt : e.live < e.graphs.length)
    (h : Loaded c e r e') : e'.context = c ∧ e'.generation = e.generation + 1 := by
  cases r with
  | error err =>
    obtain ⟨hlive, -, -, hgraph, -⟩ := h.failure hlt
    rw [Engine.context, Engine.generation, liveGraph, hlive, hgraph]
    exact ⟨rfl, rfl⟩
  | ok _ =>
    cases h with
    | done hm _ hb =>
      cases hb with
      | live _ ht _ =>
        -- what its nodes did while they were initialised changes neither number nor context
        have hgraph := graph_promote (ht.moves rfl) (live_lt_vacated _ hm.moves)
        rw [logAll_eq]
        exact ⟨hgraph.context, hgraph.generation⟩

/-- To clear leaves the store alone. -/
theorem Cleared.store (h : Cleared e e') : e'.store = e.store := by
  cases h with
  | mk hm =>
    rw [(Frame.logAll _ _).store]
    exact hm.moves.frame.store

/-- What is live after a clearing describes nothing. -/
theorem Vacant.titled (h : Vacant e e') : e'.context = {} ∧ e'.generation = e.generation + 1 := by
  rw [Engine.context, Engine.generation, liveGraph, h.live, h.graph]
  exact ⟨rfl, rfl⟩

/-! ### What chores leave alone -/

/-- A chore leaves the store alone. -/
theorem Chore.store (h : Chore e e') : e'.store = e.store := by
  cases h with
  | quiet h => exact h.move.frame.store
  | pulse h => cases h <;> rfl

/-- A chore leaves what the live graph was loaded from. -/
theorem Chore.graph (h : Chore e e') : e.liveGraph.Follows e'.liveGraph := by
  cases h with
  | quiet h =>
    have hframe := h.move.frame
    rw [liveGraph, liveGraph, hframe.live]
    exact hframe.graph e.live
  | pulse h =>
    rw [liveGraph, liveGraph, h.sameGraphs.live, h.sameGraphs.graph_eq]
    exact .refl _

/-- Of the circumstances, chores change the time only. -/
theorem Chore.circumstances (h : Chore e e') :
    e'.circumstances = { e.circumstances with now := e'.now } := by
  cases h with
  | quiet h =>
    have hkept := h.move.circumstances
    exact hkept.trans (congrArg (fun n => { e.circumstances with now := n })
      (congrArg Circumstances.now hkept).symm)
  | pulse h => cases h <;> rfl

/-! ### The latest load -/

/-- A load was made in an engine in service, and in the given circumstances but for the time, and
its graph was stored. -/
def MadeIn (circumstances : Circumstances) (l : LoadRecord) : Prop :=
  ∃ e fuel e', Served e ∧ Uniform e ∧ e.circumstances = { circumstances with now := l.time } ∧
    e.store.writeError? = none ∧ call fuel (.load l.context) e = .returned l.result e' ∧
    e'.liveGraph.nodes = l.nodes

/-- What was made does not depend on how late it is now. -/
theorem MadeIn.later {s s' : Circumstances} {l : LoadRecord} {time : Nat} (h : MadeIn s l)
    (hs : s' = { s with now := time }) : MadeIn s' l := by
  rw [hs]
  exact h

/-- Level engines have the same live nodes. -/
theorem Level.nodes {v v' : Vantage} (h : Level v v' e e') :
    e.liveGraph.nodes = e'.liveGraph.nodes := by
  have hnodes := h.alike.graph.nodes
  rw [← h.live, ← h.live'] at hnodes
  exact hnodes

/-- **A load can be made again**: at the same time it has the same result and leaves the same
nodes. -/
theorem MadeIn.again {l : LoadRecord} (h : MadeIn e.circumstances l) (he : Served e)
    (hu : Uniform e) (hw : e.store.writeError? = none) (hnow : e.now = l.time) (fuel : Nat) :
    ∃ e', call (fuel + 1) (.load l.context) e = .returned l.result e' ∧
      e'.liveGraph.nodes = l.nodes := by
  obtain ⟨e₀, fuel₀, e₀', he₀, hu₀, hsame, hw₀, hload₀, hnodes⟩ := h
  -- at the time of the load these are the circumstances it was made in
  rw [← hnow] at hsame
  cases fuel₀ with
  | zero => cases hload₀
  | succ fuel₀ =>
    obtain ⟨r, m, m', hm, hm', _, _, hlevel⟩ :=
      loads_level fuel₀ fuel he₀ he hu₀ hu hsame (hw₀.trans hw.symm) l.context
    -- with its fuel the load that was made is the one that is compared with
    obtain ⟨rfl, rfl⟩ : r = l.result ∧ m = e₀' := by
      rw [hload₀] at hm
      cases hm
      exact ⟨rfl, rfl⟩
    exact ⟨m', hm', hlevel.nodes.symm.trans hnodes⟩

/-! ### Along a past -/

/-- What is known of an engine by its past. -/
structure AsNoted (e : Engine) (p : History) : Prop where
  served : Served e
  uniform : Uniform e
  reliable : e.store.Reliable
  stored : e.store.readContext = p.stored
  context : e.context = p.context
  made : ∀ l, p.latest = some l → MadeIn e.circumstances l

/-- The live graph is there. -/
theorem AsNoted.live_lt (h : AsNoted e p) : e.live < e.graphs.length :=
  h.served.reachable.placed.live_lt

/-- A load is noted. -/
theorem AsNoted.loaded (h : AsNoted e p) {fuel : Nat} {r : Except WorkflowError Unit}
    (hload : call fuel (.load c) e = .returned r e') :
    AsNoted e' (p.load ⟨c, r, e.now, e'.liveGraph.nodes⟩) := by
  have hl := (loaded_of_call hload).2
  have hw := h.reliable.writeError?
  have hstored : e'.store.readContext = .ok c := by
    rw [hl.store]
    exact Store.readContext_writeContext hw c
  refine ⟨h.served.replaced (c := .load c) trivial hload, h.uniform.loaded h.live_lt hl,
    hl.store ▸ h.reliable.writeFile _ _, hstored, (hl.titled h.live_lt).1, ?_⟩
  · -- the load that was just made is its own example
    rintro _ ⟨⟩
    have hsame : e.circumstances = { e'.circumstances with now := e.now } := by
      rw [hl.circumstances]
      rfl
    exact ⟨e, fuel, e', h.served, h.uniform, hsame, hw, hload, rfl⟩

/-- A clearing is noted. -/
theorem AsNoted.cleared (h : AsNoted e p) {fuel : Nat}
    (hclear : call fuel .clear e = .returned () e') : AsNoted e' p.clear := by
  have hv := vacant_of_clear h.served.reachable hclear
  cases fuel with
  | zero => cases hclear
  -- the store is left alone, so the graph is noted as it was
  | succ fuel =>
    have hcleared := (cleared_of_clear fuel hclear).2
    exact {
      served := h.served.replaced (c := .clear) trivial hclear
      uniform := h.uniform.cleared h.live_lt hcleared
      reliable := hcleared.store ▸ h.reliable
      stored := by rw [hcleared.store, h.stored]; rfl
      context := hv.titled.1
      made := fun l hl => hcleared.circumstances ▸ h.made l hl }

/-- Of a chore there is nothing to note. -/
theorem AsNoted.chore (h : AsNoted e p) (hchore : Chore e e') : AsNoted e' p where
  served := h.served.routine (.chore hchore)
  uniform := h.uniform.routine (.chore hchore) (hchore.registry ▸ h.uniform.registry)
  reliable := hchore.store ▸ h.reliable
  stored := by rw [hchore.store, h.stored]
  context := hchore.graph.context.trans h.context
  made l hl := (h.made l hl).later hchore.circumstances

/-- Blobs are kept apart from the graph. -/
theorem AsNoted.wrote (h : AsNoted e p) (b : Blob) (j : Json) :
    AsNoted { e with store := e.store.writeBlob b j } p where
  served := h.served.routine (.supply (.store e _))
  uniform := h.uniform.routine (.supply (.store e _)) h.uniform.registry
  reliable := h.reliable.writeFile _ _
  stored := (e.store.readContext_writeBlob b j).trans h.stored
  context := h.context
  made := h.made

/-- Of a new engine nothing is noted but its store. -/
theorem asNoted_created {config : Config} {registry : Registry Behaviour} {catalog : Catalog}
    {store : Store} {s : Scheduler (Nat → Program)} {pool : Option (Pool Program)}
    {dice : Nat → Float → Float → Float}
    (h : create config registry catalog store (some s) pool dice = .ok e) (hs : s.tasks = [])
    (ht : registry.IsBuiltin sink) (hstore : store.Reliable) :
    AsNoted e { original := store } := by
  have hnew := (Hosted.created h hs ht).served
  obtain ⟨hgraphs, hlive, -⟩ := of_create h
  refine ⟨hnew.1, hnew.2, (store_of_create h).symm ▸ hstore, ?_, ?_, nofun⟩
  · rw [store_of_create h]
    rfl
  · rw [Engine.context, liveGraph, graph, hgraphs, hlive]
    rfl

/-- A load of the stored graph is a load of what the store reads as. -/
theorem call_restore (fuel : Nat) (hread : e.store.readContext = .ok c) :
    call fuel .restore e = call fuel (.load c) e := by
  cases fuel with
  | zero => rfl
  | succ fuel =>
    show restore (exec (call fuel)) e = load (exec (call fuel)) c e
    rw [restore, hread]

/-- Where the stored graph cannot be read, nothing is replaced, and nothing is changed at all. -/
theorem call_restore_of_error (fuel : Nat) {err : WorkflowError}
    (hread : e.store.readContext = .error err) :
    call (fuel + 1) .restore e = .returned (.error err) e := by
  show restore (exec (call fuel)) e = _
  rw [restore, hread]

/-- **What is known of an engine by its past.** -/
theorem Past.asNoted (h : Past sink e p) : AsNoted e p := by
  induction h with
  | created h hs ht hstore => exact asNoted_created h hs ht hstore
  | loaded _ h ih => exact ih.loaded h
  | @restored e e' p fuel c r _ hread h ih =>
    -- from here on it is a load like any other
    rw [call_restore fuel hread] at h
    exact ih.loaded h
  | cleared _ h ih => exact ih.cleared h
  | chore _ h ih => exact ih.chore h
  | wrote _ b j ih => exact ih.wrote b j

/-! ### The host's dealings -/

/-- Where a past goes on from an engine; it is the same as long as no graph is replaced. -/
def Onward (sink : Builtin.Sink) (e : Engine) (p : History) (m : Engine) : Prop :=
  ∃ p', Past sink m p' ∧ e.generation ≤ m.generation ∧ (m.generation = e.generation → p' = p)

/-- A chore leads on without a note. -/
theorem Onward.chore {m m' : Engine} (h : Onward sink e p m) (hchore : Chore m m') :
    Onward sink e p m' := by
  obtain ⟨p', hpast, hle, hp⟩ := h
  have hgeneration : m'.generation = m.generation := hchore.graph.generation
  rw [← hgeneration] at hle hp
  exact ⟨p', hpast.chore hchore, hle, hp⟩

/-- A replacement gives the graph a new number, so nothing is said of the past from there on. -/
theorem Onward.replaced {m m' : Engine} {q : History} (h : Onward sink e p m)
    (hpast : Past sink m' q) (hgeneration : m'.generation = m.generation + 1) :
    Onward sink e p m' := by
  obtain ⟨-, -, hle, -⟩ := h
  exact ⟨q, hpast, by omega, fun heq => by omega⟩

/-- In the middle of a past loads return, and the past goes on with them. -/
theorem Past.load_returns (h : Past sink e p) (fuel : Nat) (c : Context) :
    ∃ r e', call (fuel + 1) (.load c) e = .returned r e' ∧
      Past sink e' (p.load ⟨c, r, e.now, e'.liveGraph.nodes⟩) := by
  have hb := h.asNoted
  obtain ⟨r, e', hload⟩ := hb.uniform.load_returns fuel hb.live_lt hb.served.settled.hooks c
  have hcall : call (fuel + 1) (.load c) e = .returned r e' := hload
  exact ⟨r, e', hcall, h.loaded hcall⟩

/-- A clearing returns, and leads to another past. -/
theorem Past.clear_returns (h : Past sink e p) (fuel : Nat) :
    ∃ e', call (fuel + 1) .clear e = .returned () e' ∧ Past sink e' p.clear := by
  have hb := h.asNoted
  obtain ⟨e', hclear⟩ := hb.uniform.clear_returns fuel hb.live_lt hb.served.settled.hooks
  have hcall : call (fuel + 1) .clear e = .returned () e' := hclear
  exact ⟨e', hcall, h.cleared hcall⟩

/-- Whatever a command ends in is a past to go on from. -/
theorem Onward.call (fuel : Nat) (command : Command) (m : Engine) (h : Onward sink e p m) :
    (call fuel command m).Ends (fun _ => Onward sink e p) (Onward sink e p) := by
  refine call_ends (P := Onward sink e p) (fun hq h => h.chore (.quiet hq))
    (fun fuel c m h => ?_) (fun fuel m h => ?_) fuel command m h
  · have ⟨q, hpast, _⟩ := h
    obtain ⟨r, m', hload, hpast'⟩ := hpast.load_returns fuel c
    -- whether it succeeds or not, it is noted
    have hload' : load (exec (Engine.call fuel)) c m = .returned r m' := hload
    rw [hload']
    exact h.replaced hpast' ((loaded_of_call hload).2.titled hpast.asNoted.live_lt).2
  · have ⟨q, hpast, _⟩ := h
    obtain ⟨m', hclear, hpast'⟩ := hpast.clear_returns fuel
    have hclear' : clear (exec (Engine.call fuel)) m = .returned () m' := hclear
    rw [hclear']
    exact h.replaced hpast' (vacant_of_clear hpast.asNoted.served.reachable hclear).titled.2

/-- **The host's dealings make steps of a past only.** -/
theorem Past.dealing (h : Past sink e p) (hd : Dealing e e') :
    ∃ p', Past sink e' p' ∧ (e'.generation = e.generation → p' = p) := by
  -- what is not a command is made up of chores, and the commands are loads and clearings in turn
  have hkeeps : Working (Onward sink e p) :=
    working_of_chores (fun hchore h => h.chore hchore) Onward.call
  obtain ⟨p', hpast, -, hp⟩ := hkeeps.dealing hd ⟨p, h, Nat.le_refl _, fun _ => rfl⟩
  exact ⟨p', hpast, hp⟩

/-! ### What persists -/

/-- What the store keeps of a past, and what can be loaded from it. -/
structure Persists (sink : Builtin.Sink) (e : Engine) (p : History) : Prop where
  /-- Once there was a load its graph is what the store reads as. -/
  stored : ∀ l, p.latest = some l → e.store.readContext = .ok l.context
  untouched : p.latest = none → e.store.readContext = p.original.readContext
  context : ∀ l, p.latest = some l → p.cleared = false → e.context = l.context
  empty : p.latest = none ∨ p.cleared = true → e.context = {}
  loads : ∀ fuel c, ∃ r e', call (fuel + 1) (.load c) e = .returned r e' ∧
    Past sink e' (p.load ⟨c, r, e.now, e'.liveGraph.nodes⟩)
  /-- While the clock stands still, the stored graph is loaded as it was before. -/
  restores : ∀ l, p.latest = some l → e.now = l.time → ∀ fuel, ∃ e',
    call (fuel + 1) .restore e = .returned l.result e' ∧ e'.liveGraph.nodes = l.nodes
  again : ∀ l, p.latest = some l → e.now = l.time → ∀ fuel, ∃ e₁ e₂,
    call (fuel + 1) .clear e = .returned () e₁ ∧ e₁.nodeIds = [] ∧
      call (fuel + 1) .restore e₁ = .returned l.result e₂ ∧ e₂.liveGraph.nodes = l.nodes
  /-- A text that is no graph is refused, and the engine is the same as before. -/
  unparsed : ∀ text, e.store.readFile Store.contextFile = .ok text → Context.read? text = none →
    ∀ fuel, call (fuel + 1) .restore e = .returned (.error .serialization) e
  unreadable : ∀ err, e.store.readContext = .error err →
    ∀ fuel, call (fuel + 1) .restore e = .returned (.error err) e
  /-- Whatever the host asks for, there is a past that this holds of again. It notes down another
  load or a clearing only where the number of the graph has changed. -/
  goesOn : ∀ e', Dealing e e' → ∃ p', Past sink e' p' ∧ (e'.generation = e.generation → p' = p)

/-- The load that was noted last ends in the same way when it is made again. -/
theorem AsNoted.restores (h : AsNoted e p) {l : LoadRecord} (hl : p.latest = some l)
    (hnow : e.now = l.time) (fuel : Nat) :
    ∃ e', call (fuel + 1) .restore e = .returned l.result e' ∧ e'.liveGraph.nodes = l.nodes := by
  have hread : e.store.readContext = .ok l.context := by
    rw [h.stored, History.stored, hl]
  rw [call_restore _ hread]
  exact (h.made l hl).again h.served h.uniform h.reliable.writeError? hnow fuel

/-- **The stored graph follows the loads**, and it can be loaded again. -/
theorem persists_of_past (h : Past sink e p) : Persists sink e p := by
  have hb := h.asNoted
  exact {
    stored := fun l hl => by rw [hb.stored, History.stored, hl]
    untouched := fun hnone => by rw [hb.stored, History.stored, hnone]
    context := fun l hl hcleared => by
      rw [hb.context, History.context, hl, hcleared]
      rfl
    empty := fun hempty => by
      rw [hb.context, History.context]
      rcases hempty with hnone | hcleared
      · rw [hnone]
        exact ite_self _
      · exact if_pos hcleared
    loads := h.load_returns
    restores := fun l hl hnow => hb.restores hl hnow
    again := fun l hl hnow fuel => by
      obtain ⟨e₁, hclear, hpast⟩ := h.clear_returns fuel
      have hcleared := (cleared_of_clear fuel hclear).2
      -- a clearing takes no time, and it leaves the latest load noted down
      have hnow₁ : e₁.now = l.time :=
        (congrArg Circumstances.now hcleared.circumstances).trans hnow
      obtain ⟨e₂, hrestore, hnodes⟩ := hpast.asNoted.restores hl hnow₁ fuel
      exact ⟨e₁, e₂, hclear, (hcleared.vacant hb.live_lt).nodeIds, hrestore, hnodes⟩
    unparsed := fun text htext hparse fuel =>
      call_restore_of_error fuel (by rw [Store.readContext, htext]; dsimp only; rw [hparse])
    unreadable := fun err hread fuel => call_restore_of_error fuel hread
    goesOn := fun e' hd => h.dealing hd }

/-- A new engine has loaded a graph, then a blob was written, and then the graph was cleared. -/
theorem persists_doorbell : ∃ m e p, call 1 (.load ⟨[doorbell]⟩) attentive = .returned (.ok ()) m ∧
    (m.liveGraph.bus.listeners (.ofType "PlayerJoin")).length = 1 ∧
    call 1 .clear { m with store := m.store.writeBlob .data (.array []) } = .returned () e ∧
    p = (History.load { original := .inMemory }
      ⟨⟨[doorbell]⟩, .ok (), 0, m.liveGraph.nodes⟩).clear ∧
    Past .toLog e p ∧ Persists .toLog e p := by
  have hcreate : create {} attentive.registry .sample .inMemory (some {}) none
      (fun _ low _ => low) = .ok attentive := rfl
  have hnew : Past .toLog attentive { original := .inMemory } :=
    .created hcreate rfl isBuiltin_attentive Store.reliable_inMemory
  obtain ⟨r, m, hload, hpast⟩ := hnew.load_returns 0 ⟨[doorbell]⟩
  have haudience : audience? (.ofType "PlayerJoin") (call 1 (.load ⟨[doorbell]⟩) attentive) =
      some 1 := by decide +kernel
  rw [hload] at haudience
  cases r with
  | error err => cases haudience
  | ok _ =>
    -- a blob is written in between, which is no matter of the graph
    obtain ⟨e, hclear, hpast'⟩ := (hpast.wrote .data (.array [])).clear_returns 0
    exact ⟨m, e, _, hload, Option.some.inj haudience, hclear, rfl, hpast', persists_of_past hpast'⟩

end Engine

end Flowgraph
