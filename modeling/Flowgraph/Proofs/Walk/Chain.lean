import Flowgraph.Proofs.Run.Lawful

/-!
# Chains of executions

A walk enters one node after another. While the program of a node runs it may hand out *forks*:
walks through the same graph that have made as many hops. They are walked at once, or later by a
task or a job, and may be forked again. What is executed on the way to any of these walks is a chain
of *executions*, each of which leads to the next: the walk goes on from the node, or a fork was
handed out there.

* `Execution.Leads` — where an execution may lead, whatever its program is answered.
* `Chain` — the executions on the way from one walk to another. An engine has the chains of those
  before it (`Chain.extends`).
* `Lineage` — a chain from a walk that had made no hop, all of whose executions have happened.
-/

namespace Flowgraph

open Engine

/-- A node that a walk has entered, and the walk as it is then. -/
structure Execution where
  node : LiveNode
  walk : Walk

namespace Execution

/-- The name of the node. -/
def id (x : Execution) : String := x.node.id

/-- What the node does when the walk enters it. -/
def program (x : Execution) : Program := x.node.behaviour.execute x.node.node x.walk

/-- A walk that an execution leads to. -/
inductive Leads (x : Execution) : Walk → Prop
  /-- The walk itself, which goes on from where the program leads it. -/
  | onward {vars : Variables} {next : Option String} (h : x.program.Finishes vars next) :
      Leads x { x.walk with vars := vars, pending := next }
  /-- A fork, which takes over the graph and the number of hops. -/
  | forked {u : Walk} (h : x.program.Asks (.call (.walk u))) (hgraph : u.graph = x.walk.graph)
      (hhops : u.hops = x.walk.hops) : Leads x u

/-- An execution leads on in its graph. -/
theorem Leads.graph {x : Execution} {u : Walk} (h : x.Leads u) : u.graph = x.walk.graph := by
  cases h with
  | onward _ => rfl
  | forked _ hgraph _ => exact hgraph

/-- What an execution leads to has made as many hops. -/
theorem Leads.hops {x : Execution} {u : Walk} (h : x.Leads u) : u.hops = x.walk.hops := by
  cases h with
  | onward _ => rfl
  | forked _ _ hhops => exact hhops

/-- An execution has happened. -/
def RecordedIn (e : Engine) (x : Execution) : Prop := ∃ time, ⟨time, x.id, x.walk⟩ ∈ e.visits

/-- What was recorded stays so. -/
theorem RecordedIn.extends {e e' : Engine} {x : Execution} (h : x.RecordedIn e)
    (he : Extends e e') : x.RecordedIn e' := by
  obtain ⟨time, hmem⟩ := h
  exact ⟨time, he.visits hmem⟩

end Execution

/-- The executions on the way from one walk to another, the earliest first. -/
inductive Chain (e : Engine) (w₀ : Walk) : List Execution → Walk → Prop
  | start : Chain e w₀ [] w₀
  | enter {xs : List Execution} {w u : Walk} {x : Execution} (h : Chain e w₀ xs w)
      (ha : e.arrival w = .entered x.node x.walk) (hu : x.Leads u) : Chain e w₀ (xs ++ [x]) u

/-- What is executed on the way to a walk from one that had made no hop, all of it recorded. -/
structure Lineage (e : Engine) (xs : List Execution) (w : Walk) : Prop where
  chain : ∃ w₀ : Walk, w₀.hops = 0 ∧ Chain e w₀ xs w
  recorded : ∀ x ∈ xs, x.RecordedIn e

/-- An execution behind a list of others, all of them recorded. -/
structure Descends (e : Engine) (xs : List Execution) (x : Execution) : Prop where
  lineage : ∃ w, Lineage e xs w ∧ e.arrival w = .entered x.node x.walk
  recorded : x.RecordedIn e

namespace Engine

variable {e e' : Engine}

/-- A graph that is not there has no node. -/
theorem node?_of_le {g : GraphId} {id : String} (h : e.graphs.length ≤ g) :
    (e.graph g).node? id = none := by
  rw [graph_of_le h]
  rfl

/-- What is entered in an engine is entered in those that come after it. -/
theorem Extends.arrival (h : Extends e e') {w w' : Walk} {n : LiveNode}
    (ha : e.arrival w = .entered n w') : e'.arrival w = .entered n w' := by
  obtain ⟨⟨id, hid, hn⟩, hlimit, rfl⟩ := entered_of_arrival ha
  have hlt : w.graph < e.graphs.length := by
    -- it has a node, so it is there
    refine Nat.lt_of_not_le fun hle => ?_
    rw [node?_of_le hle] at hn
    cases hn
  -- the graph has the nodes that it had
  have hn' : (e'.graph w.graph).node? id = some n := by
    rw [Graph.node?, h.nodes w.graph hlt]
    exact hn
  -- and so is the limit
  have hlimit' : e'.exceeded? (w.hops + 1) = none := by
    rw [exceeded?, h.config]
    exact hlimit
  simp only [Engine.arrival, hid, hn', hlimit']

end Engine

variable {e e' : Engine} {w₀ w : Walk} {xs : List Execution} {x : Execution}

/-- Later engines have the same chains. -/
theorem Chain.extends (h : Chain e w₀ xs w) (he : Extends e e') : Chain e' w₀ xs w := by
  induction h with
  | start => exact .start
  | enter _ ha hu ih => exact ih.enter (he.arrival ha) hu

/-- Later engines have the same lineages. -/
theorem Lineage.extends (h : Lineage e xs w) (he : Extends e e') : Lineage e' xs w := by
  obtain ⟨w₀, hfresh, hchain⟩ := h.chain
  exact ⟨⟨w₀, hfresh, hchain.extends he⟩, fun x hx => (h.recorded x hx).extends he⟩

/-- Later engines have the same descents. -/
theorem Descends.extends (h : Descends e xs x) (he : Extends e e') : Descends e' xs x := by
  obtain ⟨w, hlineage, ha⟩ := h.lineage
  exact ⟨⟨w, hlineage.extends he, he.arrival ha⟩, h.recorded.extends he⟩

/-- A walk that has made no hop begins a lineage. -/
theorem Lineage.fresh (h : w.hops = 0) : Lineage e [] w :=
  ⟨⟨w, h, .start⟩, List.forall_mem_nil _⟩

/-- Where an execution leads its lineage leads, and the execution is a part of it. -/
theorem Descends.leads (h : Descends e xs x) {u : Walk} (hu : x.Leads u) :
    Lineage e (xs ++ [x]) u := by
  obtain ⟨w, hlineage, ha⟩ := h.lineage
  obtain ⟨w₀, hfresh, hchain⟩ := hlineage.chain
  exact ⟨⟨w₀, hfresh, hchain.enter ha hu⟩,
    List.forall_mem_append.mpr ⟨hlineage.recorded, List.forall_mem_singleton.mpr h.recorded⟩⟩

/-! ### Chains stay in their graph -/

/-- All walks of a chain go through one graph. -/
theorem Chain.graph (h : Chain e w₀ xs w) : w.graph = w₀.graph := by
  induction h with
  | start => rfl
  | enter _ ha hu ih =>
    -- entering a node changes the hops and what is pending
    obtain ⟨-, -, hwalk⟩ := entered_of_arrival ha
    rw [hu.graph, hwalk, ← ih]

/-! ### The number of hops -/

/-- The count of hops goes on from zero behind the largest number. -/
theorem toNat_hops_succ_mod (hops : UInt32) : (hops + 1).toNat = (hops.toNat + 1) % UInt32.size :=
  UInt32.toNat_add hops 1

section Hops

variable {limit : Nat} (hlimit : e.config.maxHops = some limit) (hmax : limit < UInt32.size - 1)
include hmax

/-- Below the largest number the count does not wrap around. -/
theorem toNat_hops_succ (hle : w.hops.toNat ≤ limit) :
    (w.hops + 1).toNat = w.hops.toNat + 1 := by
  rw [toNat_hops_succ_mod]
  exact Nat.mod_eq_of_lt (by omega)

include hlimit

/-- A walk that enters a node has made one hop more, and the limit allows it. -/
theorem hops_of_arrival {n : LiveNode} {w' : Walk} (hle : w.hops.toNat ≤ limit)
    (ha : e.arrival w = .entered n w') :
    w'.hops.toNat = w.hops.toNat + 1 ∧ w.hops.toNat + 1 ≤ limit := by
  obtain ⟨-, hbelow, rfl⟩ := entered_of_arrival ha
  have hsucc := toNat_hops_succ hmax hle
  -- it was not turned away, so the limit is not passed
  have hpassed : (w.hops + 1).toNat ≤ limit := by
    rw [exceeded?, hlimit] at hbelow
    simpa using hbelow
  exact ⟨hsucc, hsucc ▸ hpassed⟩

/-- A walk has made as many hops as there are executions behind it, within the limit. -/
theorem Chain.hops (hfresh : w₀.hops = 0) (h : Chain e w₀ xs w) :
    w.hops.toNat = xs.length ∧ xs.length ≤ limit := by
  induction h with
  | start =>
    rw [hfresh]
    exact ⟨rfl, Nat.zero_le _⟩
  | @enter xs w u x _ ha hu ih =>
    obtain ⟨hcount, hle⟩ := ih
    -- entering counts one hop, and what the execution leads to takes the count over
    obtain ⟨hsucc, hpassed⟩ := hops_of_arrival hlimit hmax (hcount ▸ hle) ha
    rw [hu.hops, List.length_append, List.length_singleton, ← hcount]
    exact ⟨hsucc, hpassed⟩

/-- A walk has made as many hops as there are executions on the way to it. -/
theorem Lineage.hops (h : Lineage e xs w) : w.hops.toNat = xs.length ∧ xs.length ≤ limit := by
  obtain ⟨w₀, hfresh, hchain⟩ := h.chain
  exact hchain.hops hlimit hmax hfresh

end Hops

end Flowgraph
