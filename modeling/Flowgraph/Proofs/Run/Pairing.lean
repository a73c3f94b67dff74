import Flowgraph.Proofs.Run.Service

/-!
# Initialised nodes are unloaded

Over the whole life of an engine in service, the nodes that have been initialised are, in this
order, those that have been unloaded and those of the live graph.

The stages of nodes that an engine has seen fall into tenures, one for each graph that was taken
down: its nodes were initialised one after another, perhaps one more failed, and then those that had
been initialised were unloaded one after another. Behind the tenures come the initialisations of the
live graph's nodes. A replacement ends the tenure of the live graph, and may add the tenure of a
graph that never became live (`Chronicle.replaced`); routine adds nothing. Since graphs are numbered
in the order in which they are made, the stages of different graphs do not mix.
-/

namespace Flowgraph

/-- The node that a stage is about. -/
def Stage.node : Stage → NodeRef
  | .initialising n => n
  | .initialised n => n
  | .unloaded n => n

/-- The time of a graph that was taken down. -/
structure Tenure where
  graph : GraphId
  /-- The nodes that were initialised. -/
  ids : List String
  /-- The node whose initialisation failed, if there is one. -/
  failing : Option String

namespace Tenure

/-- The nodes that were initialised. -/
def nodes (t : Tenure) : List NodeRef := t.ids.map (NodeRef.mk t.graph)

/-- The stages that a tenure brings. -/
def stages (t : Tenure) : List Stage :=
  inits t.graph t.ids ++
    ((t.failing.map fun id => Stage.initialising ⟨t.graph, id⟩).toList ++ unloads t.graph t.ids)

/-- No node is initialised twice, and the one that failed is none of the others. -/
def Distinct (t : Tenure) : Prop := (t.ids ++ t.failing.toList).Nodup

end Tenure

/-! ### Stages of one graph -/

section Stages

variable {g : GraphId} {ids : List String}

/-- The stages that bring nodes up. -/
theorem mem_inits {s : Stage} :
    s ∈ inits g ids ↔ ∃ id ∈ ids, s = .initialising ⟨g, id⟩ ∨ s = .initialised ⟨g, id⟩ := by
  simp [inits]

/-- The stages that take nodes down. -/
theorem mem_unloads {s : Stage} : s ∈ unloads g ids ↔ ∃ id ∈ ids, s = .unloaded ⟨g, id⟩ := by
  simp [unloads, eq_comm]

theorem graph_of_mem_inits {s : Stage} (h : s ∈ inits g ids) : s.node.graph = g := by
  obtain ⟨id, -, rfl | rfl⟩ := mem_inits.mp h <;> rfl

theorem Tenure.mem_stages {t : Tenure} {s : Stage} :
    s ∈ t.stages ↔ s ∈ inits t.graph t.ids ∨
      (∃ id, t.failing = some id ∧ .initialising ⟨t.graph, id⟩ = s) ∨
        s ∈ unloads t.graph t.ids := by
  rw [stages, List.mem_append, List.mem_append, Option.mem_toList, Option.map_eq_some_iff]

/-- All stages of a tenure are those of its graph. -/
theorem Tenure.graph_of_mem_stages {t : Tenure} {s : Stage} (h : s ∈ t.stages) :
    s.node.graph = t.graph := by
  rcases mem_stages.mp h with h | ⟨id, -, rfl⟩ | h
  · exact graph_of_mem_inits h
  · rfl
  · obtain ⟨id, -, rfl⟩ := mem_unloads.mp h
    rfl

/-- Distinct nodes are brought up without a stage coming twice. -/
theorem nodup_inits (h : ids.Nodup) : (inits g ids).Nodup := by
  induction ids with
  | nil => exact List.nodup_nil
  | cons id rest ih =>
    obtain ⟨hid, hrest⟩ := List.nodup_cons.mp h
    -- no other node's stages stand at this node
    have hnot : ∀ s : Stage, s.node = ⟨g, id⟩ → s ∉ inits g rest := by
      intro s hs hmem
      obtain ⟨id', hid', rfl | rfl⟩ := mem_inits.mp hmem
      all_goals
        cases hs
        exact hid hid'
    rw [inits_cons, List.nodup_cons, List.nodup_cons, List.mem_cons]
    refine ⟨?_, hnot _ rfl, ih hrest⟩
    rintro (heq | hmem)
    · cases heq
    · exact hnot _ rfl hmem

/-- Distinct nodes are taken down without a stage coming twice. -/
theorem nodup_unloads (h : ids.Nodup) : (unloads g ids).Nodup := by
  refine h.map fun id id' heq => ?_
  cases heq
  rfl

/-- No stage of a tenure comes twice. -/
theorem Tenure.nodup_stages {t : Tenure} (h : t.Distinct) : t.stages.Nodup := by
  obtain ⟨hids, -, hfailing⟩ := List.nodup_append.mp h
  rw [stages, List.nodup_append, List.nodup_append]
  refine ⟨nodup_inits hids, ⟨?_, nodup_unloads hids, ?_⟩, ?_⟩
  · cases t.failing with
    | none => exact List.nodup_nil
    | some id => exact List.nodup_singleton _
  · rintro s hs _ hs' rfl
    obtain ⟨id, -, rfl⟩ := mem_unloads.mp hs'
    rw [Option.mem_toList, Option.map_eq_some_iff] at hs
    obtain ⟨id', -, heq⟩ := hs
    cases heq
  · rintro s hs s' hs' rfl
    obtain ⟨id, hid, hs⟩ := mem_inits.mp hs
    rcases List.mem_append.mp hs' with hs' | hs'
    · -- the node that failed would be one of the others
      rw [Option.mem_toList, Option.map_eq_some_iff] at hs'
      obtain ⟨id', hid', heq⟩ := hs'
      rcases hs with rfl | rfl
      · cases heq
        exact hfailing id hid id (Option.mem_toList.mpr hid') rfl
      · cases heq
    · obtain ⟨id', -, rfl⟩ := mem_unloads.mp hs'
      rcases hs with hs | hs <;> cases hs

/-- A tenure initialises its nodes. -/
theorem Tenure.initialisedIn_stages (t : Tenure) : initialisedIn t.stages = t.nodes := by
  rw [stages, initialisedIn_append, initialisedIn_append, initialisedIn_inits,
    initialisedIn_unloads]
  cases t.failing <;> exact List.append_nil _

/-- A tenure unloads its nodes; the one that failed is none of them. -/
theorem Tenure.unloadedIn_stages (t : Tenure) : unloadedIn t.stages = t.nodes := by
  rw [stages, unloadedIn_append, unloadedIn_append, unloadedIn_inits, unloadedIn_unloads]
  cases t.failing <;> rfl

/-- In a tenure, a node that is unloaded has been initialised before. -/
theorem Tenure.sublist_stages {t : Tenure} {n : NodeRef} (h : .unloaded n ∈ t.stages) :
    List.Sublist [.initialised n, .unloaded n] t.stages := by
  have hmem : n ∈ t.nodes := by
    rw [← t.unloadedIn_stages]
    exact mem_unloadedIn.mpr h
  obtain ⟨id, hid, rfl⟩ := List.mem_map.mp hmem
  have hinit : List.Sublist [.initialised ⟨t.graph, id⟩] (inits t.graph t.ids) :=
    List.singleton_sublist.mpr (mem_inits.mpr ⟨id, hid, .inr rfl⟩)
  have hunload : List.Sublist [.unloaded ⟨t.graph, id⟩] (unloads t.graph t.ids) :=
    List.singleton_sublist.mpr (mem_unloads.mpr ⟨id, hid, rfl⟩)
  exact hinit.append (hunload.trans (List.sublist_append_right _ _))

end Stages

namespace Engine

/-- The nodes of the live graph, in the order of loading. -/
def liveNodes (e : Engine) : List NodeRef := e.nodeIds.map (NodeRef.mk e.live)

/-! ### The chronicle -/

/-- The stages that an engine has seen are those of graphs that were taken down, in the order in
which the graphs were made, and the initialisations of the live nodes. -/
structure Chronicle (e : Engine) (ts : List Tenure) : Prop where
  stages : e.stages = ts.flatMap Tenure.stages ++ inits e.live e.nodeIds
  ascending : ts.Pairwise (·.graph < ·.graph)
  made : ∀ t ∈ ts, t.graph < e.graphs.length
  /-- A graph with nodes is live only after all that were taken down. -/
  before : e.nodeIds ≠ [] → ∀ t ∈ ts, t.graph < e.live
  distinct : ∀ t ∈ ts, t.Distinct
  ids : e.nodeIds.Nodup

variable {e e' : Engine} {ts : List Tenure}

/-- Where the nodes of the live graph are unloaded, its tenure ends. A graph without nodes leaves no
trace. -/
theorem Chronicle.retire (h : Chronicle e ts) (hlt : e.live < e.graphs.length) :
    ∃ ts' : List Tenure, e.stages ++ unloads e.live e.nodeIds = ts'.flatMap Tenure.stages ∧
      ts'.Pairwise (·.graph < ·.graph) ∧ (∀ t ∈ ts', t.graph < e.graphs.length) ∧
      ∀ t ∈ ts', t.Distinct := by
  by_cases hnone : e.nodeIds = []
  · refine ⟨ts, ?_, h.ascending, h.made, h.distinct⟩
    rw [h.stages, hnone]
    exact (List.append_assoc _ _ _).trans (List.append_nil _)
  · let t : Tenure := ⟨e.live, e.nodeIds, none⟩
    -- the tenure of the live graph comes behind all others
    refine ⟨ts ++ [t], ?_, ?_, ?_, ?_⟩
    · rw [h.stages, List.flatMap_append, List.flatMap_singleton, List.append_assoc]
      rfl
    · rw [List.pairwise_append]
      refine ⟨h.ascending, List.pairwise_singleton _ _, fun t' ht' _ hmem => ?_⟩
      rw [List.mem_singleton.mp hmem]
      exact h.before hnone t' ht'
    · rintro t' ht'
      rcases List.mem_append.mp ht' with ht' | ht'
      · exact h.made t' ht'
      · rw [List.mem_singleton.mp ht']
        exact hlt
    · rintro t' ht'
      rcases List.mem_append.mp ht' with ht' | ht'
      · exact h.distinct t' ht'
      · rw [List.mem_singleton.mp ht']
        show (e.nodeIds ++ []).Nodup
        rw [List.append_nil]
        exact h.ids

/-- **A replacement ends the tenure of the live graph**, and adds that of a new graph if this is
given up before it is live. -/
theorem Chronicle.replaced (h : Chronicle e ts) (he : Placed e) (he' : Placed e')
    (hr : Replaced e e') : ∃ ts', Chronicle e' ts' := by
  obtain ⟨ts', hts', hascending, hmade, hdistinct⟩ := h.retire he.live_lt
  have hle : e.graphs.length ≤ e'.graphs.length :=
    Nat.le_of_lt (Nat.lt_of_le_of_lt hr.live he'.live_lt)
  have hmade' : ∀ t ∈ ts', t.graph < e'.graphs.length := fun t ht =>
    Nat.lt_of_lt_of_le (hmade t ht) hle
  obtain ⟨stages, hstages, hhandover⟩ := hr.handover
  cases hhandover with
  | emptied hnodes =>
    -- the empty graph that is live now has no nodes, and so no tenure
    refine ⟨ts', ?_, hascending, hmade', fun hne => absurd hnodes hne, hdistinct, ?_⟩
    · rw [hstages, hts', hnodes]
      exact (List.append_nil _).symm
    · rw [hnodes]
      exact List.nodup_nil
  | @aborted g done failing hnodes hg hg' hids =>
    -- the graph that was given up has had its tenure in between
    let t : Tenure := ⟨g, done, some failing⟩
    refine ⟨ts' ++ [t], ?_, ?_, ?_, fun hne => absurd hnodes hne, ?_, ?_⟩
    · rw [hstages, ← List.append_assoc, hts', hnodes, List.flatMap_append, List.flatMap_singleton]
      exact (List.append_nil _).symm
    · rw [List.pairwise_append]
      refine ⟨hascending, List.pairwise_singleton _ _, fun t' ht' _ hmem => ?_⟩
      rw [List.mem_singleton.mp hmem]
      exact Nat.lt_of_lt_of_le (hmade t' ht') hg
    · rintro t' ht'
      rcases List.mem_append.mp ht' with ht' | ht'
      · exact hmade' t' ht'
      · rw [List.mem_singleton.mp ht']
        exact hg'
    · rintro t' ht'
      rcases List.mem_append.mp ht' with ht' | ht'
      · exact hdistinct t' ht'
      · rw [List.mem_singleton.mp ht']
        exact hids
    · rw [hnodes]
      exact List.nodup_nil
  | loaded hids =>
    -- the tenure of the new live graph goes on, so it is not listed yet
    refine ⟨ts', ?_, hascending, hmade', fun _ t ht => ?_, hdistinct, hids⟩
    · rw [hstages, ← List.append_assoc, hts']
    · exact Nat.lt_of_lt_of_le (hmade t ht) hr.live

/-- Routine adds nothing to a chronicle. -/
theorem Chronicle.routine (h : Chronicle e ts) (hr : Routine e e') : Chronicle e' ts := by
  have hstays := hr.stays
  have hids : e'.nodeIds = e.nodeIds := by
    rw [nodeIds, liveGraph, hstays.live, hstays.nodes]
    rfl
  exact {
    stages := by rw [hr.stages, hstays.live, hids, h.stages]
    ascending := h.ascending
    made := hstays.length.symm ▸ h.made
    before := by rw [hids, hstays.live]; exact h.before
    distinct := h.distinct
    ids := hids ▸ h.ids }

/-- The chronicle of a new engine is empty. -/
theorem chronicle_of_create {config : Config} {registry : Registry Behaviour} {catalog : Catalog}
    {store : Store} {s : Scheduler (Nat → Program)} {pool : Option (Pool Program)}
    {dice : Nat → Float → Float → Float}
    (h : create config registry catalog store (some s) pool dice = .ok e) : Chronicle e [] := by
  obtain ⟨hgraphs, hlive, -, -⟩ := of_create h
  have hids : e.nodeIds = [] := by
    rw [nodeIds, liveGraph, graph, hlive, hgraphs]
    rfl
  -- creating an engine only adds to the log, which tells of no stage
  have hstages : e.stages = [] := by
    simp only [create, Except.ok.injEq] at h
    rw [← h, stages_log, stages_logAll]
    rfl
  exact {
    stages := by rw [hstages, hids]; rfl
    ascending := .nil
    made := List.forall_mem_nil _
    before := fun _ => List.forall_mem_nil _
    distinct := List.forall_mem_nil _
    ids := by rw [hids]; exact List.nodup_nil }

/-- **Every engine in service has a chronicle.** -/
theorem Served.chronicle (h : Served e) : ∃ ts, Chronicle e ts := by
  have hroutine : ∀ {e e' : Engine}, Routine e e' → (∃ ts, Chronicle e ts) →
      ∃ ts, Chronicle e' ts :=
    fun hr ⟨ts, h⟩ => ⟨ts, h.routine hr⟩
  have hreplaced : ∀ {e e' : Engine} {fuel : Nat} {c : Command} {answer : c.Answer}, Served e →
      c.Replaces e → call fuel c e = .returned answer e' → (∃ ts, Chronicle e ts) →
      ∃ ts, Chronicle e' ts := fun he hc hcall ⟨ts, h⟩ =>
    h.replaced he.reachable.placed (he.replaced hc hcall).reachable.placed
      (replaced_of_call he.reachable.placed hc hcall)
  induction h with
  | created h _ => exact ⟨[], chronicle_of_create h⟩
  | replaced he hc h ih => exact hreplaced he hc h ih
  -- a shutdown is a clear and what comes behind it
  | shutdown he h ih =>
    obtain ⟨m, hclear, hend⟩ := he.settled.shutdown (fun hc => hroutine (.chore hc)) he.reachable h
    exact hend (hreplaced (c := .clear) he trivial hclear ih)
  | routine _ h ih => exact hroutine h ih

/-! ### Pairs -/

/-- Initialisations and unloadings are paired. -/
structure Paired (e : Engine) : Prop where
  /-- What has been initialised and has not been unloaded is what is live. -/
  standing : ∀ n, (.initialised n ∈ e.stages ∧ .unloaded n ∉ e.stages) ↔ n ∈ e.liveNodes
  /-- No node comes to a stage twice. -/
  once : e.stages.Nodup
  /-- A node is unloaded only after its initialisation has succeeded. -/
  paired : ∀ n, .unloaded n ∈ e.stages →
    List.Sublist [.initialised n, .unloaded n] e.stages
  /-- Nodes are unloaded in the order in which they were initialised. -/
  inOrder : initialisedIn e.stages = unloadedIn e.stages ++ e.liveNodes
  /-- No stage of a graph comes after one of a later graph. -/
  ordered : e.stages.Pairwise (·.node.graph ≤ ·.node.graph)

/-- The list of stages of one graph after another: what holds between any two of one graph and
between those of an earlier and a later one holds between all. -/
theorem Chronicle.pairwise (h : Chronicle e ts) {R : Stage → Stage → Prop}
    (hone : ∀ t ∈ ts, t.stages.Pairwise R) (hlive : (inits e.live e.nodeIds).Pairwise R)
    (hlt : ∀ s s' : Stage, s.node.graph < s'.node.graph → R s s') : e.stages.Pairwise R := by
  rw [h.stages, List.pairwise_append, List.pairwise_flatMap]
  refine ⟨⟨hone, h.ascending.imp ?_⟩, hlive, ?_⟩
  · intro t t' hlt' s hs s' hs'
    refine hlt s s' ?_
    rwa [t.graph_of_mem_stages hs, t'.graph_of_mem_stages hs']
  · intro s hs s' hs'
    -- with nodes in it the live graph comes after all that were installed before
    obtain ⟨t, ht, hs⟩ := List.mem_flatMap.mp hs
    have hne : e.nodeIds ≠ [] := by
      rintro hnil
      rw [hnil] at hs'
      cases hs'
    refine hlt s s' ?_
    rw [t.graph_of_mem_stages hs, graph_of_mem_inits hs']
    exact h.before hne t ht

/-- Tenures initialise their nodes one after another. -/
theorem initialisedIn_flatMap (ts : List Tenure) :
    initialisedIn (ts.flatMap Tenure.stages) = ts.flatMap Tenure.nodes := by
  induction ts with
  | nil => rfl
  | cons t rest ih =>
    rw [List.flatMap_cons, List.flatMap_cons, initialisedIn_append, ih, t.initialisedIn_stages]

/-- Tenures unload their nodes one after another. -/
theorem unloadedIn_flatMap (ts : List Tenure) :
    unloadedIn (ts.flatMap Tenure.stages) = ts.flatMap Tenure.nodes := by
  induction ts with
  | nil => rfl
  | cons t rest ih =>
    rw [List.flatMap_cons, List.flatMap_cons, unloadedIn_append, ih, t.unloadedIn_stages]

/-- The nodes that were unloaded are those of graphs that were taken down. -/
theorem Chronicle.unloadedIn_eq (h : Chronicle e ts) :
    unloadedIn e.stages = ts.flatMap Tenure.nodes := by
  rw [h.stages, unloadedIn_append, unloadedIn_flatMap, unloadedIn_inits, List.append_nil]

/-- **What was initialised is what was unloaded and what is live**, in this order. -/
theorem Chronicle.inOrder (h : Chronicle e ts) :
    initialisedIn e.stages = unloadedIn e.stages ++ e.liveNodes := by
  rw [h.unloadedIn_eq, h.stages, initialisedIn_append, initialisedIn_flatMap, initialisedIn_inits]
  rfl

/-- No stage comes twice, since no tenure has one twice and graphs differ. -/
theorem Chronicle.once (h : Chronicle e ts) : e.stages.Nodup := by
  refine h.pairwise (fun t ht => Tenure.nodup_stages (h.distinct t ht)) (nodup_inits h.ids) ?_
  rintro s s' hlt rfl
  exact Nat.lt_irrefl _ hlt

/-- Stages follow the numbers of graphs. -/
theorem Chronicle.ordered (h : Chronicle e ts) :
    e.stages.Pairwise (·.node.graph ≤ ·.node.graph) := by
  refine h.pairwise (fun t _ => ?_) ?_ fun s s' hlt => Nat.le_of_lt hlt
  · refine List.pairwise_of_forall_mem_list fun s hs s' hs' => ?_
    exact Nat.le_of_eq ((t.graph_of_mem_stages hs).trans (t.graph_of_mem_stages hs').symm)
  · refine List.pairwise_of_forall_mem_list fun s hs s' hs' => ?_
    exact Nat.le_of_eq ((graph_of_mem_inits hs).trans (graph_of_mem_inits hs').symm)

/-- A node that was unloaded was so in its graph's tenure, behind its initialisation. -/
theorem Chronicle.paired (h : Chronicle e ts) {n : NodeRef} (hn : .unloaded n ∈ e.stages) :
    List.Sublist [.initialised n, .unloaded n] e.stages := by
  rw [h.stages] at hn ⊢
  -- no node of the live graph has been unloaded
  have hts : .unloaded n ∈ ts.flatMap Tenure.stages := by
    rcases List.mem_append.mp hn with hn | hn
    · exact hn
    · obtain ⟨id, -, hs | hs⟩ := mem_inits.mp hn <;> cases hs
  obtain ⟨t, ht, hstages⟩ := List.mem_flatMap.mp hts
  have hsub : List.Sublist t.stages (ts.flatMap Tenure.stages) := by
    obtain ⟨before, after, rfl⟩ := List.append_of_mem ht
    rw [List.flatMap_append, List.flatMap_cons]
    exact (List.sublist_append_left _ _).trans (List.sublist_append_right _ _)
  exact (Tenure.sublist_stages hstages).trans (hsub.trans (List.sublist_append_left _ _))

/-- Since no node is initialised twice, none of those that were unloaded is live. -/
theorem Chronicle.standing (h : Chronicle e ts) (n : NodeRef) :
    (.initialised n ∈ e.stages ∧ .unloaded n ∉ e.stages) ↔ n ∈ e.liveNodes := by
  have hnodup : (initialisedIn e.stages).Nodup := by
    refine h.once.filterMap fun s s' n hs hs' => ?_
    cases s <;> cases s' <;> cases hs <;> cases hs'
    rfl
  rw [← mem_initialisedIn, ← mem_unloadedIn]
  rw [h.inOrder] at hnodup ⊢
  rw [List.mem_append]
  constructor
  · rintro ⟨hinit, hunload⟩
    exact hinit.resolve_left hunload
  · intro hn
    exact ⟨.inr hn, fun hunload => (List.nodup_append.mp hnodup).2.2 n hunload n hn rfl⟩

/-- An engine with a chronicle has its stages in pairs. -/
theorem Chronicle.allPaired (h : Chronicle e ts) : Paired e :=
  ⟨h.standing, h.once, fun _ => h.paired, h.inOrder, h.ordered⟩

/-- What a shutdown does to nodes is what its clearing does. -/
theorem Served.unloaded_of_shutdown (h : Served e) {fuel : Nat} {drained : Bool}
    (hshutdown : Engine.shutdown fuel e = .returned drained e') :
    e'.stages = e.stages ++ unloads e.live e.nodeIds ∧ e'.nodeIds = [] := by
  -- once the graph is cleared, nothing that the shutdown still does tells of a node
  have hchore : ∀ {m m' : Engine}, Chore m m' →
      m.stages = e.stages ++ unloads e.live e.nodeIds ∧ m.nodeIds = [] →
      m'.stages = e.stages ++ unloads e.live e.nodeIds ∧ m'.nodeIds = [] := by
    rintro m m' hc ⟨hstages, hids⟩
    have hstays := Routine.stays (.chore hc)
    refine ⟨hc.stages.trans hstages, ?_⟩
    rw [nodeIds, liveGraph, hstays.live, hstays.nodes]
    exact hids
  obtain ⟨m, hclear, hend⟩ := h.settled.shutdown hchore h.reachable hshutdown
  have hv := vacant_of_clear h.reachable hclear
  exact hend ⟨hv.stages, hv.nodeIds⟩

/-- **Initialisations and unloadings are paired** in every engine in service, and each replacement
unloads the nodes of the graph that was live, all of them and in order, before it initialises any
node. So does a shutdown, which initialises none. -/
theorem Served.inits_and_unloads_paired (h : Served e) :
    Paired e ∧
    (∀ fuel (c : Command) (answer : c.Answer) e', c.Replaces e →
      call fuel c e = .returned answer e' →
      ∃ stages, e'.stages = e.stages ++ stages ∧ Handover e e' stages) ∧
    ∀ fuel drained e', Engine.shutdown fuel e = .returned drained e' →
      e'.stages = e.stages ++ unloads e.live e.nodeIds ∧ e'.nodeIds = [] := by
  obtain ⟨ts, hts⟩ := h.chronicle
  refine ⟨hts.allPaired, ?_, ?_⟩
  · intro fuel c answer e' hc hcall
    exact (replaced_of_call h.reachable.placed hc hcall).handover
  · intro fuel drained e' hshutdown
    exact h.unloaded_of_shutdown hshutdown

/-- A node type whose nodes do nothing of their own. -/
def steady : NodeType Behaviour where
  metadata := { name := "steady", group := .control, color := .sky }
  behaviour := some {}

/-- A new engine is in service. -/
theorem served_newborn (registry : Registry Behaviour) : Served (newborn registry) := by
  have h : create {} registry ∅ .inMemory (some {}) none (fun _ low _ => low) =
      .ok (newborn registry) := rfl
  exact .created h rfl

/-- A graph whose second node fails. The first node is initialised and unloaded again, and the
second is not unloaded. -/
theorem paired_after_fragile : ∃ e : Engine,
    call 2 (.load ⟨[⟨"rock", "steady", {}⟩, ⟨"vase", "fragile", {}⟩]⟩)
      (newborn (((∅ : StringMap _).insert "fragile" fragile).insert "steady" steady)) =
        .returned (.error (.failed "broken")) e ∧
    e.stages = inits 2 ["rock"] ++ .initialising ⟨2, "vase"⟩ :: unloads 2 ["rock"] ∧
    e.liveNodes = [] ∧ Paired e := by
  -- the first node is taken down again, and the second never stood
  obtain ⟨e, hcall, hstages, hlive⟩ : ∃ e : Engine,
      call 2 (.load ⟨[⟨"rock", "steady", {}⟩, ⟨"vase", "fragile", {}⟩]⟩)
        (newborn (((∅ : StringMap _).insert "fragile" fragile).insert "steady" steady)) =
          .returned (.error (.failed "broken")) e ∧
      e.stages = inits 2 ["rock"] ++ .initialising ⟨2, "vase"⟩ :: unloads 2 ["rock"] ∧
      e.liveNodes = [] := ⟨_, rfl, rfl, rfl⟩
  have he : Served e := (served_newborn _).replaced (c := .load _) trivial hcall
  exact ⟨e, hcall, hstages, hlive, he.inits_and_unloads_paired.1⟩

end Engine

end Flowgraph
