import Flowgraph.Proofs.Graph.Cycle
import Flowgraph.Proofs.Graph.Findings
import Mathlib.Data.Fintype.Card
import Mathlib.Data.Set.Finite.List
import Mathlib.Order.WellFounded

/-!
# Cycles that are found

The search for cycles takes vertices away until none is free. Of the vertices that are left then,
each is led to from another one that is left. So a path through them can be followed backwards for
ever, and since there are finitely many of them it comes back to itself: what the search leaves over
is a cycle and what leads on from it. Conversely a vertex on a cycle is never free before it has
been taken away itself.

The search lowers a number for every edge that it takes away, and it is bounded by the number of
vertices. Neither ever matters: `peelStrict` is the same search, which gives up when a number would
fall below zero or when the bound is reached with a vertex still free, and it never gives up.

* `Context.Leads`, `Context.Cyclic` — edges and cycles, said without the search.
* `Graph.peeled_lt_iff` — some vertex is left over exactly if there is a cycle, in whatever order
  the search begins.
* `Context.cycles_found` — **a cycle is reported, once, exactly if there is one**.
-/

namespace Flowgraph

/-! ### Cycles -/

/-- Some output of a node leads to a node that is there. -/
def Context.Leads (c : Context) (a b : String) : Prop :=
  a ∈ c.ids ∧ b ∈ c.ids ∧ ∃ output, ⟨a, output, b⟩ ∈ c.links

/-- Some node is reached again from itself. -/
def Context.Cyclic (c : Context) : Prop := ∃ v, Relation.TransGen c.Leads v v

/-- Where a vertex of a finite graph is led to from each vertex of a set, the set holds a cycle. -/
theorem exists_transGen_self {vs : List String} {edge : String → String → Prop}
    {left : String → Prop} (hvs : ∀ v, left v → v ∈ vs) (hne : ∃ v, left v)
    (hback : ∀ v, left v → ∃ u, left u ∧ edge u v) : ∃ v, Relation.TransGen edge v v := by
  by_contra hacyclic
  -- without a cycle, reaching is a well-founded relation on the finitely many vertices
  let reaches : {v // v ∈ vs} → {v // v ∈ vs} → Prop := fun a b => Relation.TransGen edge a b
  have : IsTrans _ reaches := ⟨fun _ _ _ hab hbc => Relation.TransGen.trans hab hbc⟩
  have : Std.Irrefl reaches := ⟨fun v hv => hacyclic ⟨v, hv⟩⟩
  have : Finite {v // v ∈ vs} := (List.finite_toSet vs).to_subtype
  have hwf : WellFounded reaches := Finite.wellFounded_of_trans_of_irrefl reaches
  -- so some vertex of the set is reached from no other one
  obtain ⟨v, hv⟩ := hne
  obtain ⟨least, hleast, hmin⟩ := hwf.has_min {a | left a} ⟨⟨v, hvs v hv⟩, hv⟩
  obtain ⟨u, hu, hedge⟩ := hback least hleast
  exact hmin ⟨u, hvs u hu⟩ hu (.single hedge)

namespace Graph

variable {vs : List String} {es : List (String × String)} {taken free : List String}
  {degrees : Degrees}

/-! ### What is left over -/

/-- When no vertex is free any more, an edge leads to each vertex that is left from another one. -/
theorem Stage.exists_source (h : Stage vs es taken degrees []) {v : String} (hv : v ∈ vs)
    (hleft : v ∉ taken) : ∃ p ∈ es, p.2 = v ∧ p.1 ∉ taken := by
  have hpos : 0 < remaining es taken v := by
    refine Nat.pos_of_ne_zero fun hzero => ?_
    have hfree := (h.mem_free v).mpr ⟨hv, hleft, hzero⟩
    cases hfree
  exact remaining_pos_iff.mp hpos

/-- Along a path whose end was taken away, each vertex was taken away before the next one. -/
theorem Ordered.idxOf_lt_of_transGen (h : Ordered es taken) {a b : String}
    (hpath : Relation.TransGen (fun a b => (a, b) ∈ es) a b) (hb : b ∈ taken) :
    a ∈ taken ∧ taken.idxOf b < taken.idxOf a := by
  induction hpath with
  | single hedge => exact ⟨h.source_mem hedge hb, h.idxOf_lt hedge hb⟩
  | tail _ hedge ih =>
    obtain ⟨ha, hlt⟩ := ih (h.source_mem hedge hb)
    exact ⟨ha, (h.idxOf_lt hedge hb).trans hlt⟩

/-- **The search leaves a vertex over exactly if there is a cycle**, in whatever order the vertices
are given to it. -/
theorem peeled_lt_iff (hvs : vs.Nodup) (hes : ∀ p ∈ es, p.1 ∈ vs ∧ p.2 ∈ vs) :
    peeled es vs < vs.length ↔ ∃ v, Relation.TransGen (fun a b => (a, b) ∈ es) v v := by
  obtain ⟨taken, degrees, h, hlen⟩ := peeled_stage es hvs
  rw [← hlen]
  constructor
  · intro hlt
    -- the vertices that are left over
    let left : String → Prop := fun v => v ∈ vs ∧ v ∉ taken
    have hvertices : ∀ v, left v → v ∈ vs := fun v hv => hv.1
    refine exists_transGen_self hvertices ?_ ?_
    · by_contra hnone
      have hsub : vs ⊆ taken := by
        intro v hv
        by_contra hleft
        exact hnone ⟨v, hv, hleft⟩
      exact Nat.not_le.mpr hlt (List.subperm_of_subset hvs hsub).length_le
    · rintro v ⟨hv, hleft⟩
      obtain ⟨p, hp, rfl, hsource⟩ := h.exists_source hv hleft
      exact ⟨p.1, ⟨(hes p hp).1, hsource⟩, hp⟩
  · rintro ⟨v, hcycle⟩
    refine Nat.lt_of_not_le fun hle => ?_
    -- if all vertices were taken away, those on the cycle would have been taken before themselves
    have hall : taken.Perm vs :=
      (List.subperm_of_subset h.ordered.nodup h.subset).perm_of_length_le hle
    have hv : v ∈ vs := by
      obtain ⟨u, -, hedge⟩ := Relation.TransGen.tail'_iff.mp hcycle
      exact (hes _ hedge).2
    obtain ⟨-, hlt⟩ := h.ordered.idxOf_lt_of_transGen hcycle (hall.mem_iff.mpr hv)
    exact Nat.lt_irrefl _ hlt

/-! ### The search never gives up -/

/-- Takes one edge to a vertex away, as `release` does, unless the number would fall below zero. -/
def releaseStrict (state : Degrees × List String) (v : String) : Option (Degrees × List String) :=
  if state.1.get? v = some 0 then none else some (release state v)

/-- The search of `peel`. It gives up when a number would fall below zero, and when its bound is
reached while a vertex is free. -/
def peelStrict (es : List (String × String)) : Nat → Degrees → List String → Option Nat
  | _, _, [] => some 0
  | 0, _, _ :: _ => none
  | fuel + 1, degrees, v :: free =>
    (((es.filter (·.1 = v)).map (·.2)).foldlM releaseStrict (degrees, free)).bind
      fun (degrees, free) => (peelStrict es fuel degrees free).map (· + 1)

/-- The search of `peeled`, which may give up. -/
def peeledStrict (es : List (String × String)) (order : List String) : Option Nat :=
  let degrees := inDegrees order es
  peelStrict es order.length degrees (order.filter fun v => degrees.get? v = some 0)

/-- **No number falls below zero** while edges are taken away that it counts. -/
theorem foldlM_releaseStrict (targets : List String) (degrees : Degrees) (free : List String)
    (h : ∀ v d, degrees.get? v = some d → targets.count v ≤ d) :
    targets.foldlM releaseStrict (degrees, free) =
      some (targets.foldl release (degrees, free)) := by
  induction targets generalizing degrees free with
  | nil => rfl
  | cons t rest ih =>
    have hstep : releaseStrict (degrees, free) t = some (release (degrees, free) t) :=
      if_neg (ne_zero_of_count_le h)
    rw [List.foldlM_cons, hstep, List.foldl_cons]
    exact ih _ _ (count_le_release h)

/-- From every state of the search on, it never gives up. -/
theorem Stage.peelStrict (h : Stage vs es taken degrees free) (fuel : Nat)
    (hfuel : vs.length ≤ taken.length + fuel) :
    Graph.peelStrict es fuel degrees free = some (Graph.peel es fuel degrees free) := by
  induction fuel generalizing taken degrees free with
  | zero =>
    cases h.free_eq_nil hfuel
    rfl
  | succ fuel ih =>
    cases free with
    | nil => rfl
    | cons v free =>
      obtain ⟨-, hnew, -⟩ := (h.mem_free v).mp List.mem_cons_self
      have hlen : (v :: taken).length = taken.length + 1 := rfl
      -- no count is taken below zero: what is released was counted
      rw [Graph.peelStrict, foldlM_releaseStrict _ _ _ (h.count_targets_le hnew), Option.bind_some]
      dsimp only
      rw [ih h.take (by omega)]
      rfl

/-- **The search never gives up**, in whatever order the vertices are given to it. -/
theorem peeledStrict_eq (es : List (String × String)) (hvs : vs.Nodup) :
    peeledStrict es vs = some (peeled es vs) :=
  (stage_inDegrees hvs).peelStrict vs.length (Nat.le_of_eq (Nat.zero_add _).symm)

end Graph

/-! ### The finding -/

namespace Context

variable {c : Context}

/-- A link leaves a node that is there. -/
theorem source_mem_ids {l : Link} (h : l ∈ c.links) : l.source ∈ c.ids := by
  obtain ⟨n, hn, hl⟩ := List.mem_flatMap.mp h
  obtain ⟨⟨output, next⟩, -, heq⟩ := List.mem_filterMap.mp hl
  obtain ⟨target, -, rfl⟩ := Option.map_eq_some_iff.mp heq
  exact List.mem_map_of_mem hn

theorem mem_edges_iff {a b : String} : (a, b) ∈ Graph.edges c ↔ c.Leads a b := by
  rw [Graph.edges, List.mem_map]
  constructor
  · rintro ⟨⟨source, output, target⟩, hl, heq⟩
    cases heq
    obtain ⟨hlink, htarget⟩ := List.mem_filter.mp hl
    exact ⟨source_mem_ids hlink, of_decide_eq_true htarget, output, hlink⟩
  · rintro ⟨-, hb, output, hlink⟩
    exact ⟨⟨a, output, b⟩, List.mem_filter.mpr ⟨hlink, decide_eq_true hb⟩, rfl⟩

/-- A vertex is left over exactly if the links form a cycle. -/
theorem peeled_edges_lt_iff {order : List String} (hnodup : order.Nodup)
    (hids : ∀ v, v ∈ order ↔ v ∈ c.ids) :
    Graph.peeled (Graph.edges c) order < order.length ↔ c.Cyclic := by
  have hedges : (fun a b => (a, b) ∈ Graph.edges c) = c.Leads := by
    funext a b
    exact propext mem_edges_iff
  rw [Cyclic, ← hedges]
  apply Graph.peeled_lt_iff hnodup
  intro p hp
  obtain ⟨hsource, htarget, -⟩ := mem_edges_iff.mp hp
  exact ⟨(hids _).mpr hsource, (hids _).mpr htarget⟩

theorem hasCycle_iff : c.hasCycle = true ↔ c.Cyclic := by
  rw [hasCycle, decide_eq_true_iff]
  exact peeled_edges_lt_iff (Graph.nodup_vertices c) fun _ => Graph.mem_vertices_iff

/-- The other checks of the links and names report no cycle, and the search reports it once. -/
theorem count_shapeFindings (c : Context) :
    c.shapeFindings.count .cycleDetected = if c.hasCycle then 1 else 0 := by
  -- the other findings are of other kinds
  have hrepeated : ((repeated [] c.ids).map Finding.duplicateNodeId).count .cycleDetected = 0 := by
    refine List.count_eq_zero_of_not_mem fun h => ?_
    obtain ⟨id, -, heq⟩ := List.mem_map.mp h
    cases heq
  have hbroken : c.brokenLinks.count .cycleDetected = 0 := by
    refine List.count_eq_zero_of_not_mem fun h => ?_
    obtain ⟨l, -, heq⟩ := List.mem_map.mp h
    cases heq
  have hcycle : (if c.hasCycle then [Finding.cycleDetected] else []).count
      Finding.cycleDetected = if c.hasCycle then 1 else 0 := by
    split <;> rfl
  calc c.shapeFindings.count .cycleDetected
      = 0 + 0 + (if c.hasCycle then 1 else 0) := by
        rw [shapeFindings, List.count_append, List.count_append, hrepeated, hbroken, hcycle]
    _ = if c.hasCycle then 1 else 0 := by omega

theorem not_mem_typeFindings (metadata? : String → Option NodeMetadata) (n : NodeEntry) :
    .cycleDetected ∉ typeFindings metadata? n := by
  intro h
  rw [typeFindings] at h
  split at h
  · cases List.mem_singleton.mp h
  · cases mem_memberFindings_iff.mp h

theorem count_cycleDetected (c : Context) (types : Option (String → Option NodeMetadata)) :
    (c.findings types).count .cycleDetected = if c.hasCycle then 1 else 0 := by
  rw [← count_shapeFindings]
  cases types with
  | none => exact congrArg (List.count _) (List.append_nil _)
  | some metadata? =>
    -- findings about types are none about the shape
    have htypes : (c.nodes.flatMap (typeFindings metadata?)).count Finding.cycleDetected = 0 := by
      refine List.count_eq_zero_of_not_mem fun h => ?_
      obtain ⟨n, -, hn⟩ := List.mem_flatMap.mp h
      exact not_mem_typeFindings metadata? n hn
    calc (c.shapeFindings ++ c.nodes.flatMap (typeFindings metadata?)).count .cycleDetected
        = c.shapeFindings.count .cycleDetected + 0 := by rw [List.count_append, htypes]
      _ = c.shapeFindings.count .cycleDetected := Nat.add_zero _

/-- What the search for cycles says about a graph. -/
structure CyclesFound (c : Context) : Prop where
  /-- A cycle is reported once, with the types of nodes or without them. -/
  reported : c.Cyclic → ∀ types, (c.findings types).count .cycleDetected = 1
  silent : ¬ c.Cyclic → ∀ types, .cycleDetected ∉ c.findings types
  /-- In whatever order the search comes upon the names of the nodes, it says the same. -/
  anyOrder : ∀ order : List String, order.Nodup → (∀ v, v ∈ order ↔ v ∈ c.ids) →
    (Graph.peeled (Graph.edges c) order < order.length ↔ c.Cyclic)
  /-- And no number that it counts edges with is ever to fall below zero. -/
  counts : ∀ order : List String, order.Nodup →
    Graph.peeledStrict (Graph.edges c) order = some (Graph.peeled (Graph.edges c) order)

/-- **A cycle is reported, once, exactly if there is one**, whatever the graph is: nodes that share
a name are one vertex, and only links between nodes that are there count. -/
theorem cycles_found (c : Context) : c.CyclesFound where
  reported h types := by rw [count_cycleDetected, if_pos (hasCycle_iff.mpr h)]
  silent h types := by
    rw [← List.count_eq_zero, count_cycleDetected, if_neg (mt hasCycle_iff.mp h)]
  anyOrder _ hnodup hids := peeled_edges_lt_iff hnodup hids
  counts _ hnodup := Graph.peeledStrict_eq _ hnodup

/-- A node that leads to itself, and one that leads to nothing that is there. -/
example :
    let c := ((Context.addNode {} "a" "Say").connect "Next" (some "a")).addNode "b" "Say"
    c.hasCycle = true ∧ (c.connect "Next" (some "c")).hasCycle = true ∧
      ((Context.addNode {} "b" "Say").connect "Next" (some "c")).hasCycle = false := by
  decide

end Context

end Flowgraph
