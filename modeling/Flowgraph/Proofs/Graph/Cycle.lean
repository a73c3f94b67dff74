import Flowgraph.Proofs.Graph.Wiring
import Mathlib.Data.List.Perm.Subperm
import Mathlib.Data.List.Chain

/-!
# Graphs without a finding of a cycle

The search for cycles takes vertices away to which no edge leads any more. What it has taken away at
any time stands in an order in which all edges lead forward (`Ordered`), and that order, with the
number of edges that still lead to each vertex, is all that its state says (`Stage`). The search
comes to its end with no free vertex left, whatever the order of the vertices was (`peeled_stage`).

If nothing is left over then, all edges between vertices lead forward in one order. So a path never
comes back to where it has been (`Context.nodup_of_path`).
-/

namespace Flowgraph

namespace Graph

variable {vs : List String} {es : List (String × String)} {taken free : List String}
  {degrees : Degrees}

/-! ### Taking vertices away -/

/-- The number of edges to a vertex that come from vertices still there. -/
def remaining (es : List (String × String)) (taken : List String) (v : String) : Nat :=
  es.countP fun p => p.2 = v ∧ p.1 ∉ taken

/-- Vertices that are taken away one after another, the latest first: each at a time when all edges
to it come from vertices taken away before. -/
inductive Ordered (es : List (String × String)) : List String → Prop
  | nil : Ordered es []
  | cons {taken : List String} {v : String} (hnew : v ∉ taken)
      (hsources : ∀ p ∈ es, p.2 = v → p.1 ∈ taken) (h : Ordered es taken) : Ordered es (v :: taken)

theorem Ordered.nodup (h : Ordered es taken) : taken.Nodup := by
  induction h with
  | nil => exact .nil
  | cons hnew _ _ ih => exact List.nodup_cons.mpr ⟨hnew, ih⟩

theorem Ordered.source_mem (h : Ordered es taken) {p : String × String} (hp : p ∈ es)
    (ht : p.2 ∈ taken) : p.1 ∈ taken := by
  induction h with
  | nil => cases ht
  | cons hnew hsources _ ih =>
    rcases List.mem_cons.mp ht with heq | ht
    · exact List.mem_cons_of_mem _ (hsources p hp heq)
    · exact List.mem_cons_of_mem _ (ih ht)

/-- All edges lead towards the vertices that were taken away later. -/
theorem Ordered.idxOf_lt (h : Ordered es taken) {p : String × String} (hp : p ∈ es)
    (ht : p.2 ∈ taken) : taken.idxOf p.2 < taken.idxOf p.1 := by
  induction h with
  | nil => cases ht
  | @cons taken v hnew hsources h ih =>
    -- the source was taken away before the target, so it is not the latest
    have hsource : p.1 ∈ taken := by
      rcases List.mem_cons.mp ht with heq | ht
      · exact hsources p hp heq
      · exact h.source_mem hp ht
    have hne : v ≠ p.1 := fun heq => hnew (heq ▸ hsource)
    rw [List.idxOf_cons_ne _ hne]
    by_cases heq : v = p.2
    · subst heq
      rw [List.idxOf_cons_self]
      exact Nat.succ_pos _
    · rw [List.idxOf_cons_ne _ heq]
      exact Nat.succ_lt_succ (ih ((List.mem_cons.mp ht).resolve_left fun h => heq h.symm))

/-! ### The state of the search -/

/-- What the state of the search says about the vertices that are taken away. -/
structure Stage (vs : List String) (es : List (String × String)) (taken : List String)
    (degrees : Degrees) (free : List String) : Prop where
  get_degree : ∀ v, degrees.get? v = if v ∈ vs then some (remaining es taken v) else none
  mem_free : ∀ v, v ∈ free ↔ v ∈ vs ∧ v ∉ taken ∧ remaining es taken v = 0
  nodup : free.Nodup
  ordered : Ordered es taken
  subset : taken ⊆ vs

theorem stage_inDegrees (hvs : vs.Nodup) :
    Stage vs es [] (inDegrees vs es) (vs.filter fun v => (inDegrees vs es).get? v = some 0) := by
  have hget : ∀ v, (inDegrees vs es).get? v =
      if v ∈ vs then some (remaining es [] v) else none := by
    intro v
    rw [inDegrees, StringMap.get?_ofList_map fun v => es.countP (·.2 = v)]
    simp [remaining]
  refine ⟨hget, fun v => ?_, hvs.filter _, .nil, List.nil_subset vs⟩
  rw [List.mem_filter, hget]
  by_cases hv : v ∈ vs
  · simp [hv]
  · simp [hv]

/-- The edges from a vertex account for what its going takes from the others. -/
theorem remaining_cons {v : String} (hv : v ∉ taken) (u : String) :
    remaining es taken u =
      remaining es (v :: taken) u + ((es.filter (·.1 = v)).map (·.2)).count u := by
  induction es with
  | nil => rfl
  | cons p rest ih =>
    simp only [remaining, List.countP_cons, List.mem_cons, not_or, Bool.decide_and] at ih ⊢
    by_cases hp : p.1 = v
    · -- an edge from `v` counts before and not after, if it leads to `u`
      by_cases hu : p.2 = u
      · simp [hp, hu, hv] at ih ⊢
        omega
      · simp [hp, hu] at ih ⊢
        omega
    · by_cases hu : p.2 = u ∧ p.1 ∉ taken
      · simp [hp, hu] at ih ⊢
        omega
      · rw [not_and_not_right] at hu
        by_cases hpu : p.2 = u
        · simp [hp, hpu, hu hpu] at ih ⊢
          omega
        · simp [hp, hpu] at ih ⊢
          omega

/-! ### Edges that go -/

/-- An edge to something that is no vertex counts nowhere. -/
theorem release_of_none {t : String} (h : degrees.get? t = none) :
    release (degrees, free) t = (degrees, free) := by
  rw [release, h]

theorem release_of_some {t : String} {d : Nat} (h : degrees.get? t = some d) :
    release (degrees, free) t =
      (degrees.insert t (d - 1), if d - 1 = 0 then free ++ [t] else free) := by
  rw [release, h]

/-- An edge that goes lowers the degree of its target, and no other. -/
theorem get?_release (t v : String) :
    (release (degrees, free) t).1.get? v = (degrees.get? v).map (· - [t].count v) := by
  cases hd : degrees.get? t with
  | none =>
    rw [release_of_none hd]
    -- a name that is not counted stays uncounted
    by_cases hv : t = v
    · subst hv
      rw [hd]
      rfl
    · simp [List.count_cons_of_ne hv]
  | some d =>
    rw [release_of_some hd, StringMap.get?_insert]
    by_cases hv : v = t
    · subst hv
      simp [hd]
    · simp [hv, List.count_cons_of_ne (Ne.symm hv)]

/-- Edges that go lower the degrees of their targets. -/
theorem get?_foldl_release (targets : List String) (degrees : Degrees) (free : List String)
    (v : String) :
    (targets.foldl release (degrees, free)).1.get? v =
      (degrees.get? v).map (· - targets.count v) := by
  induction targets generalizing degrees free with
  | nil => simp
  | cons t rest ih =>
    have hcount : (t :: rest).count v = [t].count v + rest.count v := by
      rw [← List.singleton_append, List.count_append]
    rw [List.foldl_cons, ih, get?_release, Option.map_map, hcount]
    congr 1
    funext d
    exact Nat.sub_sub ..

/-- When an edge is taken away, the numbers still count all edges that are to be taken away. -/
theorem count_le_release {t : String} {rest : List String}
    (h : ∀ v d, degrees.get? v = some d → (t :: rest).count v ≤ d) :
    ∀ v d, (release (degrees, free) t).1.get? v = some d → rest.count v ≤ d := by
  intro v d hd
  rw [get?_release, Option.map_eq_some_iff] at hd
  obtain ⟨d₀, hd₀, rfl⟩ := hd
  have hcount : (t :: rest).count v = [t].count v + rest.count v := by
    rw [← List.singleton_append, List.count_append]
  have := h v d₀ hd₀
  omega

/-- An edge leads to its target. -/
theorem ne_zero_of_count_le {t : String} {rest : List String}
    (h : ∀ v d, degrees.get? v = some d → (t :: rest).count v ≤ d) : degrees.get? t ≠ some 0 := by
  intro hzero
  have hcount := h t 0 hzero
  rw [List.count_cons_self] at hcount
  exact Nat.not_succ_le_zero _ hcount

/-- The target of an edge that goes becomes free if the edge was the last that led to it. -/
theorem release_free {t : String} (h : degrees.get? t ≠ some 0) :
    (release (degrees, free) t).2 = free ++ if degrees.get? t = some 1 then [t] else [] := by
  cases hd : degrees.get? t with
  | none => simp [release_of_none hd]
  | some d =>
    have hpos : d ≠ 0 := fun hzero => h (hzero ▸ hd)
    have hlast : d - 1 = 0 ↔ d = 1 := by omega
    rw [release_of_some hd]
    simp only [hlast, Option.some.injEq]
    split <;> simp

/-- Each target becomes free when the last edge to it goes, if its degree counts all edges that
go. -/
theorem foldl_release_free (targets : List String) (degrees : Degrees) (free : List String)
    (h : ∀ v d, degrees.get? v = some d → targets.count v ≤ d) :
    ∃ added, (targets.foldl release (degrees, free)).2 = free ++ added ∧ added.Nodup ∧
      ∀ v, v ∈ added ↔ v ∈ targets ∧ degrees.get? v = some (targets.count v) := by
  induction targets generalizing degrees free with
  | nil => exact ⟨[], by simp, .nil, by simp⟩
  | cons t rest ih =>
    have hpos : degrees.get? t ≠ some 0 := ne_zero_of_count_le h
    obtain ⟨added, hfree, hnodup, hadded⟩ := ih (release (degrees, free) t).1
      (release (degrees, free) t).2 (count_le_release h)
    -- a target that becomes free now has no edge among the rest
    have hlater : degrees.get? t = some 1 → t ∉ added := by
      intro hone hmem
      have hcount := h t 1 hone
      rw [List.count_cons_self] at hcount
      have := List.count_pos_iff.mpr ((hadded t).mp hmem).1
      omega
    refine ⟨(if degrees.get? t = some 1 then [t] else []) ++ added, ?_, ?_, fun v => ?_⟩
    · rw [List.foldl_cons, hfree, release_free hpos, List.append_assoc]
    · split
      · next hone => exact List.nodup_cons.mpr ⟨hlater hone, hnodup⟩
      · exact hnodup
    · rw [List.mem_append, hadded v, get?_release]
      by_cases hv : v = t
      · subst hv
        cases hd : degrees.get? v with
        | none => simp
        | some d =>
          have hle := h v d hd
          rw [List.count_cons_self] at hle ⊢
          by_cases hone : d = 1
          · simp [hone]
            omega
          · simp [hone]
            rw [← List.count_pos_iff]
            omega
      · rw [List.count_cons_of_ne (Ne.symm hv), List.count_cons_of_ne (Ne.symm hv)]
        split <;> simp [hv]

/-! ### One vertex after another -/

theorem remaining_pos_iff {v : String} :
    0 < remaining es taken v ↔ ∃ p ∈ es, p.2 = v ∧ p.1 ∉ taken := by
  rw [remaining, List.countP_pos_iff]
  simp only [decide_eq_true_eq]

theorem mem_targets_iff {v u : String} : u ∈ (es.filter (·.1 = v)).map (·.2) ↔ (v, u) ∈ es := by
  simp [List.mem_map, List.mem_filter]

/-- The degrees count all edges from a vertex that is still there. -/
theorem Stage.count_targets_le {v : String} (h : Stage vs es taken degrees free) (hv : v ∉ taken) :
    ∀ u d, degrees.get? u = some d → ((es.filter (·.1 = v)).map (·.2)).count u ≤ d := by
  intro u d hu
  rw [h.get_degree] at hu
  split at hu
  · cases hu
    rw [remaining_cons hv u]
    exact Nat.le_add_left ..
  · cases hu

/-- With a free vertex, those become free to which all that still leads are edges from it. -/
theorem Stage.take_free {v : String} (h : Stage vs es taken degrees (v :: free)) :
    ∃ added, (((es.filter (·.1 = v)).map (·.2)).foldl release (degrees, free)).2 = free ++ added ∧
      added.Nodup ∧
      ∀ u, u ∈ added ↔ (v, u) ∈ es ∧ u ∈ vs ∧ remaining es (v :: taken) u = 0 := by
  obtain ⟨-, hnew, -⟩ := (h.mem_free v).mp List.mem_cons_self
  obtain ⟨added, hfree, hnodup, hadded⟩ :=
    foldl_release_free _ degrees free (h.count_targets_le hnew)
  refine ⟨added, hfree, hnodup, fun u => ?_⟩
  rw [hadded u, mem_targets_iff, h.get_degree u]
  refine and_congr_right fun _ => ?_
  by_cases hu : u ∈ vs
  · simp only [hu, if_true, Option.some.injEq, true_and, remaining_cons hnew u]
    exact Nat.add_eq_right
  · simp [hu]

/-- Taking a free vertex away leads from one state of the search to the next. -/
theorem Stage.take {v : String} (h : Stage vs es taken degrees (v :: free)) :
    Stage vs es (v :: taken)
      (((es.filter (·.1 = v)).map (·.2)).foldl release (degrees, free)).1
      (((es.filter (·.1 = v)).map (·.2)).foldl release (degrees, free)).2 := by
  obtain ⟨hv, hnew, hzero⟩ := (h.mem_free v).mp List.mem_cons_self
  obtain ⟨hfresh, hrest⟩ := List.nodup_cons.mp h.nodup
  obtain ⟨added, hfree, hnodup, hadded⟩ := h.take_free
  have hsources : ∀ p ∈ es, p.2 = v → p.1 ∈ taken := by
    intro p hp htarget
    by_contra hsource
    exact Nat.ne_of_gt (remaining_pos_iff.mpr ⟨p, hp, htarget, hsource⟩) hzero
  have hlower : ∀ u, (v, u) ∈ es → remaining es taken u ≠ 0 := fun u hu =>
    Nat.ne_of_gt (remaining_pos_iff.mpr ⟨(v, u), hu, rfl, hnew⟩)
  have hkept : ∀ u, (v, u) ∉ es → remaining es (v :: taken) u = remaining es taken u := by
    intro u hu
    rw [remaining_cons hnew u, List.count_eq_zero_of_not_mem (mt mem_targets_iff.mp hu)]
    rfl
  refine ⟨fun u => ?_, fun u => ?_, ?_, .cons hnew hsources h.ordered,
    List.cons_subset.mpr ⟨hv, h.subset⟩⟩
  · rw [get?_foldl_release, h.get_degree u, remaining_cons hnew u]
    split
    · exact congrArg some (Nat.add_sub_cancel ..)
    · rfl
  · rw [hfree, List.mem_append, hadded u]
    constructor
    · rintro (hu | ⟨hedge, huvs, hz⟩)
      · obtain ⟨huvs, hunew, hz⟩ := (h.mem_free u).mp (List.mem_cons_of_mem v hu)
        have hne : u ≠ v := fun heq => hfresh (heq ▸ hu)
        refine ⟨huvs, List.not_mem_cons_of_ne_of_not_mem hne hunew, ?_⟩
        rw [hkept u fun hedge => hlower u hedge hz, hz]
      · refine ⟨huvs, fun hmem => ?_, hz⟩
        rcases List.mem_cons.mp hmem with rfl | hmem
        · -- no edge leads to `v`, so none from itself does
          exact hlower u hedge hzero
        · exact hnew (h.ordered.source_mem hedge hmem)
    · rintro ⟨huvs, hunew, hz⟩
      by_cases hedge : (v, u) ∈ es
      · exact .inr ⟨hedge, huvs, hz⟩
      · rw [hkept u hedge] at hz
        have hmem := (h.mem_free u).mpr ⟨huvs, List.not_mem_of_not_mem_cons hunew, hz⟩
        exact .inl ((List.mem_cons.mp hmem).resolve_left (List.ne_of_not_mem_cons hunew))
  · rw [hfree]
    refine List.nodup_append.mpr ⟨hrest, hnodup, ?_⟩
    rintro a ha b hb rfl
    -- what is free already has no edge left to lose
    obtain ⟨-, -, hz⟩ := (h.mem_free a).mp (List.mem_cons_of_mem v ha)
    exact hlower a ((hadded a).mp hb).1 hz

/-- When all vertices are taken away, none of them is free. -/
theorem Stage.free_eq_nil (h : Stage vs es taken degrees free) (hall : vs.length ≤ taken.length) :
    free = [] := by
  have hperm : taken.Perm vs :=
    (List.subperm_of_subset h.ordered.nodup h.subset).perm_of_length_le hall
  refine List.eq_nil_iff_forall_not_mem.mpr fun v hv => ?_
  obtain ⟨hmem, hnew, -⟩ := (h.mem_free v).mp hv
  exact hnew (hperm.mem_iff.mpr hmem)

theorem Stage.peel (h : Stage vs es taken degrees free) (fuel : Nat)
    (hfuel : vs.length ≤ taken.length + fuel) :
    ∃ taken' degrees', Stage vs es taken' degrees' [] ∧
      taken'.length = taken.length + peel es fuel degrees free := by
  -- induction on the fuel: each round takes one vertex more, and there are as many as fuel
  induction fuel generalizing taken degrees free with
  | zero =>
    cases h.free_eq_nil hfuel
    exact ⟨taken, degrees, h, rfl⟩
  | succ fuel ih =>
    cases free with
    | nil => exact ⟨taken, degrees, h, rfl⟩
    | cons v free =>
      have hlen : (v :: taken).length = taken.length + 1 := rfl
      obtain ⟨taken', degrees', h', hlen'⟩ := ih h.take (by omega)
      refine ⟨taken', degrees', h', ?_⟩
      rw [hlen', hlen, Nat.add_assoc, Nat.add_comm 1]
      rfl

variable (es) in
/-- **The search ends when no vertex is free any more**, and counts what it has taken away. -/
theorem peeled_stage (hvs : vs.Nodup) :
    ∃ taken degrees, Stage vs es taken degrees [] ∧ taken.length = peeled es vs := by
  have hstart : Stage vs es [] (inDegrees vs es) _ := stage_inDegrees hvs
  obtain ⟨taken, degrees, h, hlen⟩ := hstart.peel vs.length (by simp)
  exact ⟨taken, degrees, h, by rw [hlen]; exact Nat.zero_add _⟩

theorem nodup_vertices (c : Context) : (vertices c).Nodup := StringMap.nodup_keys _

theorem mem_vertices_iff {c : Context} {v : String} : v ∈ vertices c ↔ v ∈ c.ids := by
  rw [vertices, StringMap.mem_keys_iff, StringMap.contains,
    StringMap.get?_ofList_map fun _ => ()]
  by_cases hv : v ∈ c.ids
  · simp [hv]
  · simp [hv]

end Graph

namespace Context

variable {c : Context}

/-- If no cycle is found, all edges lead forward in one order of the nodes. -/
theorem exists_ordered (h : c.hasCycle = false) :
    ∃ taken, Graph.Ordered (Graph.edges c) taken ∧ ∀ v, v ∈ taken ↔ v ∈ c.ids := by
  obtain ⟨taken, degrees, hs, hlen⟩ :=
    Graph.peeled_stage (Graph.edges c) (Graph.nodup_vertices c)
  rw [hasCycle, decide_eq_false_iff_not, ← hlen] at h
  have hperm : taken.Perm (Graph.vertices c) :=
    (List.subperm_of_subset hs.ordered.nodup hs.subset).perm_of_length_le (Nat.not_lt.mp h)
  exact ⟨taken, hs.ordered, fun v => hperm.mem_iff.trans Graph.mem_vertices_iff⟩

/-- **Where no cycle is found, no path comes back to where it has been.** -/
theorem nodup_of_path (h : c.hasCycle = false) {path : List String}
    (hpath : path.IsChain fun a b => (a, b) ∈ Graph.edges c) : path.Nodup := by
  obtain ⟨taken, hordered, hmem⟩ := exists_ordered h
  -- each edge of the path leads to a vertex that was taken away later
  have hrank : path.IsChain fun a b => taken.idxOf b < taken.idxOf a := by
    refine hpath.imp fun a b he => hordered.idxOf_lt he ((hmem b).mpr ?_)
    obtain ⟨l, hl, heq⟩ := List.mem_map.mp he
    cases heq
    exact of_decide_eq_true (List.mem_filter.mp hl).2
  have htrans : Trans (fun a b : String => taken.idxOf b < taken.idxOf a)
      (fun a b => taken.idxOf b < taken.idxOf a) fun a b => taken.idxOf b < taken.idxOf a :=
    ⟨fun hab hbc => hbc.trans hab⟩
  exact (List.isChain_iff_pairwise.mp hrank).imp fun hlt heq => by
    subst heq
    exact Nat.lt_irrefl _ hlt

end Context

end Flowgraph
