import Flowgraph.Proofs.Walk.Lineage

/-!
# The range of the hop count

A walk counts the nodes that it enters in 32 bits. The count is raised first, and the guard then
looks whether it is beyond the limit. A limit below the largest count stops every walk before its
count has run out of numbers. Where there is no limit, and also where the limit is the largest count
itself, nothing stops a walk: no count is beyond it, and a walk that goes on has its count turn over
and start from zero again.

* `Lineage.hops_mod` — the count is the number of executions behind a walk, up to multiples of 2³².
* `Turnstile.comes_round` — a walk that enters as many nodes as there are counts, and ends.
* `counts_iff` — the limits under which the count keeps its range and the guard holds.
* `largest_limit_passed` — a walk that the largest limit does not stop.
-/

namespace Flowgraph

open Engine

/-- The count of every walk that comes to a node can be raised, and the guard stops the walk as soon
as the limit does not allow another node. Forks are taken into account. -/
structure Engine.Counts (e : Engine) : Prop where
  ranged : ∀ xs w, Lineage e xs w → ∀ id n, w.pending = some id →
    (e.graph w.graph).node? id = some n → w.hops.toNat + 1 < UInt32.size
  guarded : ∀ limit, e.config.maxHops = some limit → ∀ xs w, Lineage e xs w →
    xs.length ≤ limit ∧ Guarded limit xs.length w e

/-- No count is beyond the limit, if there is one. -/
def Engine.Unguarded (e : Engine) : Prop :=
  ∀ limit, e.config.maxHops = some limit → UInt32.size ≤ limit + 1

variable {e : Engine} {w₀ w : Walk} {xs : List Execution}

/-! ### The count modulo its range -/

/-- Whatever the limit is, the count says how many executions are behind a walk, up to multiples of
the number of counts. -/
theorem Chain.hops_mod (hfresh : w₀.hops = 0) (h : Chain e w₀ xs w) :
    w.hops.toNat = xs.length % UInt32.size := by
  induction h with
  | start => rw [hfresh]; rfl
  | enter _ ha hu ih =>
    obtain ⟨-, -, hwalk⟩ := entered_of_arrival ha
    rw [hu.hops, hwalk, toNat_hops_succ_mod, ih, Nat.mod_add_mod, List.length_append,
      List.length_singleton]

theorem Lineage.hops_mod (h : Lineage e xs w) : w.hops.toNat = xs.length % UInt32.size := by
  obtain ⟨w₀, hfresh, hchain⟩ := h.chain
  exact hchain.hops_mod hfresh

theorem Lineage.hops_eq (h : Lineage e xs w) (hlt : xs.length < UInt32.size) :
    w.hops.toNat = xs.length := by
  rw [h.hops_mod, Nat.mod_eq_of_lt hlt]

/-! ### Limits that hold -/

/-- Below the largest count, the limit is reached while there is still a number left. -/
theorem counts_of_lt {limit : Nat} (hlimit : e.config.maxHops = some limit)
    (hmax : limit + 1 < UInt32.size) : e.Counts where
  ranged xs w hw _ _ _ _ := by
    obtain ⟨hcount, hle⟩ := hw.hops hlimit (by omega)
    omega
  guarded limit' hlimit' xs w hw := by
    obtain rfl : limit = limit' := Option.some.inj (hlimit.symm.trans hlimit')
    exact hw.guarded hlimit (by omega)

/-! ### Limits that do not -/

namespace Engine.Unguarded

variable (h : e.Unguarded)
include h

theorem exceeded?_eq_none (hops : UInt32) : e.exceeded? hops = none := by
  rw [exceeded?]
  cases hlimit : e.config.maxHops with
  | none => rfl
  | some limit =>
    have hle := h limit hlimit
    have hlt := hops.toNat_lt_size
    rw [Option.filter_some, if_neg (by simp; omega)]

/-- The guard stops no walk. -/
theorem arrival_ne_stopped (w : Walk) (limit : Nat) (id : String) :
    e.arrival w ≠ .stopped limit id := by
  rw [arrival]
  split
  · nofun
  · split
    · nofun
    · simp only [h.exceeded?_eq_none]
      nofun

end Engine.Unguarded

/-- The walk in a node that it has entered. -/
def Walk.inside (w : Walk) : Walk := { w with hops := w.hops + 1, pending := none }

/-- The walk behind a node that it leaves for the same node again, unless its count is zero. -/
def Walk.around (w : Walk) (id : String) : Walk :=
  { w.inside with pending := if w.inside.hops = 0 then none else some id }

/-- A node that walks leave in this way, where no guard keeps them from it. -/
structure Turnstile (e : Engine) (g : GraphId) (n : LiveNode) : Prop where
  node : (e.graph g).node? n.id = some n
  unguarded : e.Unguarded
  execute : ∀ w : Walk, n.behaviour.execute n.node w =
    .finish w.vars (if w.hops = 0 then none else some n.id)

/-- An engine after a walk has entered a turnstile a number of times. The last time it came there
with the largest count, which could not be raised. -/
structure Turnstile.Round (g : GraphId) (n : LiveNode) (times : Nat) (e e' : Engine) : Prop where
  config : e'.config = e.config
  visits : e'.visits.length = e.visits.length + times
  node : (e'.graph g).node? n.id = some n
  brink : ∃ xs w, Lineage e' xs w ∧ xs.length + 1 = UInt32.size ∧ w.graph = g ∧
    w.pending = some n.id

namespace Turnstile

variable {g : GraphId} {n : LiveNode} (h : Turnstile e g n)

/-- The engine when the walk is in the node. -/
def passed (e : Engine) (n : LiveNode) (w : Walk) : Engine :=
  e.record (.entered e.now n.id w.inside)

theorem visits_passed : (passed e n w).visits.length = e.visits.length + 1 := by
  rw [passed, visits_record, List.length_append]
  rfl

/-- The count turns over exactly behind the last of the nodes that can be counted. -/
theorem hops_inside (hw : Lineage e xs w) {k : Nat} (hk : xs.length + (k + 1) = UInt32.size) :
    w.inside.hops = 0 ↔ k = 0 := by
  have hsize : UInt32.size = 4294967296 := rfl
  have hzero : (0 : UInt32).toNat = 0 := rfl
  rw [← UInt32.toNat_inj, Walk.inside, toNat_hops_succ_mod, hw.hops_eq (by omega), hzero]
  rw [hsize] at hk ⊢
  omega

include h

/-- It stays what it is. -/
theorem passed_turnstile : Turnstile (passed e n w) g n := ⟨h.node, h.unguarded, h.execute⟩

theorem arrival (hgraph : w.graph = g) (hpending : w.pending = some n.id) :
    e.arrival w = .entered n w.inside := by
  have hnode : (e.graph w.graph).node? n.id = some n := hgraph ▸ h.node
  simp only [Engine.arrival, hpending, hnode, h.unguarded.exceeded?_eq_none, Walk.inside]

/-- A walk passes the node once. -/
theorem call_succ (hgraph : w.graph = g) (hpending : w.pending = some n.id) (fuel : Nat) :
    call (fuel + 1) (.walk w) e = call fuel (.walk (w.around n.id)) (passed e n w) := by
  rw [call, h.arrival hgraph hpending]
  dsimp only
  rw [enter, h.execute]
  rfl

theorem lineage_around (hw : Lineage e xs w) (hgraph : w.graph = g)
    (hpending : w.pending = some n.id) :
    Lineage (passed e n w) (xs ++ [⟨n, w.inside⟩]) (w.around n.id) := by
  refine (hw.enters (h.arrival hgraph hpending)).leads (.onward ?_)
  rw [Execution.program, h.execute]
  exact .finish _ _

/-- **A walk comes round.** It passes the node for as long as its count has not taken all its
values, and no guard stops it. -/
theorem comes_round {k : Nat} (hw : Lineage e xs w) (hgraph : w.graph = g)
    (hpending : w.pending = some n.id) (hk : xs.length + (k + 1) = UInt32.size) :
    ∃ e', Round g n (k + 1) e e' ∧
      ∀ fuel, k + 1 < fuel → call fuel (.walk w) e = .returned (.ok ()) e' := by
  -- the induction is on the passes that are left, from the walk in front of the node
  induction k generalizing e xs w with
  | zero =>
    -- the count turns over in the node, and the walk ends behind it
    refine ⟨passed e n w, ⟨rfl, visits_passed, h.node, xs, w, hw.extends (.record _ _), hk, hgraph,
      hpending⟩, fun fuel hfuel => ?_⟩
    obtain ⟨fuel, rfl⟩ : ∃ m, fuel = m + 2 := ⟨fuel - 2, by omega⟩
    have hover : (w.around n.id).pending = none := if_pos ((hops_inside hw hk).mpr rfl)
    rw [h.call_succ hgraph hpending]
    simp only [call, Engine.arrival, hover]
  | succ k ih =>
    -- the walk comes to the node again, with one more execution behind it
    have hnext : (w.around n.id).pending = some n.id :=
      if_neg fun hzero => Nat.succ_ne_zero k ((hops_inside hw hk).mp hzero)
    obtain ⟨e', hround, hrun⟩ := ih h.passed_turnstile (h.lineage_around hw hgraph hpending) hgraph
      hnext (by rw [List.length_append, List.length_singleton]; omega)
    refine ⟨e', ⟨hround.config, ?_, hround.node, hround.brink⟩, fun fuel hfuel => ?_⟩
    · rw [hround.visits, visits_passed]
      omega
    · obtain ⟨fuel, rfl⟩ : ∃ m, fuel = m + 1 := ⟨fuel - 1, by omega⟩
      rw [h.call_succ hgraph hpending]
      exact hrun fuel (by omega)

end Turnstile

theorem Turnstile.Round.not_counts {g : GraphId} {n : LiveNode} {times : Nat} {e' : Engine}
    (h : Turnstile.Round g n times e e') : ¬ e'.Counts := by
  obtain ⟨xs, w, hw, hlength, hgraph, hpending⟩ := h.brink
  intro hcounts
  have hlt := hcounts.ranged xs w hw n.id n hpending (hgraph ▸ h.node)
  rw [hw.hops_eq (by omega), hlength] at hlt
  exact Nat.lt_irrefl _ hlt

/-! ### Which limits hold -/

/-- A node type with such nodes. -/
def turnstile : NodeType Behaviour where
  metadata := { name := "turnstile", group := .control, color := .sky, outputs := [⟨"next", ""⟩] }
  behaviour := some {
    execute := fun n w =>
      if w.hops = 0 then .finish w.vars none
      else .attempt n.next fun next => .finish w.vars next }

theorem honest_turnstile : ∀ b, turnstile.behaviour = some b → b.Honest := by
  rintro _ ⟨⟩
  refine ⟨fun _ _ => Program.within_done, fun _ _ => Program.within_done, fun n w => ?_⟩
  dsimp only
  split
  · exact Program.within_finish _ _
  · exact Program.within_attempt fun _ _ => Program.within_finish _ _

/-- There are turnstiles under every limit that is no less than the largest count, and without a
limit. -/
theorem exists_turnstile {maxHops : Option Nat}
    (hmax : ∀ limit, maxHops = some limit → UInt32.size ≤ limit + 1) :
    ∃ e g n, Conducted e ∧ e.config.maxHops = maxHops ∧ Turnstile e g n := by
  let registry : Registry Behaviour := (∅ : StringMap _).insert "turnstile" turnstile
  let outputs : StringMap (Option String) := (∅ : StringMap _).insert "next" (some "loop")
  let p : Program := .call (.load ⟨[⟨"loop", "turnstile", { outputs := outputs }⟩]⟩) .conclude
  obtain ⟨e₀, hcreate⟩ : ∃ e₀,
      create { maxHops := maxHops } registry ∅ .inMemory (some {}) none (fun _ low _ => low) =
        .ok e₀ := ⟨_, rfl⟩
  -- the load does not ask for the limit, so its outcome can be computed without knowing it
  obtain ⟨e, hrun, hconfig, n, hnode, hid, hnext, hexecute⟩ : ∃ e, (perform 2 p e₀).Leaves e ∧
      e.config.maxHops = maxHops ∧ ∃ n, (e.graph 2).node? "loop" = some n ∧ n.id = "loop" ∧
        n.node.next = .ok (some "loop") ∧ turnstile.behaviour.map (·.execute) =
          some n.behaviour.execute := by
    cases hcreate
    exact ⟨_, .returned _ _, rfl, _, rfl, rfl, rfl, rfl⟩
  have hregistry : registry.Behaves Behaviour.Honest := by
    intro name t b ht hb
    rw [StringMap.get?_insert] at ht
    split at ht
    · obtain rfl := Option.some.inj ht
      exact honest_turnstile b hb
    · cases ht
  have hp : p.Within Request.Fresh := by
    simp [p, Request.Fresh]
  have he₀ : Conducted e₀ := .created hcreate rfl (by rintro _ ⟨⟩) hregistry
  refine ⟨e, 2, n, .errand he₀ (.perform 2 p hp hrun), hconfig, hid ▸ hnode,
    fun limit hlimit => hmax limit (hconfig ▸ hlimit), fun w => ?_⟩
  rw [← Option.some.inj hexecute, hid]
  dsimp only
  split
  · rfl
  · rw [hnext]
    rfl

/-- Under these limits new walks come round, in engines whose host and node types make up none. -/
theorem exists_round {maxHops : Option Nat}
    (hmax : ∀ limit, maxHops = some limit → UInt32.size ≤ limit + 1) :
    ∃ e e' g n, Conducted e ∧ e.config.maxHops = maxHops ∧ Conducted e' ∧
      Turnstile.Round g n UInt32.size e e' ∧
      ∃ fuel, call fuel (.walk { graph := g, pending := some n.id }) e = .returned (.ok ()) e' := by
  obtain ⟨e, g, n, he, hconfig, hturnstile⟩ := exists_turnstile hmax
  have hsize : UInt32.size = UInt32.size - 1 + 1 := rfl
  obtain ⟨e', hround, hrun⟩ := hturnstile.comes_round
    (Lineage.fresh (w := { graph := g, pending := some n.id }) rfl) rfl rfl
    ((Nat.zero_add _).trans hsize.symm)
  -- the fuel stays a variable: nothing may compute with so large a number
  obtain ⟨fuel, hfuel⟩ : ∃ fuel, UInt32.size - 1 + 1 < fuel := ⟨_, Nat.lt_succ_self _⟩
  have hp : (Program.startWalk g n.id ∅).Within Request.Fresh := by
    simp [Request.Fresh]
  have hperform : (perform fuel (.startWalk g n.id ∅) e).Leaves e' := by
    rw [perform, Program.startWalk, Program.walkOn, exec, hrun fuel hfuel]
    exact .returned _ _
  exact ⟨e, e', g, n, he, hconfig, .errand he (.perform fuel _ hp hperform), hround, fuel,
    hrun fuel hfuel⟩

/-- **The count keeps its range, and the guard holds, exactly under limits below the largest
count.** In any case the count of a walk is the number of executions behind it, up to multiples of
the number of counts. Without a limit, and with the largest count for one, the guard stops no walk
at all. -/
theorem counts_iff (limit : Option UInt32) :
    ((∀ e, Conducted e → e.config.maxHops = limit.map UInt32.toNat → e.Counts) ↔
      ∃ l, limit = some l ∧ l.toNat + 1 < UInt32.size) ∧
    (∀ e xs w, Lineage e xs w → w.hops.toNat = xs.length % UInt32.size) ∧
    ((∀ l, limit = some l → UInt32.size ≤ l.toNat + 1) →
      ∀ e : Engine, e.config.maxHops = limit.map UInt32.toNat →
        ∀ w l id, e.arrival w ≠ .stopped l id) := by
  have hmax (hlarge : ∀ l, limit = some l → UInt32.size ≤ l.toNat + 1) :
      ∀ l, limit.map UInt32.toNat = some l → UInt32.size ≤ l + 1 := by
    intro l hl
    obtain ⟨l, hsome, rfl⟩ := Option.map_eq_some_iff.mp hl
    exact hlarge l hsome
  refine ⟨⟨fun hcounts => ?_, ?_⟩, fun e xs w hw => hw.hops_mod, fun hlarge e hconfig => ?_⟩
  · -- a limit that is never passed lets a walk go round until the count begins again
    by_contra hnone
    have hlarge : ∀ l, limit = some l → UInt32.size ≤ l.toNat + 1 := fun l hl =>
      Nat.le_of_not_lt fun hlt => hnone ⟨l, hl, hlt⟩
    obtain ⟨e, e', g, n, -, hconfig, he', hround, -⟩ := exists_round (hmax hlarge)
    exact hround.not_counts (hcounts e' he' (hround.config ▸ hconfig))
  · rintro ⟨l, rfl, hlt⟩ e - hconfig
    exact counts_of_lt hconfig hlt
  · have hunguarded : e.Unguarded := fun l hl => hmax hlarge l (hconfig.symm.trans hl)
    exact hunguarded.arrival_ne_stopped

/-- The default limit, in a new engine. -/
theorem counts_default : ∃ e, Conducted e ∧ e.config.maxHops = some 1024 ∧ e.Counts := by
  obtain ⟨e, hcreate⟩ : ∃ e,
      create {} ∅ ∅ .inMemory (some {}) none (fun _ low _ => low) = .ok e := ⟨_, rfl⟩
  have he : Conducted e := .created hcreate rfl (by rintro _ ⟨⟩) (by rintro _ _ _ ⟨⟩)
  have hconfig : e.config.maxHops = some 1024 := by
    cases hcreate
    rfl
  exact ⟨e, he, hconfig, (counts_iff (some 1024)).1.mpr ⟨1024, rfl, by decide⟩ e he hconfig⟩

/-- With the largest limit a new walk enters one node more than the limit, and no guard stops it. -/
theorem largest_limit_passed : ∃ e e' w, Conducted e ∧
    e.config.maxHops = some (UInt32.size - 1) ∧ w.hops = 0 ∧
    (∃ fuel, call fuel (.walk w) e = .returned (.ok ()) e') ∧
    e'.visits.length = e.visits.length + UInt32.size ∧ Conducted e' ∧ ¬ e'.Counts := by
  have hmax : ∀ limit, some (UInt32.size - 1) = some limit → UInt32.size ≤ limit + 1 := by
    rintro _ ⟨⟩
    decide
  obtain ⟨e, e', g, n, he, hconfig, he', hround, hrun⟩ := exists_round hmax
  exact ⟨e, e', _, he, hconfig, rfl, hrun, hround.visits, he', hround.not_counts⟩

end Flowgraph
