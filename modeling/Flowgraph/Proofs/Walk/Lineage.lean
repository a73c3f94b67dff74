import Flowgraph.Engine.Palette
import Flowgraph.Proofs.Walk.Chain

/-!
# The limit on hops holds along every lineage

Node types are free in what they do, but they come by walks in two ways only: they start new ones,
which have made no hop, and while a walk is in one of their nodes they fork it. That is what
`Behaviour.Honest` says, and `Conducted` are the engines that hosts and node types make who keep to
it.

In these engines every walk has its executions behind it (`Conducted.lawful`, `Conducted.holds`): a
fork those up to the one that it was taken from, and whatever is walked later, by a task or a job,
those up to where it was left behind. As many are they as the walk has made hops. So the guard,
which looks at the number of hops of one walk alone, bounds the whole lineage
(`hops_bound_lineages`).
-/

namespace Flowgraph

open Engine

/-- A walk that is asked for is a new one. -/
def Request.Fresh (q : Request) : Prop := ∀ w : Walk, q = .call (.walk w) → w.hops = 0

/-- A walk that is asked for in a node is a new one or a fork of the walk in the node. -/
def Request.FreshOrForked (w : Walk) (q : Request) : Prop :=
  ∀ u : Walk, q = .call (.walk u) → u.hops = 0 ∨ u.graph = w.graph ∧ u.hops = w.hops

/-- A node type comes by walks in no other way than by starting and by forking them. -/
structure Behaviour.Honest (b : Behaviour) : Prop where
  init : ∀ n s, (b.init n s).Within Request.Fresh
  unload : ∀ n s, (b.unload n s).Within Request.Fresh
  execute : ∀ n w, (b.execute n w).Within (Request.FreshOrForked w)

/-- The engines that come to be if neither the host nor a node type makes up walks. -/
inductive Conducted : Engine → Prop
  | created {config : Config} {registry : Registry Behaviour} {catalog : Catalog} {store : Store}
      {s : Scheduler (Nat → Program)} {pool : Option (Pool Program)}
      {dice : Nat → Float → Float → Float} {e : Engine}
      (h : create config registry catalog store (some s) pool dice = .ok e) (hs : s.tasks = [])
      (hpool : ∀ p, pool = some p → p.jobs = []) (hregistry : registry.Behaves Behaviour.Honest) :
      Conducted e
  | errand {e e' : Engine} (he : Conducted e)
      (h : Errand (fun _ => Request.Fresh) Behaviour.Honest e e') : Conducted e'

/-- The walks that may be asked for are those that have their executions behind them. -/
def Request.Traced (e : Engine) (q : Request) : Prop :=
  ∀ w : Walk, q = .call (.walk w) → ∃ xs, Lineage e xs w

/-- Every execution that has happened has others behind it. -/
def Engine.Attributed (e : Engine) : Prop :=
  ∀ v ∈ e.visits, ∃ xs x, Descends e xs x ∧ v.node = x.id ∧ v.walk = x.walk

variable {e : Engine}

theorem Request.Fresh.traced {q : Request} (h : q.Fresh) : q.Traced e :=
  fun w hw => ⟨[], .fresh (h w hw)⟩

/-- What an execution asks for has the execution behind it. -/
theorem Request.FreshOrForked.traced {xs : List Execution} {x : Execution} (hx : Descends e xs x)
    {q : Request} (h : q.FreshOrForked x.walk) (hq : x.program.Asks q) : q.Traced e := by
  rintro u rfl
  rcases h u rfl with hfresh | ⟨hgraph, hhops⟩
  · exact ⟨[], .fresh hfresh⟩
  · exact ⟨xs ++ [x], hx.leads (.forked hq hgraph hhops)⟩

/-- What a walk enters is recorded, with what is behind the walk behind it. -/
theorem Lineage.enters {xs : List Execution} {w w' : Walk} {n : LiveNode} (h : Lineage e xs w)
    (ha : e.arrival w = .entered n w') :
    Descends (e.record (.entered e.now n.id w')) xs ⟨n, w'⟩ := by
  have hext := Extends.record e (.entered e.now n.id w')
  refine ⟨⟨w, h.extends hext, hext.arrival ha⟩, e.now, ?_⟩
  rw [visits_record]
  exact List.mem_append_right _ (List.mem_singleton.mpr rfl)

theorem Conducted.lawful : Lawful Request.Traced Behaviour.Honest Engine.Attributed where
  mono h hq w hw := by
    obtain ⟨xs, hxs⟩ := hq w hw
    exact ⟨xs, hxs.extends h⟩
  keep h hvisits he v hv := by
    obtain ⟨xs, x, hx, heq⟩ := he v (hvisits ▸ hv)
    exact ⟨xs, x, hx.extends h, heq⟩
  init hb e n s := (hb.init n s).mono fun _ => Request.Fresh.traced
  unload hb e n s := (hb.unload n s).mono fun _ => Request.Fresh.traced
  enter := by
    intro e w n w' he hw ha hb
    have hext := Extends.record e (.entered e.now n.id w')
    obtain ⟨xs, hlineage⟩ := hw w rfl
    have hx := hlineage.enters ha
    -- the visit that is recorded now extends the lineage of the walk
    refine ⟨fun v hv => ?_, fun q hq => (hb.execute n.node w' q hq).traced hx hq, ?_⟩
    · rw [visits_record] at hv
      rcases List.mem_append.mp hv with hv | hv
      · obtain ⟨ys, y, hy, heq⟩ := he v hv
        exact ⟨ys, y, hy.extends hext, heq⟩
      · rw [List.mem_singleton.mp hv]
        exact ⟨xs, _, hx, rfl, rfl⟩
    · rintro vars next e' hfinishes hext' u hu
      cases hu
      exact ⟨xs ++ [_], (hx.extends hext').leads (.onward hfinishes)⟩

theorem Errand.mono {A A' : Engine → Request → Prop} {B : Behaviour → Prop} {e e' : Engine}
    (h : Errand A B e e') (hA : ∀ q, A e q → A' e q) : Errand A' B e e' := by
  cases h with
  | perform fuel p hp h => exact .perform fuel p (hp.mono hA) h
  | advance fuel millis h => exact .advance fuel millis h
  | work fuel h => exact .work fuel h
  | closePool fuel timeout h => exact .closePool fuel timeout h
  | register t ht h => exact .register t ht h
  | registerEvent name key => exact .registerEvent name key
  | write store => exact .write store

/-- A new engine stores no program, and no node was entered in it. -/
theorem holds_of_create {A : Engine → Request → Prop} {B : Behaviour → Prop} {J : Engine → Prop}
    {config : Config} {registry : Registry Behaviour} {catalog : Catalog} {store : Store}
    {s : Scheduler (Nat → Program)} {pool : Option (Pool Program)}
    {dice : Nat → Float → Float → Float}
    (h : create config registry catalog store (some s) pool dice = .ok e) (hs : s.tasks = [])
    (hpool : ∀ p, pool = some p → p.jobs = []) (hregistry : registry.Behaves B)
    (hown : e.visits = [] → J e) : Holds A B J e := by
  obtain ⟨hgraphs, -, -, hsched⟩ := of_create h
  have hjobs : e.pool.jobs = [] := by
    cases pool with
    | none => cases h; rw [logAll_eq]; rfl
    | some p => cases h; rw [logAll_eq]; exact hpool p rfl
  have hvisits : e.visits = [] := by
    cases pool <;>
    · cases h
      rw [visits_log, visits_logAll]
      rfl
  refine ⟨fun p hp => ?_, fun g n hn => ?_, registry_of_create h ▸ hregistry, hown hvisits⟩
  · -- there is no listener, no task and no job that could store one
    cases hp with
    | @reaction g key l hl event before =>
      rw [graph, hgraphs] at hl
      cases g <;> cases hl
    | body ht run =>
      rw [hsched, hs] at ht
      cases ht
    | job hjob =>
      rw [hjobs] at hjob
      cases hjob
  · rw [graph, hgraphs] at hn
    cases g <;> cases hn

/-- **Every walk has its executions behind it.** -/
theorem Conducted.holds (h : Conducted e) :
    Holds Request.Traced Behaviour.Honest Engine.Attributed e := by
  induction h with
  | created h hs hpool hregistry =>
    refine holds_of_create h hs hpool hregistry fun hvisits v hv => ?_
    rw [hvisits] at hv
    cases hv
  | errand _ h ih => exact ((h.mono fun _ => Request.Fresh.traced).kept Conducted.lawful ih).holds

/-! ### The guard -/

/-- What becomes of a walk with a number of executions behind it, where so many are allowed. -/
structure Guarded (limit count : Nat) (w : Walk) (e : Engine) : Prop where
  finished : w.pending = none → ∀ fuel, call (fuel + 1) (.walk w) e = .returned (.ok ()) e
  /-- A node that is not there neither counts nor is an error. -/
  stray : ∀ id, w.pending = some id → (e.graph w.graph).node? id = none → ∀ fuel,
    call (fuel + 1) (.walk w) e = .returned (.ok ()) (e.log (strayLog id))
  entered : ∀ id n, w.pending = some id → (e.graph w.graph).node? id = some n → count < limit →
    e.arrival w = .entered n { w with hops := w.hops + 1, pending := none }
  /-- The walk ends with an error, and the report is all that it leaves. -/
  stopped : ∀ id n, w.pending = some id → (e.graph w.graph).node? id = some n → count = limit →
    ∀ fuel, call (fuel + 1) (.walk w) e =
      .returned (.error (.hopLimitExceeded limit id)) (e.log (hopsLog limit id))

/-- The guard looks at the hops of one walk, and bounds all that is behind it. -/
theorem Lineage.guarded {xs : List Execution} {w : Walk} {limit : Nat} (h : Lineage e xs w)
    (hlimit : e.config.maxHops = some limit) (hmax : limit < UInt32.size - 1) :
    xs.length ≤ limit ∧ Guarded limit xs.length w e := by
  obtain ⟨hcount, hle⟩ := h.hops hlimit hmax
  have hsucc : (w.hops + 1).toNat = xs.length + 1 := by
    rw [toNat_hops_succ hmax (hcount ▸ hle), hcount]
  -- the count is exact up to the limit, so the guard looks at the executions
  have hguard : e.exceeded? (w.hops + 1) = if xs.length = limit then some limit else none := by
    rw [exceeded?, hlimit, Option.filter_some, hsucc]
    by_cases heq : xs.length = limit
    · rw [if_pos heq, if_pos (by simp; omega)]
    · rw [if_neg heq, if_neg (by simp; omega)]
  refine ⟨hle, ?_, ?_, ?_, ?_⟩
  · intro hid fuel
    simp only [call, arrival, hid]
  · intro id hid hn fuel
    simp only [call, arrival, hid, hn]
  · intro id n hid hn hlt
    simp only [arrival, hid, hn, hguard, if_neg (Nat.ne_of_lt hlt)]
  · intro id n hid hn heq fuel
    simp only [call, arrival, hid, hn, hguard, if_pos heq]

/-- What an execution asks for has the execution behind it, with all that was executed before, or it
is a new walk. -/
theorem Holds.forked {xs : List Execution} {x : Execution}
    (h : Holds Request.Traced Behaviour.Honest Engine.Attributed e) (hx : Descends e xs x)
    {u : Walk} (hu : x.program.Asks (.call (.walk u))) : u.hops = 0 ∨ Lineage e (xs ++ [x]) u := by
  obtain ⟨w, -, ha⟩ := hx.lineage
  have hhonest := h.members _ _ (mem_of_arrival ha)
  rcases hhonest.execute x.node.node x.walk _ hu u rfl with hfresh | ⟨hgraph, hhops⟩
  · exact .inl hfresh
  · exact .inr (hx.leads (.forked hu hgraph hhops))

/-- **The guard bounds every lineage.** With a limit below the largest count, whatever node types
and hosts do that make up no walks: each execution that has happened is the last of a chain of
executions that have happened, no longer than the limit; the walks that executions or stored
programs ask for are at the ends of such chains; and with as many executions behind it as the limit
allows, a walk that comes to another node executes nothing and ends with an error, in any engine of
the run. -/
theorem hops_bound_lineages (he : Conducted e) {limit : Nat}
    (hlimit : e.config.maxHops = some limit) (hmax : limit < UInt32.size - 1) :
    (∀ v ∈ e.visits, ∃ xs x, Descends e xs x ∧ v.node = x.id ∧ v.walk = x.walk ∧
      (xs ++ [x]).length ≤ limit) ∧
    (∀ xs x, Descends e xs x → ∀ u, x.program.Asks (.call (.walk u)) →
      u.hops = 0 ∨ Lineage e (xs ++ [x]) u) ∧
    (∀ p, e.Stores p → ∀ u, p.Asks (.call (.walk u)) → ∃ xs, Lineage e xs u) ∧
    ∀ m : Engine, m.config = e.config → ∀ xs w, Lineage m xs w →
      xs.length ≤ limit ∧ Guarded limit xs.length w m := by
  have h := he.holds
  refine ⟨fun v hv => ?_, fun xs x hx u hu => h.forked hx hu, fun p hp u hu => ?_,
    fun m hm xs w hw => hw.guarded (hm ▸ hlimit) hmax⟩
  · obtain ⟨xs, x, hx, hnode, hwalk⟩ := h.own v hv
    obtain ⟨w, hlineage, ha⟩ := hx.lineage
    -- as many hops as executions before this one, and one more was allowed
    obtain ⟨hcount, hle⟩ := hlineage.hops hlimit hmax
    obtain ⟨-, hpassed⟩ := hops_of_arrival hlimit hmax (hcount ▸ hle) ha
    exact ⟨xs, x, hx, hnode, hwalk, by rwa [List.length_append, List.length_singleton, ← hcount]⟩
  · exact h.stores p hp _ hu u rfl

/-- A node type whose nodes fork a walk and follow the fork at once, and leave another fork for
later. -/
def relay : NodeType Behaviour where
  metadata := { name := "relay", group := .control, color := .sky, outputs := [⟨"next", ""⟩] }
  behaviour := some {
    execute := fun n w => .attempt n.next fun
      | none => .finish w.vars none
      | some next =>
        .call (.walk { w with pending := some next }) fun _ =>
          .schedule w.graph (.once (.ofMillis 5)) (fun _ => .walkOn w next) fun _ =>
            .finish w.vars none }

theorem honest_relay : ∀ b, relay.behaviour = some b → b.Honest := by
  rintro _ ⟨⟩
  refine ⟨fun _ _ => Program.within_done, fun _ _ => Program.within_done, fun n w => ?_⟩
  refine Program.within_attempt fun next _ => ?_
  cases next with
  | none => exact Program.within_finish _ _
  | some next =>
    -- both forks have the graph and the hops of the walk in the node
    simp [Request.FreshOrForked]

/-- A walk around a loop of one node is stopped behind its second hop, and so are its forks. -/
theorem hops_bound_loop : ∃ e : Engine, Conducted e ∧ e.config.maxHops = some 2 ∧
    e.visits.length = 2 ∧ e.scheduler.tasks.length = 2 ∧
    (∀ v ∈ e.visits, ∃ xs x, Descends e xs x ∧ v.node = x.id ∧ v.walk = x.walk ∧
      (xs ++ [x]).length ≤ 2) ∧
    ∀ p, e.Stores p → ∀ u, p.Asks (.call (.walk u)) → ∃ xs, Lineage e xs u := by
  let registry : Registry Behaviour := (∅ : StringMap _).insert "relay" relay
  let outputs : StringMap (Option String) := (∅ : StringMap _).insert "next" (some "loop")
  let p : Program := .call (.load ⟨[⟨"loop", "relay", { outputs := outputs }⟩]⟩) fun _ =>
    .act .live fun g => .startWalk g "loop" ∅
  obtain ⟨e₀, hcreate⟩ : ∃ e₀,
      create { maxHops := some 2 } registry ∅ .inMemory (some {}) none (fun _ low _ => low) =
        .ok e₀ := ⟨_, rfl⟩
  have hleft : (perform 10 p e₀).left?.map
      (fun e => (e.config.maxHops, e.visits.length, e.scheduler.tasks.length)) =
        some (some 2, 2, 2) := by
    cases hcreate
    decide +kernel
  obtain ⟨e, hrun, hparts⟩ := Run.exists_leaves hleft
  obtain ⟨hlimit, hvisits, htasks⟩ : e.config.maxHops = some 2 ∧ e.visits.length = 2 ∧
      e.scheduler.tasks.length = 2 := by simpa using hparts
  -- the one type that there is forks its own walk only
  have hregistry : registry.Behaves Behaviour.Honest := by
    intro name t b ht hb
    rw [StringMap.get?_insert] at ht
    split at ht
    · obtain rfl := Option.some.inj ht
      exact honest_relay b hb
    · cases ht
  have hp : p.Within Request.Fresh := by
    simp [p, Request.Fresh]
  have he : Conducted e :=
    .errand (.created hcreate rfl nofun hregistry) (.perform 10 p hp hrun)
  have h := hops_bound_lineages he hlimit (by decide)
  exact ⟨e, he, hlimit, hvisits, htasks, h.1, h.2.2.1⟩

end Flowgraph
