import Flowgraph.Pool
import Mathlib.Data.List.Perm.Basic
import Mathlib.Data.List.Nodup

/-!
# Where the permits are

A permit is free, or a shutdown has gathered it, or a job holds it. As long as the pool is open none
is lost and none is made, whatever happens to the pool, so the free ones tell how many jobs are
unfinished.

* `Pool.Balanced` — the account of the permits, which every change of a pool keeps.
* `Pool.Balanced.submit_iff` — so a job is accepted exactly if there is a worker for it.
-/

namespace Flowgraph

namespace Pool

variable {β : Type} {p p' : Pool β}

/-! ### Permits -/

/-- The permits that shutdowns have gathered. -/
def held : List Drain → Nat
  | [] => 0
  | d :: rest => d.gathered + held rest

/-- The permits that no job holds. -/
def permits (p : Pool β) : Nat := p.available + held p.drains

/-- What two groups of shutdowns hold they hold together. -/
theorem held_append (ds ds' : List Drain) : held (ds ++ ds') = held ds + held ds' := by
  induction ds with
  | nil => exact (Nat.zero_add _).symm
  | cons d rest ih =>
    rw [List.cons_append, held, held, ih, Nat.add_assoc]

/-- No permit is lost when permits are handed out. -/
theorem held_handOut (limit : Nat) (ds : List Drain) (permits : Nat) :
    held (handOut limit ds permits).1 + (handOut limit ds permits).2 = held ds + permits := by
  induction ds generalizing permits with
  | nil => rfl
  | cons d rest ih =>
    have hrest := ih (permits - min permits (limit - d.gathered))
    -- a shutdown takes no more than there is
    have hle : min permits (limit - d.gathered) ≤ permits := Nat.min_le_left ..
    simp only [handOut, held] at hrest ⊢
    omega

/-- The shutdowns stay the same when permits are handed out. -/
theorem numbers_handOut (limit : Nat) (ds : List Drain) (permits : Nat) :
    (handOut limit ds permits).1.map (·.number) = ds.map (·.number) := by
  induction ds generalizing permits with
  | nil => rfl
  | cons d rest ih => exact congrArg (d.number :: ·) (ih _)

/-- No shutdown gathers more than it waits for. -/
theorem gathered_handOut {limit : Nat} {ds : List Drain} (h : ∀ d ∈ ds, d.gathered ≤ limit)
    (permits : Nat) : ∀ d ∈ (handOut limit ds permits).1, d.gathered ≤ limit := by
  induction ds generalizing permits with
  | nil => exact List.forall_mem_nil _
  | cons d rest ih =>
    obtain ⟨hd, hrest⟩ := List.forall_mem_cons.mp h
    refine List.forall_mem_cons.mpr ⟨?_, ih hrest _⟩
    show d.gathered + min permits (limit - d.gathered) ≤ limit
    omega

/-- What stays as it is when permits are given back. -/
structure Released (p p' : Pool β) : Prop where
  size : p'.size = p.size
  closed : p'.closed = p.closed
  jobs : p'.jobs = p.jobs
  accepted : p'.accepted = p.accepted
  shutdowns : p'.shutdowns = p.shutdowns
  numbers : p'.drains.map (·.number) = p.drains.map (·.number)

theorem released (p : Pool β) (permits : Nat) : Released p (p.release permits) := by
  unfold release
  split
  · exact ⟨rfl, rfl, rfl, rfl, rfl, rfl⟩
  · exact ⟨rfl, rfl, rfl, rfl, rfl, numbers_handOut ..⟩

/-- The end of a shutdown is no matter of jobs. -/
theorem jobs_endDrain (p : Pool β) (number : Nat) : (p.endDrain number).jobs = p.jobs :=
  (released (p.without number) _).jobs

/-- The beginning of a shutdown is no matter of jobs. -/
theorem jobs_startDrain (p : Pool β) : p.startDrain.jobs = p.jobs := by
  unfold startDrain
  split <;> rfl

/-- A job that finishes leaves the list, and none is added. -/
theorem jobs_finish_subset (p : Pool β) (number : Nat) : (p.finish number).jobs ⊆ p.jobs := by
  unfold finish
  split
  · rw [(released _ 1).jobs]
    exact List.eraseP_subset
  · exact List.Subset.refl _

/-- A release gives back so many permits, to whomever they go. -/
theorem permits_release (p : Pool β) (permits : Nat) :
    (p.release permits).permits = p.permits + permits := by
  unfold release
  split
  · exact Nat.add_right_comm ..
  · have h := held_handOut p.drainPermits p.drains permits
    simp only [Pool.permits]
    omega

/-- No shutdown gathers more by a release than it waits for. -/
theorem gathered_release {p : Pool β} (h : ∀ d ∈ p.drains, d.gathered ≤ p.drainPermits)
    (permits : Nat) : ∀ d ∈ (p.release permits).drains, d.gathered ≤ p.drainPermits := by
  unfold release
  split
  · exact h
  · exact gathered_handOut h permits

/-! ### The end of a shutdown -/

/-- What a shutdown under way has gathered. -/
theorem gathered_of_mem (hnodup : (p.drains.map (·.number)).Nodup) {d : Drain} (h : d ∈ p.drains) :
    p.gathered d.number = d.gathered := by
  -- no other shutdown has the number
  have hfind : p.drains.find? (·.number = d.number) = some d := by
    cases hfound : p.drains.find? (·.number = d.number) with
    | none => exact absurd (decide_eq_true rfl) (List.find?_eq_none.mp hfound d h)
    | some d' =>
      have hnumber := List.find?_some hfound
      exact congrArg some (List.inj_on_of_nodup_map hnodup (List.mem_of_find?_eq_some hfound) h
        (of_decide_eq_true hnumber))
  rw [gathered, hfind]
  rfl

/-- Without one of the shutdowns, its permits are missing. -/
theorem held_filter {ds : List Drain} (hnodup : (ds.map (·.number)).Nodup) {d : Drain}
    (h : d ∈ ds) : held (ds.filter (·.number ≠ d.number)) + d.gathered = held ds := by
  induction ds with
  | nil => cases h
  | cons d' rest ih =>
    rw [List.map_cons, List.nodup_cons] at hnodup
    obtain ⟨hnew, hrest⟩ := hnodup
    rcases List.mem_cons.mp h with rfl | h
    · -- none of the others has its number
      have hothers : rest.filter (·.number ≠ d.number) = rest :=
        List.filter_eq_self.mpr fun d' hd' => decide_eq_true fun heq =>
          hnew (heq ▸ List.mem_map_of_mem hd')
      rw [List.filter_cons_of_neg (by simp), hothers]
      exact Nat.add_comm ..
    · have hne : d'.number ≠ d.number := fun heq => hnew (heq ▸ List.mem_map_of_mem h)
      have hsum := ih hrest h
      rw [List.filter_cons_of_pos (by simpa using hne)]
      simp only [held] at hsum ⊢
      omega

/-- The permits that a shutdown keeps for good when it ends. -/
def spent (p : Pool β) (number : Nat) : Nat :=
  if !p.closed && p.isDrained number then p.gathered number else 0

/-- What a shutdown has gathered is given back or spent when it ends. -/
theorem returned_add_spent (p : Pool β) (number : Nat) :
    p.returned number + p.spent number = p.gathered number := by
  unfold returned spent
  split
  · exact Nat.zero_add _
  · rfl

/-- When a shutdown ends, the pool loses what is spent. -/
theorem permits_endDrain (hnodup : (p.drains.map (·.number)).Nodup) {d : Drain}
    (h : d ∈ p.drains) : (p.endDrain d.number).permits + p.spent d.number = p.permits := by
  have hheld := held_filter hnodup h
  have hgathered := gathered_of_mem hnodup h
  have hspent := returned_add_spent p d.number
  -- what it had gathered goes back, but for what is spent
  have hend : (p.endDrain d.number).permits =
      (p.available + held (p.drains.filter (·.number ≠ d.number))) + p.returned d.number :=
    permits_release (p.without d.number) _
  rw [hend, permits]
  omega

/-! ### The account of the permits -/

/-- **The account of the permits.** -/
structure Balanced (size : Nat) (p : Pool β) : Prop where
  size_eq : p.size = max size 1
  numbered : ∀ n ∈ p.drains.map (·.number), n < p.shutdowns
  distinct : (p.drains.map (·.number)).Nodup
  limited : ∀ d ∈ p.drains, d.gathered ≤ p.drainPermits
  /-- In an open pool each permit is with a job, with a shutdown, or free. -/
  balance : p.closed = false → p.permits + p.jobs.length = p.size
  bound : p.permits + p.jobs.length ≤ p.size

/-- A shutdown waits for as many permits as the pool has workers. -/
theorem drainPermits_eq (h : p'.size = p.size) : p'.drainPermits = p.drainPermits := by
  rw [drainPermits, drainPermits, h]

/-- A new pool has as many permits as workers. -/
theorem balanced_ofSize (size : Nat) : Balanced size (ofSize size : Pool β) where
  size_eq := rfl
  numbered := List.forall_mem_nil _
  distinct := .nil
  limited := List.forall_mem_nil _
  balance _ := rfl
  bound := Nat.le_refl _

/-- A job is taken if the pool is open and a permit is there, and it gets the permit. -/
theorem of_submit {work : β} (h : p.submit work = .ok p') : p.closed = false ∧ 0 < p.available ∧
    p' = { p with
      available := p.available - 1
      jobs := p.jobs ++ [⟨p.accepted, work⟩]
      accepted := p.accepted + 1 } := by
  unfold submit at h
  split at h
  · cases h
  · next hopen =>
    split at h
    · cases h
    · next hnone =>
      cases h
      exact ⟨Bool.not_eq_true _ ▸ hopen, Nat.pos_of_ne_zero hnone, rfl⟩

/-- A job that comes to its end gives back one permit. -/
theorem finish_eq {job : Job β} (h : job ∈ p.jobs) :
    p.finish job.number =
      { p with jobs := p.jobs.eraseP (·.number = job.number) }.release 1 :=
  if_pos (List.any_eq_true.mpr ⟨job, h, decide_eq_true rfl⟩)

/-- There is one job less then. -/
theorem length_eraseP {job : Job β} (h : job ∈ p.jobs) :
    (p.jobs.eraseP (·.number = job.number)).length + 1 = p.jobs.length := by
  rw [List.length_eraseP_of_mem h (decide_eq_true rfl)]
  exact Nat.sub_add_cancel (List.length_pos_of_mem h)

namespace Balanced

variable {size : Nat} (hp : Balanced size p)
include hp

/-- A job that is taken keeps the balance. -/
theorem accept {work : β} (h : p.submit work = .ok p') : Balanced size p' := by
  obtain ⟨hopen, hfree, rfl⟩ := of_submit h
  have hbalance := hp.balance hopen
  -- a permit goes from those that are free to the new job
  have hpermits : p.available - 1 + held p.drains + (p.jobs ++ [Job.mk p.accepted work]).length =
      p.size := by
    rw [List.length_append, List.length_singleton]
    rw [permits] at hbalance
    omega
  exact { hp with
    balance := fun _ => hpermits
    bound := Nat.le_of_eq hpermits }

/-- A job that is finished gives its permit back. -/
theorem finish {job : Job β} (h : job ∈ p.jobs) : Balanced size (p.finish job.number) := by
  have hlength := length_eraseP h
  rw [finish_eq h]
  have hr := released { p with jobs := p.jobs.eraseP (·.number = job.number) } 1
  have hpermits := permits_release { p with jobs := p.jobs.eraseP (·.number = job.number) } 1
  refine ⟨hr.size.trans hp.size_eq, ?_, ?_, ?_, fun hopen => ?_, ?_⟩
  · rw [hr.numbers, hr.shutdowns]
    exact hp.numbered
  · rw [hr.numbers]
    exact hp.distinct
  · rw [drainPermits_eq hr.size]
    exact gathered_release (p := { p with jobs := p.jobs.eraseP (·.number = job.number) })
      hp.limited 1
  · -- the job gives one permit back, and there is one job less
    have hbalance := hp.balance (hr.closed.symm.trans hopen)
    rw [hpermits, hr.jobs, hr.size]
    show p.permits + 1 + (p.jobs.eraseP _).length = p.size
    omega
  · have hbound := hp.bound
    rw [hpermits, hr.jobs, hr.size]
    show p.permits + 1 + (p.jobs.eraseP _).length ≤ p.size
    omega

/-- A shutdown that begins takes permits that were free. -/
theorem startDrain : Balanced size p.startDrain := by
  unfold Pool.startDrain
  split
  · exact hp
  · -- the permits that it takes stay with the pool, held by the new shutdown
    have hnew : p.shutdowns ∉ p.drains.map (·.number) :=
      fun hmem => Nat.lt_irrefl _ (hp.numbered _ hmem)
    have hle : min p.available p.drainPermits ≤ p.available := Nat.min_le_left ..
    have hpermits : p.available - min p.available p.drainPermits +
        held (p.drains ++ [⟨p.shutdowns, min p.available p.drainPermits⟩]) = p.permits := by
      have hone : held [⟨p.shutdowns, min p.available p.drainPermits⟩] =
          min p.available p.drainPermits := rfl
      rw [held_append, hone, permits]
      omega
    refine ⟨hp.size_eq, ?_, ?_, ?_, fun hopen => ?_, ?_⟩
    · rw [List.map_append]
      exact List.forall_mem_append.mpr
        ⟨fun n hn => Nat.lt_succ_of_lt (hp.numbered n hn),
          List.forall_mem_singleton.mpr (Nat.lt_succ_self _)⟩
    · rw [List.map_append]
      refine List.nodup_append.mpr ⟨hp.distinct, List.nodup_singleton _, ?_⟩
      rintro n hn _ hn' rfl
      rw [List.mem_singleton.mp hn'] at hn
      exact hnew hn
    · exact List.forall_mem_append.mpr
        ⟨hp.limited, List.forall_mem_singleton.mpr (Nat.min_le_right ..)⟩
    · exact (congrArg (· + p.jobs.length) hpermits).trans (hp.balance hopen)
    · exact Nat.le_trans (Nat.le_of_eq (congrArg (· + p.jobs.length) hpermits)) hp.bound

/-- A shutdown that ends closes the pool. -/
theorem endDrain {d : Drain} (h : d ∈ p.drains) : Balanced size (p.endDrain d.number) := by
  have hr := released (p.without d.number) (p.returned d.number)
  have hpermits := permits_endDrain hp.distinct h
  have hsublist : List.Sublist ((p.drains.filter (·.number ≠ d.number)).map (·.number))
      (p.drains.map (·.number)) := List.filter_sublist.map _
  have hnumbers : (p.endDrain d.number).drains.map (·.number) =
      (p.drains.filter (·.number ≠ d.number)).map (·.number) := hr.numbers
  have hlimited : ∀ d' ∈ (p.without d.number).drains, d'.gathered ≤ p.drainPermits :=
    fun d' hd' => hp.limited d' (List.mem_of_mem_filter hd')
  refine ⟨hr.size.trans hp.size_eq, ?_, ?_, ?_, (fun hopen => nomatch hopen), ?_⟩
  · rw [hnumbers]
    intro n hn
    show n < ((p.without d.number).release _).shutdowns
    rw [hr.shutdowns]
    exact hp.numbered n (hsublist.mem hn)
  · rw [hnumbers]
    exact hp.distinct.sublist hsublist
  · rw [show (p.endDrain d.number).drainPermits = p.drainPermits from drainPermits_eq hr.size]
    exact gathered_release (p := p.without d.number) hlimited _
  · -- what is not given back is gone, so the bound is kept all the more
    have hjobs : (p.endDrain d.number).jobs = p.jobs := hr.jobs
    have hsize : (p.endDrain d.number).size = p.size := hr.size
    have hbound := hp.bound
    rw [hjobs, hsize]
    omega

/-- A job is accepted exactly if there is a worker for it. -/
theorem submit_iff (hdrains : p.drains = []) (work : β) :
    (∃ p', p.submit work = .ok p') ↔ p.closed = false ∧ p.jobs.length < max size 1 := by
  constructor
  · rintro ⟨p', h⟩
    obtain ⟨hopen, hfree, -⟩ := of_submit h
    have hbalance := hp.balance hopen
    -- no drain holds permits, so the free ones and the jobs make up the size
    rw [permits, hdrains, hp.size_eq] at hbalance
    have hbalance : p.available + p.jobs.length = max size 1 := hbalance
    exact ⟨hopen, by omega⟩
  · rintro ⟨hopen, hlt⟩
    have hbalance := hp.balance hopen
    rw [permits, hdrains, hp.size_eq] at hbalance
    have hbalance : p.available + p.jobs.length = max size 1 := hbalance
    have hfree : ¬ p.available = 0 := by omega
    rw [submit, hopen, if_neg Bool.false_ne_true, if_neg hfree]
    exact ⟨_, rfl⟩

end Balanced

end Pool

end Flowgraph
