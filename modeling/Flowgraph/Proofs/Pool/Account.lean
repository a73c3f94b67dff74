import Flowgraph.Proofs.Pool.Permits

/-!
# What becomes of jobs

Jobs are handed in, workers come to the end of jobs, and shutdowns begin and end, in any order.
Every job that was accepted is finished once, or it is unfinished; what was refused is neither. A
shutdown that has gathered all permits knows that no job is unfinished, and one that finds the pool
closed does not look.

* `Pool.Step`, `Pool.Steps` — what happens to a pool.
* `Pool.Sound`, `Pool.Steps.sound` — the account of the jobs of a pool that began as a new one.
* `Pool.Step.shut_closed`, `Pool.Sound.shut_open` — what the answer of a shutdown says of the jobs.
-/

namespace Flowgraph

namespace Pool

variable {β : Type} {p p' q : Pool β}

/-! ### What happens to a pool -/

/-- What a pool is told or answers. -/
inductive Happening (β : Type) where
  | accepted (work : β)
  | refused (work : β) (err : SchedulingError)
  /-- A worker has come to the end of a job, well or not. -/
  | finished (number : Nat)
  /-- A shutdown begins. -/
  | shutting
  /-- A shutdown is over, and this is its answer. -/
  | shut (drained : Bool)

/-- One step of a pool, and what happens in it. -/
inductive Step : Pool β → Happening β → Pool β → Prop
  | accepted {p p' : Pool β} {work : β} (h : p.submit work = .ok p') : Step p (.accepted work) p'
  | refused {p : Pool β} {work : β} {err : SchedulingError} (h : p.submit work = .error err) :
      Step p (.refused work err) p
  | finished {p : Pool β} {job : Job β} (h : job ∈ p.jobs) :
      Step p (.finished job.number) (p.finish job.number)
  | shutting {p : Pool β} (h : p.closed = false) : Step p .shutting p.startDrain
  /-- A shutdown of a closed pool is over at once. -/
  | already {p : Pool β} (h : p.closed = true) : Step p (.shut true) p
  | shut {p : Pool β} {d : Drain} (h : d ∈ p.drains) :
      Step p (.shut (p.isDrained d.number)) (p.endDrain d.number)

/-- Any number of steps, the earliest first. -/
inductive Steps (p : Pool β) : List (Happening β) → Pool β → Prop
  | nil : Steps p [] p
  | snoc {hs : List (Happening β)} {h : Happening β} {q q' : Pool β} (hq : Steps p hs q)
      (hstep : Step q h q') : Steps p (hs ++ [h]) q'

theorem Steps.single {h : Happening β} (hstep : Step p h q) : Steps p [h] q := .snoc .nil hstep

theorem Steps.trans {hs hs' : List (Happening β)} (h : Steps p hs p') (h' : Steps p' hs' q) :
    Steps p (hs ++ hs') q := by
  induction h' with
  | nil =>
    rw [List.append_nil]
    exact h
  | snoc _ hstep ih =>
    rw [← List.append_assoc]
    exact ih.snoc hstep

/-! ### Handing in jobs -/

/-- Jobs have been handed in, and were accepted. -/
abbrev Handed : Pool β → Pool β → Prop :=
  Relation.ReflTransGen fun p q => ∃ work, p.submit work = .ok q

theorem Handed.steps (h : Handed p q) : ∃ works : List β, Steps p (works.map .accepted) q := by
  induction h with
  | refl => exact ⟨[], .nil⟩
  | tail _ hsubmit ih =>
    -- the last job is handed in behind the others
    obtain ⟨works, hsteps⟩ := ih
    obtain ⟨work, hsubmit⟩ := hsubmit
    refine ⟨works ++ [work], ?_⟩
    rw [List.map_append]
    exact hsteps.snoc (.accepted hsubmit)

/-- What stays as it is when jobs are handed in. -/
theorem Handed.frame (h : Handed p q) : q.drains = p.drains ∧ q.closed = p.closed ∧
    p.jobs ⊆ q.jobs := by
  induction h with
  | refl => exact ⟨rfl, rfl, List.Subset.refl _⟩
  | tail _ hsubmit ih =>
    obtain ⟨hdrains, hclosed, hjobs⟩ := ih
    obtain ⟨work, hsubmit⟩ := hsubmit
    obtain ⟨-, -, rfl⟩ := of_submit hsubmit
    exact ⟨hdrains, hclosed, List.subset_append_of_subset_left _ hjobs⟩

/-! ### The account of the jobs -/

/-- The job that was accepted, if that is what happened. -/
def accepted? : Happening β → Option β
  | .accepted work => some work
  | _ => none

/-- The job that has come to its end, if one has. -/
def finished? : Happening β → Option Nat
  | .finished number => some number
  | _ => none

/-- What has happened to the jobs of a pool. -/
structure Recorded (hs : List (Happening β)) (p : Pool β) : Prop where
  accepted_eq : p.accepted = (hs.filterMap accepted?).length
  /-- Each accepted job was finished once, or it is unfinished, and then there is one of it. -/
  once : (hs.filterMap finished? ++ p.jobs.map (·.number)).Perm (List.range p.accepted)
  works : ∀ job ∈ p.jobs, (hs.filterMap accepted?)[job.number]? = some job.work

theorem recorded_ofSize (size : Nat) : Recorded [] (ofSize size : Pool β) :=
  ⟨rfl, .refl _, List.forall_mem_nil _⟩

namespace Recorded

variable {hs : List (Happening β)} (hp : Recorded hs p)
include hp

theorem number_lt {job : Job β} (h : job ∈ p.jobs) : job.number < p.accepted := by
  have hmem := List.mem_append_right (hs.filterMap finished?)
    (List.mem_map_of_mem (f := Job.number) h)
  exact List.mem_range.mp (hp.once.mem_iff.mp hmem)

/-- What is neither the acceptance of a job nor the end of one. -/
theorem other {h : Happening β} (haccepted : accepted? h = none) (hfinished : finished? h = none)
    (hjobs : p'.jobs = p.jobs) (hcount : p'.accepted = p.accepted) : Recorded (hs ++ [h]) p' := by
  have ha : (hs ++ [h]).filterMap accepted? = hs.filterMap accepted? := by
    rw [List.filterMap_append, List.filterMap_cons_none haccepted]
    exact List.append_nil _
  have hf : (hs ++ [h]).filterMap finished? = hs.filterMap finished? := by
    rw [List.filterMap_append, List.filterMap_cons_none hfinished]
    exact List.append_nil _
  refine ⟨?_, ?_, ?_⟩
  · rw [ha, hcount]
    exact hp.accepted_eq
  · rw [hf, hjobs, hcount]
    exact hp.once
  · rw [ha, hjobs]
    exact hp.works

theorem accept {work : β} (h : p.submit work = .ok p') :
    Recorded (hs ++ [.accepted work]) p' := by
  obtain ⟨-, -, rfl⟩ := of_submit h
  have ha : (hs ++ [Happening.accepted work]).filterMap accepted? =
      hs.filterMap accepted? ++ [work] := List.filterMap_append
  have hf : (hs ++ [Happening.accepted work]).filterMap finished? = hs.filterMap finished? := by
    rw [List.filterMap_append]
    exact List.append_nil _
  refine ⟨?_, ?_, ?_⟩
  · -- the new job has the next number
    rw [ha, List.length_append, ← hp.accepted_eq]
    rfl
  · rw [hf, List.map_append, ← List.append_assoc, List.range_succ]
    exact hp.once.append_right [p.accepted]
  · rw [ha]
    refine List.forall_mem_append.mpr ⟨fun job hjob => ?_, List.forall_mem_singleton.mpr ?_⟩
    · rw [List.getElem?_append_left (hp.accepted_eq ▸ hp.number_lt hjob)]
      exact hp.works job hjob
    · rw [hp.accepted_eq]
      exact List.getElem?_concat_length

/-- A job that is finished is not unfinished any more, and all others are what they were. -/
theorem finish {job : Job β} (h : job ∈ p.jobs) :
    Recorded (hs ++ [.finished job.number]) (p.finish job.number) := by
  have ha : (hs ++ [Happening.finished job.number]).filterMap accepted? =
      hs.filterMap accepted? := by
    rw [List.filterMap_append]
    exact List.append_nil _
  have hf : (hs ++ [Happening.finished job.number]).filterMap finished? =
      hs.filterMap finished? ++ [job.number] := List.filterMap_append
  -- of the jobs in the list, the first with the number is the one
  have hr := released { p with jobs := p.jobs.eraseP (·.number = job.number) } 1
  obtain ⟨job', before, after, -, hnumber, hjobs, herase⟩ :=
    List.exists_of_eraseP (p := (·.number = job.number)) h (decide_eq_true rfl)
  have hnumber : job'.number = job.number := of_decide_eq_true hnumber
  rw [finish_eq h]
  refine ⟨?_, ?_, ?_⟩
  · rw [ha, hr.accepted]
    exact hp.accepted_eq
  · -- the finished number goes from the jobs to those that are over
    have honce := hp.once
    rw [hjobs, List.map_append, List.map_cons, hnumber] at honce
    rw [hf, hr.jobs, hr.accepted]
    show (_ ++ [job.number] ++ (p.jobs.eraseP (·.number = job.number)).map (·.number)).Perm
      (List.range p.accepted)
    have hmiddle : (job.number :: (before.map (·.number) ++ after.map (·.number))).Perm
        (before.map (·.number) ++ job.number :: after.map (·.number)) := List.perm_middle.symm
    rw [herase, List.map_append, List.append_assoc]
    exact (hmiddle.append_left _).trans honce
  · rw [ha, hr.jobs]
    exact fun job' hjob' => hp.works job' (List.mem_of_mem_eraseP hjob')

end Recorded

/-- When a shutdown has drained an open pool, what it asked for is spent, and with the jobs and free
are the permits that it did not ask for. -/
theorem Balanced.spent {size : Nat} (hp : Balanced size p) (hopen : p.closed = false) {d : Drain}
    (h : d ∈ p.drains) (hall : p.isDrained d.number = true) :
    (p.endDrain d.number).permits + p.jobs.length + min (max size 1) Decimal.maxNat32 =
      max size 1 := by
  have hspent : p.spent d.number = p.drainPermits := by
    rw [Pool.spent, if_pos (by rw [hopen, hall]; rfl)]
    rw [isDrained, hopen, Bool.false_or] at hall
    exact of_decide_eq_true hall
  have hpermits := permits_endDrain hp.distinct h
  have hbalance := hp.balance hopen
  rw [hspent, drainPermits, hp.size_eq] at hpermits
  rw [hp.size_eq] at hbalance
  omega

/-- A shutdown that has all the permits has waited for all jobs. -/
theorem Balanced.jobs_eq_nil {size : Nat} (hp : Balanced size p)
    (hsmall : max size 1 ≤ Decimal.maxNat32) (hopen : p.closed = false) {d : Drain}
    (h : d ∈ p.drains) (hall : p.isDrained d.number = true) : p.jobs = [] := by
  have hspent := hp.spent hopen h hall
  rw [Nat.min_eq_left hsmall] at hspent
  exact List.eq_nil_of_length_eq_zero (by omega)

/-- **The account of a pool**, for what has happened to it since it was new. -/
structure Sound (size : Nat) (hs : List (Happening β)) (p : Pool β) : Prop extends
    Balanced size p, Recorded hs p where
  /-- Unless a shutdown has run out of time, the pool is not closed before all jobs are finished. -/
  emptied : max size 1 ≤ Decimal.maxNat32 → .shut false ∉ hs → p.closed = true → p.jobs = []

theorem sound_ofSize (size : Nat) : Sound size [] (ofSize size : Pool β) :=
  ⟨balanced_ofSize size, recorded_ofSize size, fun _ _ h => nomatch h⟩

section Sound

variable {size : Nat} {hs : List (Happening β)} {h : Happening β}

/-- **Whatever happens to a pool keeps its account.** -/
theorem Sound.step (hp : Sound size hs p) (hstep : Step p h p') : Sound size (hs ++ [h]) p' := by
  have hearlier : .shut false ∉ hs ++ [h] → .shut false ∉ hs :=
    fun hno hmem => hno (List.mem_append_left _ hmem)
  cases hstep with
  | accepted hsubmit =>
    refine ⟨hp.toBalanced.accept hsubmit, hp.toRecorded.accept hsubmit, fun _ _ hclosed => ?_⟩
    -- a closed pool would not have accepted it
    obtain ⟨hopen, -, rfl⟩ := of_submit hsubmit
    cases hopen.symm.trans hclosed
  | refused hsubmit =>
    exact ⟨hp.toBalanced, hp.toRecorded.other rfl rfl rfl rfl, fun hsmall hno =>
      hp.emptied hsmall (hearlier hno)⟩
  | @finished job hjob =>
    refine ⟨hp.toBalanced.finish hjob, hp.toRecorded.finish hjob, fun hsmall hno hclosed => ?_⟩
    rw [finish_eq hjob, (released _ 1).closed] at hclosed
    -- there would have been no job to finish
    rw [hp.emptied hsmall (hearlier hno) hclosed] at hjob
    cases hjob
  | shutting hopen =>
    have hstart : p.startDrain.jobs = p.jobs ∧ p.startDrain.accepted = p.accepted ∧
        p.startDrain.closed = p.closed := by
      rw [startDrain, if_neg (by rw [hopen]; exact Bool.false_ne_true)]
      exact ⟨rfl, rfl, rfl⟩
    obtain ⟨hjobs, hcount, hclosed⟩ := hstart
    refine ⟨hp.toBalanced.startDrain, hp.toRecorded.other rfl rfl hjobs hcount, fun _ _ h => ?_⟩
    rw [hclosed, hopen] at h
    cases h
  | already hclosed =>
    exact ⟨hp.toBalanced, hp.toRecorded.other rfl rfl rfl rfl, fun hsmall hno =>
      hp.emptied hsmall (hearlier hno)⟩
  | @shut d hd =>
    have hr := released (p.without d.number) (p.returned d.number)
    refine ⟨hp.toBalanced.endDrain hd, hp.toRecorded.other rfl rfl hr.jobs hr.accepted,
      fun hsmall hno _ => ?_⟩
    rw [jobs_endDrain]
    -- it is said not to have run out of time
    have hanswer : p.isDrained d.number = true := by
      rw [← Bool.not_eq_false]
      exact fun hfalse => hno (hfalse ▸ List.mem_append_right _ List.mem_cons_self)
    cases hclosed : p.closed with
    | true => exact hp.emptied hsmall (hearlier hno) hclosed
    | false => exact hp.jobs_eq_nil hsmall hclosed hd hanswer

/-- **The account is right for every pool that began as a new one.** -/
theorem Steps.sound (h : Steps (ofSize size) hs p) : Sound size hs p := by
  induction h with
  | nil => exact sound_ofSize size
  | snoc _ hstep ih => exact ih.step hstep

theorem Step.closed (hstep : Step p h p') (hclosed : p.closed = true) : p'.closed = true := by
  cases hstep with
  | accepted hsubmit =>
    obtain ⟨hopen, -, -⟩ := of_submit hsubmit
    cases hopen.symm.trans hclosed
  | refused => exact hclosed
  | finished hjob =>
    rw [finish_eq hjob, (released _ 1).closed]
    exact hclosed
  | shutting hopen => cases hopen.symm.trans hclosed
  | already => exact hclosed
  | shut => rfl

/-- A pool that is closed stays closed. -/
theorem Steps.closed (h : Steps p hs p') (hclosed : p.closed = true) : p'.closed = true := by
  induction h with
  | nil => exact hclosed
  | snoc _ hstep ih => exact hstep.closed ih

/-- How a shutdown comes to its answer. -/
theorem Step.of_shut {drained : Bool} (hstep : Step p (.shut drained) p') :
    (p.closed = true ∧ drained = true ∧ p' = p) ∨
      ∃ d ∈ p.drains, drained = p.isDrained d.number ∧ p' = p.endDrain d.number := by
  -- the answer is a variable, so that all kinds of steps can be looked through
  generalize hx : Happening.shut drained = x at hstep
  cases hstep with
  | already hclosed =>
    cases hx
    exact .inl ⟨hclosed, rfl, rfl⟩
  | shut hd =>
    cases hx
    exact .inr ⟨_, hd, rfl, rfl⟩
  | accepted => cases hx
  | refused => cases hx
  | finished => cases hx
  | shutting => cases hx

/-- A shutdown that finds the pool closed has not asked for permits. -/
theorem Step.shut_closed {drained : Bool} (hstep : Step p (.shut drained) p')
    (hclosed : p.closed = true) : drained = true ∧ p'.jobs = p.jobs := by
  rcases hstep.of_shut with ⟨-, hdrained, rfl⟩ | ⟨d, -, hdrained, rfl⟩
  · exact ⟨hdrained, rfl⟩
  · rw [isDrained, hclosed, Bool.true_or] at hdrained
    exact ⟨hdrained, jobs_endDrain p d.number⟩

/-- One that closes the pool has asked for all permits, or for as many as 32 bits can count. -/
theorem Sound.shut_open (hp : Sound size hs p) (hopen : p.closed = false)
    (hstep : Step p (.shut true) p') :
    p'.permits + p'.jobs.length + min (max size 1) Decimal.maxNat32 = max size 1 := by
  rcases hstep.of_shut with ⟨hclosed, -, -⟩ | ⟨d, hd, hdrained, rfl⟩
  · cases hopen.symm.trans hclosed
  · rw [jobs_endDrain]
    exact hp.spent hopen hd hdrained.symm

end Sound

end Pool

end Flowgraph
