import Flowgraph.Proofs.Pool.Account

/-!
# What a pool says of its running jobs

A pool does not count its jobs. It takes the permits that are not free for running jobs, which is
right as long as only jobs take permits. A shutdown takes some as well: while it is under way, those
that it has gathered, and if it has drained the pool, all that it asked for, for good. So a pool
that has been drained, in which no job can run any more, says that all its workers are busy.

* `Pool.Drained` — the shutdown that closed the pool has drained it.
* `Pool.Ledger`, `Pool.Steps.ledger` — where all the permits are, in a closed pool as well.
* `Pool.Steps.telling` — what the number of active jobs counts, and when it is right.
-/

namespace Flowgraph

namespace Pool

variable {β : Type} {p p' : Pool β} {size : Nat} {hs : List (Happening β)} {h : Happening β}

/-! ### Shutdowns that are over -/

/-- The answer of the shutdown that is over, if that is what happened. -/
def answer? : Happening β → Option Bool
  | .shut drained => some drained
  | _ => none

/-- The first shutdown that was over has drained the pool. The later ones have found it closed. -/
abbrev Drained (hs : List (Happening β)) : Prop := (hs.filterMap answer?).head? = some true

/-- The permits that a drain has kept for good. -/
def kept (size : Nat) (hs : List (Happening β)) : Nat :=
  if Drained hs then min (max size 1) Decimal.maxNat32 else 0

/-- The accepted jobs that have not finished. -/
def unfinished (hs : List (Happening β)) : Nat :=
  (hs.filterMap accepted?).length - (hs.filterMap finished?).length

theorem kept_pos (size : Nat) (hdrained : Drained hs) : 0 < kept size hs := by
  rw [kept, if_pos hdrained]
  exact Nat.lt_min.mpr ⟨Nat.lt_of_lt_of_le Nat.one_pos (Nat.le_max_right ..), by decide⟩

theorem kept_eq_zero (size : Nat) (hdrained : ¬ Drained hs) : kept size hs = 0 := if_neg hdrained

/-- As long as no shutdown is over, none has kept anything. -/
theorem kept_of_nil (size : Nat) (hnone : hs.filterMap answer? = []) : kept size hs = 0 := by
  refine kept_eq_zero size fun hdrained => ?_
  rw [Drained, hnone] at hdrained
  cases hdrained

theorem head?_answers_snoc (hs : List (Happening β)) (h : Happening β) :
    ((hs ++ [h]).filterMap answer?).head? =
      (hs.filterMap answer?).head?.or (answer? h) := by
  rw [List.filterMap_append, List.head?_append]
  cases h <;> rfl

/-- Only the first shutdown that is over decides what is kept. -/
theorem kept_snoc_of_ne_nil (size : Nat) (hsome : hs.filterMap answer? ≠ [])
    (h : Happening β) : kept size (hs ++ [h]) = kept size hs := by
  obtain ⟨drained, hhead⟩ := Option.ne_none_iff_exists'.mp (mt List.head?_eq_none_iff.mp hsome)
  have hkeep : ((hs ++ [h]).filterMap answer?).head? = (hs.filterMap answer?).head? := by
    rw [head?_answers_snoc, hhead, Option.some_or]
  simp only [kept, Drained, hkeep]

/-- The account of the jobs says how many are unfinished. -/
theorem Recorded.unfinished_eq (hp : Recorded hs p) : unfinished hs = p.jobs.length := by
  have hlength := hp.once.length_eq
  rw [List.length_append, List.length_map, List.length_range, hp.accepted_eq] at hlength
  rw [unfinished, ← hlength]
  exact Nat.add_sub_cancel_left ..

/-! ### Where the permits are -/

/-- **Where all the permits are**: with a job, with a shutdown, free, or kept for good. -/
structure Ledger (size : Nat) (hs : List (Happening β)) (p : Pool β) : Prop where
  opened : p.closed = false → hs.filterMap answer? = []
  shut : p.closed = true → hs.filterMap answer? ≠ []
  total : p.permits + p.jobs.length + kept size hs = max size 1

/-- In an open pool nothing was kept, so its own account says where the permits are. -/
theorem Balanced.ledger (hp : Balanced size p) (hopen : p.closed = false)
    (hnone : hs.filterMap answer? = []) : Ledger size hs p where
  opened _ := hnone
  shut hclosed := by cases hopen.symm.trans hclosed
  total := by
    rw [kept_of_nil size hnone, hp.balance hopen, hp.size_eq]
    rfl

theorem ledger_ofSize (size : Nat) : Ledger size [] (ofSize size : Pool β) :=
  (balanced_ofSize size).ledger rfl rfl

/-- What happens to an open pool leaves it open, unless a shutdown ends. -/
theorem Step.closed_of_answer?_eq_none (hstep : Step p h p') (hother : answer? h = none) :
    p'.closed = p.closed := by
  cases hstep with
  -- a pool is closed by a shutdown that ends, and by nothing else
  | accepted hsubmit =>
    obtain ⟨-, -, rfl⟩ := of_submit hsubmit
    rfl
  | refused => rfl
  | finished hjob =>
    rw [finish_eq hjob]
    exact (released _ 1).closed
  | shutting hopen =>
    rw [startDrain, if_neg (by rw [hopen]; exact Bool.false_ne_true)]
  | already => cases hother
  | shut => cases hother

/-- What happens to a closed pool moves permits from jobs to the free ones, and makes none. -/
theorem Step.permits_of_closed (hp : Balanced size p) (hstep : Step p h p')
    (hclosed : p.closed = true) : p'.permits + p'.jobs.length = p.permits + p.jobs.length := by
  cases hstep with
  | accepted hsubmit => cases (of_submit hsubmit).1.symm.trans hclosed
  | refused => rfl
  | @finished job hjob =>
    have hlength := length_eraseP hjob
    rw [finish_eq hjob, permits_release, (released _ 1).jobs]
    show p.permits + 1 + (p.jobs.eraseP _).length = p.permits + p.jobs.length
    omega
  | shutting hopen => cases hopen.symm.trans hclosed
  | already => rfl
  | @shut d hd =>
    have hpermits := permits_endDrain hp.distinct hd
    -- a shutdown of a closed pool gives back all that it took
    have hspent : p.spent d.number = 0 := by
      rw [spent, hclosed]
      rfl
    rw [hspent] at hpermits
    rw [jobs_endDrain]
    exact congrArg (· + p.jobs.length) hpermits

/-- The shutdown that closes the pool keeps what it asked for if it has drained the pool, and
nothing if it has run out of time. -/
theorem Balanced.ledger_endDrain (hp : Balanced size p) (hopen : p.closed = false)
    (hnone : hs.filterMap answer? = []) {d : Drain} (hd : d ∈ p.drains) :
    Ledger size (hs ++ [.shut (p.isDrained d.number)]) (p.endDrain d.number) := by
  have hanswers : (hs ++ [Happening.shut (p.isDrained d.number)]).filterMap answer? =
      [p.isDrained d.number] := by
    rw [List.filterMap_append, hnone]
    rfl
  refine ⟨(fun hfalse => nomatch hfalse), fun _ => ?_, ?_⟩
  · rw [hanswers]
    exact List.cons_ne_nil _ _
  simp only [kept, Drained, hanswers, jobs_endDrain]
  -- drained, the pool keeps what it has gathered; out of time, it gives all of it back
  cases hall : p.isDrained d.number with
  | true => exact hp.spent hopen hd hall
  | false =>
    have hspent : p.spent d.number = 0 := by
      rw [Pool.spent, hall, Bool.and_false]
      rfl
    have hpermits := permits_endDrain hp.distinct hd
    have hbalance := hp.balance hopen
    rw [hspent] at hpermits
    rw [hp.size_eq] at hbalance
    calc (p.endDrain d.number).permits + p.jobs.length + 0
        = p.permits + p.jobs.length := congrArg (· + p.jobs.length) hpermits
      _ = max size 1 := hbalance

/-- **Whatever happens to a pool keeps its ledger.** -/
theorem Ledger.step (hp : Balanced size p) (hledger : Ledger size hs p) (hstep : Step p h p') :
    Ledger size (hs ++ [h]) p' := by
  cases hclosed : p.closed with
  | true =>
    have hsome := hledger.shut hclosed
    refine ⟨fun hopen => ?_, fun _ hnil => ?_, ?_⟩
    · cases (hstep.closed hclosed).symm.trans hopen
    · rw [List.filterMap_append] at hnil
      exact hsome (List.append_eq_nil_iff.mp hnil).1
    · rw [kept_snoc_of_ne_nil size hsome, hstep.permits_of_closed hp hclosed]
      exact hledger.total
  | false =>
    have hnone := hledger.opened hclosed
    -- an open pool stays open until a shutdown is over
    cases hanswer : answer? h with
    | none =>
      have hnone' : (hs ++ [h]).filterMap answer? = [] := by
        rw [List.filterMap_append, hnone, List.filterMap_cons_none hanswer]
        rfl
      have hopen : p'.closed = false :=
        (hstep.closed_of_answer?_eq_none hanswer).trans hclosed
      cases hstep with
      | accepted hsubmit => exact (hp.accept hsubmit).ledger hopen hnone'
      | refused => exact hp.ledger hopen hnone'
      | finished hjob => exact (hp.finish hjob).ledger hopen hnone'
      | shutting => exact hp.startDrain.ledger hopen hnone'
      | already => cases hanswer
      | shut => cases hanswer
    | some drained =>
      cases hstep with
      | already hshut => cases hclosed.symm.trans hshut
      | shut hd => exact hp.ledger_endDrain hclosed hnone hd
      | accepted => cases hanswer
      | refused => cases hanswer
      | finished => cases hanswer
      | shutting => cases hanswer

/-- **Where the permits are is known along every run of a pool.** -/
theorem Steps.ledger (h : Steps (ofSize size) hs p) : Ledger size hs p := by
  induction h with
  | nil => exact ledger_ofSize size
  | snoc hq hstep ih => exact ih.step hq.sound.toBalanced hstep

/-! ### The number of active jobs -/

/-- **What the number of active jobs tells**, after what has happened to a pool of a given size. -/
structure Telling (size : Nat) (hs : List (Happening β)) (p : Pool β) : Prop where
  /-- Besides the unfinished jobs it counts the permits of shutdowns that are under way, and those
  that a drain has kept. -/
  active_eq : p.active = unfinished hs + held p.drains + kept size hs
  /-- Outside a shutdown it is the number of unfinished jobs exactly if the pool was not drained:
  if it is still open, or if the shutdown that closed it has run out of time. -/
  right_iff : p.drains = [] → (p.active = unfinished hs ↔ ¬ Drained hs)
  /-- In a drained pool no job is unfinished, and all workers are said to be busy. -/
  drained : max size 1 ≤ Decimal.maxNat32 → Drained hs → p.jobs = [] ∧ p.active = p.size

/-- **The number of active jobs is right until the pool is drained**, whatever jobs are handed in
and finished and whatever shutdowns begin and end, in any order. -/
theorem Steps.telling (h : Steps (ofSize size) hs p) : Telling size hs p := by
  have htotal := h.ledger.total
  have hsize : p.size = max size 1 := h.sound.size_eq
  have hunfinished : unfinished hs = p.jobs.length := h.sound.unfinished_eq
  -- the permits that are not free are with jobs, with shutdowns, or spent
  have hactive : p.active = unfinished hs + held p.drains + kept size hs := by
    rw [permits] at htotal
    rw [active, hsize, hunfinished]
    omega
  refine ⟨hactive, fun hdrains => ?_, fun hsmall hdrained => ?_⟩
  · have hheld : held p.drains = 0 := by
      rw [hdrains]
      rfl
    rw [hactive, hheld, Nat.add_zero]
    constructor
    · intro hright hdrained
      have hpos := kept_pos size hdrained
      omega
    · intro hopen
      rw [kept_eq_zero size hopen, Nat.add_zero]
  · -- what was drained has all its permits spent, so no job can have one
    have hkept : kept size hs = max size 1 := by
      rw [kept, if_pos hdrained, Nat.min_eq_left hsmall]
    rw [hkept, permits] at htotal
    have hjobs : p.jobs.length = 0 := by omega
    refine ⟨List.eq_nil_of_length_eq_zero hjobs, ?_⟩
    rw [active, hsize]
    omega

/-- One of two workers has a job, and a shutdown does not wait for it. -/
theorem telling_timed_out : ∃ p : Pool Unit, p.drains = [] ∧ p.closed = true ∧
    Telling 2 [.accepted (), .shutting, .shut false] p ∧ p.active = 1 := by
  let busy : Pool Unit :=
    { (ofSize 2 : Pool Unit) with available := 1, jobs := [⟨0, ()⟩], accepted := 1 }
  have haccepted : Step (ofSize 2) (.accepted ()) busy := .accepted rfl
  have hshutting : Step busy .shutting busy.startDrain := .shutting rfl
  have hshut : Step busy.startDrain (.shut false) (busy.startDrain.endDrain 0) :=
    .shut (d := ⟨0, 1⟩) List.mem_cons_self
  exact ⟨_, rfl, rfl, (((Steps.single haccepted).snoc hshutting).snoc hshut).telling, rfl⟩

/-- **A pool of one worker that never had a job, and was drained**: it says that one job is running,
and none was ever accepted. -/
theorem active_drained : ∃ p : Pool Unit, Steps (ofSize 1) [.shutting, .shut true] p ∧
    p.drains = [] ∧ p.jobs = [] ∧ p.active = 1 ∧
    p.active ≠ unfinished ([.shutting, .shut true] : List (Happening Unit)) := by
  let begun : Pool Unit := (ofSize 1 : Pool Unit).startDrain
  have hshutting : Step (ofSize 1) .shutting begun := .shutting rfl
  have hshut : Step begun (.shut true) (begun.endDrain 0) :=
    .shut (d := ⟨0, 1⟩) List.mem_cons_self
  exact ⟨_, (Steps.single hshutting).snoc hshut, rfl, rfl, rfl, by decide⟩

end Pool

end Flowgraph
