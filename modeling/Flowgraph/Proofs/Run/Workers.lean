import Flowgraph.Proofs.Pool.Account
import Flowgraph.Proofs.Run.Clockwork

/-!
# The workers of an engine

Whatever goes on in an engine, its pool makes the steps of `Pool.Step` and no others. Programs hand
in jobs, and that is all they do to the pool. A worker runs the program of a job to its end, good or
bad, and then the job is finished. The journal tells of each run, so that it can be counted.

`Labour` is what becomes of the jobs along any run: at any moment a worker may run any job that is
unfinished, and in between jobs are handed in, shutdowns begin and end, and anything else happens by
which no job is run.

* `Deeds.handsIn` — programs do nothing to the pool but hand in jobs, and run none.
* `runJob_iff` — a worker runs the program of its job, and finishes this job and no other.
* `forall_not_ran_iff` — it is held up only by a program that does not come to an end.
* `workOff_labour` — the workers run one job after another until none is left.
* `HostStep.laboured` — whatever the host asks for goes on with what becomes of the jobs.
* `workforce_of_labour` — **each accepted job is run once, and no other is**.
* `reports_of_steps` — what the answer of a shutdown is worth.
-/

namespace Flowgraph

open Pool (Happening Steps Handed)

/-- The number of the job whose run started, if that is what happened. -/
def Entry.worked? : Entry → Option Nat
  | .worked number => some number
  | _ => none

/-- Only the start of a run tells of a job. -/
theorem Entry.worked?_of_not_starts {entry : Entry} (h : entry.starts = false) :
    entry.worked? = none := by
  cases entry with
  | worked number => cases h
  | _ => rfl

namespace Engine

variable {e e' m : Engine}

/-! ### Runs of jobs in the journal -/

/-- The jobs whose runs the journal tells of, the earliest first. -/
def worked (e : Engine) : List Nat := e.journal.reverse.filterMap Entry.worked?

/-- An entry adds the job whose run it tells of. -/
theorem worked_record (e : Engine) (entry : Entry) :
    (e.record entry).worked = e.worked ++ entry.worked?.toList := by
  rw [worked, record, List.reverse_cons, List.filterMap_append, List.filterMap_cons,
    List.filterMap_nil]
  cases entry.worked? <;> rfl

/-- Only an entry that tells of the run of a job counts. -/
theorem worked_record_of_none {entry : Entry} (h : entry.worked? = none) :
    (e.record entry).worked = e.worked := by
  rw [worked_record, h]
  exact List.append_nil _

/-- A line of the log tells of no job. -/
theorem worked_log (e : Engine) (line : LogLine) : (e.log line).worked = e.worked :=
  worked_record_of_none rfl

/-- The run of a job is recorded when it starts. -/
theorem worked_startJob (e : Engine) (number : Nat) :
    (e.startJob number).worked = e.worked ++ [number] :=
  worked_record e (.worked number)

/-- The run of a task is none of a job. -/
theorem worked_startTask (e : Engine) (task : TaskId) (due : Nat) :
    (e.startTask task due).worked = e.worked :=
  worked_record_of_none (e := { e with scheduler := e.scheduler.begin task due }) rfl

/-- To track a task is no matter of the pool. -/
theorem pool_track (e : Engine) (g : GraphId) (task : TaskId) : (e.track g task).pool = e.pool := by
  obtain ⟨_, _, _, -, -, htrack⟩ := track_eq e g task
  rw [htrack]

/-- To track a task starts no job. -/
theorem worked_track (e : Engine) (g : GraphId) (task : TaskId) :
    (e.track g task).worked = e.worked := by
  rw [track]
  dsimp only
  split
  · exact worked_log _ _
  · -- the graph was cleared: the task is cancelled, and if it cannot be, that is logged
    rw [worked, logAll_eq, List.reverse_append, List.reverse_reverse, List.filterMap_append]
    have hnone : ∀ line : Option LogLine,
        (line.toList.map Entry.logged).filterMap Entry.worked? = [] := by
      intro line
      cases line <;> rfl
    rw [hnone]
    exact List.append_nil _

/-! ### What programs do to the pool -/

/-- Jobs have been handed in, and none was run. -/
structure HandsIn (e m : Engine) : Prop where
  handed : Handed e.pool m.pool
  worked : m.worked = e.worked

theorem HandsIn.refl (e : Engine) : HandsIn e e := ⟨.refl, rfl⟩

/-- What is handed in on the way is handed in. -/
theorem HandsIn.trans (h : HandsIn e m) (h' : HandsIn m e') : HandsIn e e' :=
  -- the runs are the same at both ends, and so on the way
  ⟨h.handed.trans h'.handed, h'.worked.trans h.worked⟩

/-- What changes neither the pool nor the journal. -/
theorem HandsIn.of_eq (hpool : m.pool = e.pool) (hjournal : m.journal = e.journal) :
    HandsIn e m :=
  ⟨hpool ▸ .refl, by rw [Engine.worked, hjournal]; rfl⟩

/-- A move hands in one job at most, and runs none. -/
theorem Move.handsIn (h : Move e e') : HandsIn e e' := by
  -- jobs are handed in by one kind of move, and the others leave the pool alone
  cases h with
  | submit job pool hsubmit => exact ⟨.single ⟨job, hsubmit⟩, rfl⟩
  | schedule g timing body task s _ _ =>
    refine ⟨?_, worked_track _ g task⟩
    rw [pool_track]
  | record entry hentry =>
    exact ⟨.refl, worked_record_of_none (Entry.worked?_of_not_starts hentry)⟩
  | draw => exact .of_eq rfl rfl
  | cancel => exact .of_eq rfl rfl
  | remove => exact .of_eq rfl rfl
  | withdraw => exact .of_eq rfl rfl
  | subscribe => exact .of_eq rfl rfl

/-- A deed hands in one job at most, and runs none. -/
theorem Deed.handsIn (h : Deed e e') : HandsIn e e' := by
  cases h with
  | move h => exact h.handsIn
  | retire => exact .of_eq rfl rfl
  | release => exact .of_eq rfl rfl
  | abandon => exact .of_eq rfl rfl
  | entitle => exact .of_eq rfl rfl
  | raise => exact .of_eq rfl rfl
  | promote => exact .of_eq rfl rfl

/-- **Programs do nothing to the pool but hand in jobs**, and they run none. -/
theorem Deeds.handsIn (h : Deeds e e') : HandsIn e e' := by
  induction h with
  | refl => exact .refl e
  | tail _ hd ih => exact ih.trans hd.handsIn

/-- A command hands in jobs, and runs none. -/
theorem call_handsIn (fuel : Nat) (c : Command) (e : Engine) :
    (call fuel c e).Ends (fun _ => HandsIn e) (HandsIn e) :=
  (call_deeds fuel c e).mono (fun _ _ => Deeds.handsIn) fun _ => Deeds.handsIn

/-- While time passes nothing happens to the pool but what programs do. -/
theorem ticking_handsIn (e : Engine) : Ticking (HandsIn e) where
  quiet hq h := h.trans hq.move.handsIn
  call fuel c m h := (call_handsIn fuel c m).mono (fun _ _ => h.trans) fun _ => h.trans
  settle m h := h.trans (.of_eq rfl rfl)
  task fuel limit task due m _ hnext h := by
    cases hrun : runTask (exec (call fuel)) task due m with
    | returned a m' =>
      obtain ⟨t, m₁, m₂, -, hbody, hlog, rfl⟩ := ran_of_runTask hnext hrun
      have hstart : HandsIn m (m.startTask task due) := ⟨.refl, worked_startTask m task due⟩
      have hm : HandsIn m m₁ := hstart.trans (deeds_of_exec hbody).handsIn
      -- a complaint about the run is logged, which the pool does not notice
      have hm' : HandsIn m m₂ := by
        rcases hlog with rfl | ⟨line, rfl⟩
        · exact hm
        · exact hm.trans ⟨.refl, worked_log m₁ line⟩
      exact h.trans (hm'.trans (.of_eq rfl rfl))
    | panicked m' => exact absurd hrun (runTask_ne_panicked fuel task due m m')
    | diverged => trivial
  tick m _ _ _ h := h.trans (.of_eq rfl rfl)

/-! ### Jobs that run -/

/-- A job is finished, and its worker is free for another. -/
def finishJob (e : Engine) (number : Nat) : Engine := { e with pool := e.pool.finish number }

/-- **The run of a job**: the job's program is run from its start on, and however that ends, the job
is finished. An error or a panic is reported. -/
inductive Ran (fuel : Nat) (job : Job Program) (e : Engine) : Engine → Prop
  | done {step : Flowgraph.Step} {m : Engine}
      (h : perform fuel job.work (e.startJob job.number) = .returned (.ok step) m) :
      Ran fuel job e (m.finishJob job.number)
  | failed {err : WorkflowError} {m : Engine}
      (h : perform fuel job.work (e.startJob job.number) = .returned (.error err) m) :
      Ran fuel job e ((m.log (jobLog err)).finishJob job.number)
  | panicked {m : Engine} (h : perform fuel job.work (e.startJob job.number) = .panicked m) :
      Ran fuel job e ((m.log jobPanicLog).finishJob job.number)

section Ran

variable {fuel : Nat} {job : Job Program}

/-- A worker runs the program of its job, reports on it, and then the job is finished. -/
theorem runJob_eq (fuel : Nat) (job : Job Program) (e : Engine) :
    runJob (exec (call fuel)) job e =
      (guarded (perform fuel job.work (e.startJob job.number)) jobLog jobPanicLog).bind
        fun _ m => .returned () (m.finishJob job.number) := rfl

/-- **A worker runs the program of its job**, and finishes this job and no other. -/
theorem runJob_iff : runJob (exec (call fuel)) job e = .returned () e' ↔ Ran fuel job e e' := by
  rw [runJob_eq]
  constructor
  · intro h
    -- four ends of the program, of which three end the run
    generalize hp : perform fuel job.work (e.startJob job.number) = r at h
    rcases r with ⟨err | step, m⟩ | m | _
    · cases h
      exact .failed hp
    · cases h
      exact .done hp
    · cases h
      exact .panicked hp
    · cases h
  · intro h
    cases h with
    | done h =>
      rw [h]
      rfl
    | failed h =>
      rw [h]
      rfl
    | panicked h =>
      rw [h]
      rfl

/-- A worker is held up for ever only by a program that does not come to an end. -/
theorem runJob_eq_diverged_iff : runJob (exec (call fuel)) job e = .diverged ↔
    perform fuel job.work (e.startJob job.number) = .diverged := by
  rw [runJob_eq]
  generalize perform fuel job.work (e.startJob job.number) = r
  rcases r with ⟨err | step, m⟩ | m | _
  · exact iff_of_false nofun nofun
  · exact iff_of_false nofun nofun
  · exact iff_of_false nofun nofun
  · exact iff_of_true rfl rfl

/-- A job that breaks off is reported, and its run returns. -/
theorem runJob_ne_panicked (fuel : Nat) (job : Job Program) (e e' : Engine) :
    runJob (exec (call fuel)) job e ≠ .panicked e' := by
  intro h
  rw [runJob_eq] at h
  generalize perform fuel job.work (e.startJob job.number) = r at h
  rcases r with ⟨err | _, m⟩ | m | _ <;> cases h

/-- **A job that is not run to an end is one whose program does not come to an end.** -/
theorem forall_not_ran_iff : (∀ e', ¬ Ran fuel job e e') ↔
    perform fuel job.work (e.startJob job.number) = .diverged := by
  rw [← runJob_eq_diverged_iff]
  simp only [← runJob_iff]
  constructor
  · intro hnot
    cases hrun : runJob (exec (call fuel)) job e with
    | returned a m => exact absurd hrun (hnot m)
    | panicked m => exact absurd hrun (runJob_ne_panicked fuel job e m)
    | diverged => rfl
  · intro hrun e' hreturned
    cases hrun.symm.trans hreturned

/-- What a job's program leaves behind, with the report on it. -/
theorem Ran.exists_left (h : Ran fuel job e e') :
    ∃ m m', (perform fuel job.work (e.startJob job.number)).Leaves m ∧
      (m' = m ∨ ∃ line, m' = m.log line) ∧ e' = m'.finishJob job.number := by
  cases h with
  | @done step m h =>
    rw [h]
    exact ⟨m, m, .returned _ m, .inl rfl, rfl⟩
  | @failed err m h =>
    rw [h]
    exact ⟨m, _, .returned _ m, .inr ⟨_, rfl⟩, rfl⟩
  | @panicked m h =>
    rw [h]
    exact ⟨m, _, .panicked m, .inr ⟨_, rfl⟩, rfl⟩

/-- The program of a job may hand in others, and then the job is finished. -/
theorem Ran.steps (hjob : job ∈ e.pool.jobs) (h : Ran fuel job e e') :
    ∃ works : List Program,
      Steps e.pool (works.map .accepted ++ [.finished job.number]) e'.pool := by
  obtain ⟨m, m', hm, hlog, rfl⟩ := h.exists_left
  have hhanded : Handed e.pool m.pool := (deeds_of_exec hm).handsIn.handed
  obtain ⟨works, hsteps⟩ := hhanded.steps
  have hstep : Pool.Step m.pool (.finished job.number) (m.pool.finish job.number) :=
    .finished (hhanded.frame.2.2 hjob)
  -- the report is logged between the last job handed in and the end of this one
  refine ⟨works, ?_⟩
  rcases hlog with rfl | ⟨line, rfl⟩
  · exact hsteps.snoc hstep
  · exact hsteps.snoc hstep

/-- The journal tells of the run once. -/
theorem Ran.worked (h : Ran fuel job e e') : e'.worked = e.worked ++ [job.number] := by
  obtain ⟨m, m', hm, hlog, rfl⟩ := h.exists_left
  have hown : m.worked = e.worked ++ [job.number] :=
    (deeds_of_exec hm).handsIn.worked.trans (worked_startJob e job.number)
  rcases hlog with rfl | ⟨line, rfl⟩
  · exact hown
  · exact (worked_log m line).trans hown

end Ran

/-! ### What becomes of jobs -/

/-- The pool has made steps, and no job was run. -/
def Idled (e m : Engine) : Prop :=
  ∃ hs, Steps e.pool hs m.pool ∧ hs.filterMap Pool.finished? = [] ∧ m.worked = e.worked

/-- Engines that are idle twice have been idle. -/
theorem Idled.trans (h : Idled e m) (h' : Idled m e') : Idled e e' := by
  obtain ⟨hs, hsteps, hnone, hworked⟩ := h
  obtain ⟨hs', hsteps', hnone', hworked'⟩ := h'
  refine ⟨hs ++ hs', hsteps.trans hsteps', ?_, hworked'.trans hworked⟩
  rw [List.filterMap_append, hnone, hnone']
  rfl

/-- No job comes to its end by being accepted. -/
theorem finished?_accepted (works : List Program) :
    (works.map Happening.accepted).filterMap Pool.finished? = [] := by
  induction works with
  | nil => rfl
  | cons work rest ih => exact ih

/-- What hands in jobs runs none. -/
theorem HandsIn.idled (h : HandsIn e m) : Idled e m := by
  obtain ⟨works, hsteps⟩ := h.handed.steps
  exact ⟨_, hsteps, finished?_accepted works, h.worked⟩

/-- **What becomes of the jobs of an engine** whose pool was new once: what has happened to the
pool, and the jobs that were run, the earliest first. -/
inductive Labour (size : Nat) : List (Happening Program) → List (Job Program) → Engine → Prop
  | hired {e : Engine} (hpool : e.pool = .ofSize size) (hworked : e.worked = []) :
      Labour size [] [] e
  /-- Jobs are handed in, shutdowns begin and end, and anything else happens by which no job is
  run. -/
  | idled {hs hs' : List (Happening Program)} {js : List (Job Program)} {m m' : Engine}
      (h : Labour size hs js m) (hsteps : Steps m.pool hs' m'.pool)
      (hnone : hs'.filterMap Pool.finished? = []) (hworked : m'.worked = m.worked) :
      Labour size (hs ++ hs') js m'
  /-- A worker runs one of the jobs that are unfinished, and its program hands in others. -/
  | ran {hs : List (Happening Program)} {js : List (Job Program)} {m m' : Engine} {fuel : Nat}
      {job : Job Program} {works : List Program} (h : Labour size hs js m)
      (hjob : job ∈ m.pool.jobs) (hran : Ran fuel job m m')
      (hsteps : Steps m.pool (works.map .accepted ++ [.finished job.number]) m'.pool) :
      Labour size (hs ++ (works.map .accepted ++ [.finished job.number])) (js ++ [job]) m'

/-- How far the workers come in a number of rounds, from one engine to another, with the jobs that
they run on the way. -/
inductive WorkedOff (fuel rounds : Nat) (e : Engine) (js : List (Job Program)) (m : Engine) : Prop
  /-- No job is left. -/
  | idle (h : workOff fuel rounds e = .returned () m) (hjobs : m.pool.jobs = [])
  /-- A job has been run in each round. -/
  | spent (h : workOff fuel rounds e = .diverged) (hlen : js.length = rounds)
  /-- The run of a job does not come to an end. -/
  | held {job : Job Program} (h : workOff fuel rounds e = .diverged) (hjob : job ∈ m.pool.jobs)
      (hrun : runJob (exec (call fuel)) job m = .diverged)

/-- A round with a job in it comes before the others. -/
theorem WorkedOff.round {fuel rounds : Nat} {e e' m : Engine} {js : List (Job Program)}
    {job : Job Program} (h : WorkedOff fuel rounds e' js m)
    (hround : workOff fuel (rounds + 1) e = workOff fuel rounds e') :
    WorkedOff fuel (rounds + 1) e (job :: js) m := by
  cases h with
  | idle h hjobs => exact .idle (hround.trans h) hjobs
  | spent h hlen => exact .spent (hround.trans h) (congrArg (· + 1) hlen)
  | held h hjob hrun => exact .held (hround.trans h) hjob hrun

section Labour

variable {size : Nat} {hs : List (Happening Program)} {js : List (Job Program)}

/-- More of the same happens to the jobs. -/
def Laboured (size : Nat) (hs : List (Happening Program)) (js : List (Job Program)) (e : Engine) :
    Prop :=
  ∃ hs' js', Labour size (hs ++ hs') (js ++ js') e

theorem Labour.laboured (h : Labour size hs js e) : Laboured size hs js e :=
  ⟨[], [], by rwa [List.append_nil, List.append_nil]⟩

/-- What was worked off is so whatever is handed in later. -/
theorem Laboured.idled (h : Laboured size hs js m) (hm : Idled m e) : Laboured size hs js e := by
  obtain ⟨hs', js', h⟩ := h
  obtain ⟨hs'', hsteps, hnone, hworked⟩ := hm
  exact ⟨hs' ++ hs'', js', List.append_assoc .. ▸ h.idled hsteps hnone hworked⟩

theorem Laboured.trans {hs' : List (Happening Program)} {js' : List (Job Program)}
    (h : Laboured size (hs ++ hs') (js ++ js') e) : Laboured size hs js e := by
  obtain ⟨hs'', js'', h⟩ := h
  rw [List.append_assoc, List.append_assoc] at h
  exact ⟨_, _, h⟩

/-- The pool makes the steps that are noted down. -/
theorem Labour.steps (h : Labour size hs js e) : Steps (.ofSize size) hs e.pool := by
  induction h with
  | hired hpool => exact hpool ▸ .nil
  | idled _ hsteps _ _ ih => exact ih.trans hsteps
  | ran _ _ _ hsteps ih => exact ih.trans hsteps

/-- **The journal tells of the runs of jobs, each of them once**, and these are the jobs that were
finished. -/
theorem Labour.noted (h : Labour size hs js e) :
    e.worked = js.map (·.number) ∧ hs.filterMap Pool.finished? = js.map (·.number) := by
  induction h with
  | hired _ hworked => exact ⟨hworked, rfl⟩
  | idled _ _ hnone hworked ih =>
    rw [List.filterMap_append, hnone, List.append_nil]
    exact ⟨hworked.trans ih.1, ih.2⟩
  -- both accounts gain the number of the job that was run
  | @ran hs js m m' fuel job works _ _ hran _ ih =>
    rw [List.filterMap_append, List.filterMap_append, finished?_accepted, ih.2, List.map_append,
      hran.worked, ih.1]
    exact ⟨rfl, rfl⟩

/-- A job that was run had been accepted under its number, with its program. -/
theorem Labour.programs (h : Labour size hs js e) : ∀ job ∈ js,
    (hs.filterMap Pool.accepted?)[job.number]? = some job.work := by
  have hlater : ∀ {hs hs' : List (Happening Program)} {job : Job Program},
      (hs.filterMap Pool.accepted?)[job.number]? = some job.work →
      ((hs ++ hs').filterMap Pool.accepted?)[job.number]? = some job.work := by
    intro hs hs' job hjob
    rw [List.filterMap_append,
      List.getElem?_append_left (List.getElem?_eq_some_iff.mp hjob).choose]
    exact hjob
  induction h with
  | hired => exact List.forall_mem_nil _
  | idled _ _ _ _ ih => exact fun job hjob => hlater (ih job hjob)
  | ran h hjob _ _ ih =>
    refine List.forall_mem_append.mpr ⟨fun job hjob => hlater (ih job hjob), ?_⟩
    exact List.forall_mem_singleton.mpr (hlater (h.steps.sound.works _ hjob))

/-- **The workers run one job after another**, until they have worked off what they can. -/
theorem workOff_labour (h : Labour size hs js e) (fuel rounds : Nat) :
    ∃ hs' js' m, Labour size (hs ++ hs') (js ++ js') m ∧ WorkedOff fuel rounds e js' m := by
  -- induction on the rounds, with the jobs run so far in front of the rest
  have hnone : Labour size (hs ++ []) (js ++ []) e := by
    rwa [List.append_nil, List.append_nil]
  induction rounds generalizing hs js e with
  | zero => exact ⟨[], [], e, hnone, .spent rfl rfl⟩
  | succ rounds ih =>
    cases hjobs : e.pool.jobs with
    | nil =>
      have hoff : workOff fuel (rounds + 1) e = .returned () e := by rw [workOff, hjobs]
      exact ⟨[], [], e, hnone, .idle hoff hjobs⟩
    | cons job rest =>
      have hjob : job ∈ e.pool.jobs := hjobs ▸ List.mem_cons_self
      have hround : workOff fuel (rounds + 1) e =
          (runJob (exec (call fuel)) job e).bind fun _ m => workOff fuel rounds m := by
        rw [workOff, hjobs]
      cases hrun : runJob (exec (call fuel)) job e with
      | returned a m =>
        -- the job was run, and the other rounds go on from where it left the engine
        have hran := runJob_iff.mp hrun
        obtain ⟨works, hsteps⟩ := hran.steps hjob
        have hm := h.ran hjob hran hsteps
        obtain ⟨hs', js', m', hm', hend⟩ := ih hm (by rwa [List.append_nil, List.append_nil])
        rw [List.append_assoc hs, List.append_assoc js] at hm'
        exact ⟨_, job :: js', m', hm', hend.round (hround.trans (by rw [hrun]; rfl))⟩
      | panicked m => exact absurd hrun (runJob_ne_panicked fuel job e m)
      | diverged => exact ⟨[], [], e, hnone, .held (hround.trans (by rw [hrun]; rfl)) hjob hrun⟩

end Labour

/-! ### Shutdowns -/

/-- A shutdown is about to end: since the pool `p` no other has ended, no job was finished, nor has
the pool been closed. -/
structure Closing (p q : Pool Program) (drained : Bool) (p' : Pool Program) : Prop where
  steps : ∃ hs, Steps p hs q ∧ (∀ answer, .shut answer ∉ hs) ∧ hs.filterMap Pool.finished? = []
  closed : q.closed = p.closed
  step : Pool.Step q (.shut drained) p'

/-- No shutdown answers by a job being accepted. -/
theorem shut_not_mem_accepted (works : List Program) (answer : Bool) :
    .shut answer ∉ works.map Happening.accepted := by
  intro hmem
  obtain ⟨work, -, h⟩ := List.mem_map.mp hmem
  cases h

theorem Closing.of_handed {p q p' : Pool Program} {r : Pool Program} {drained : Bool}
    (h : Handed p q) (hq : Closing q r drained p') : Closing p r drained p' where
  steps := by
    obtain ⟨works, hsteps⟩ := h.steps
    obtain ⟨hs, hr, hno, hnone⟩ := hq.steps
    refine ⟨_, hsteps.trans hr, fun answer hmem => ?_, ?_⟩
    · exact (List.mem_append.mp hmem).elim (shut_not_mem_accepted works answer) (hno answer)
    · rw [List.filterMap_append, finished?_accepted]
      exact hnone
  closed := hq.closed.trans h.frame.2.1
  step := hq.step

/-- A shutdown that has ended with its answer, and by which no job was run. -/
structure Closed (e : Engine) (drained : Bool) (m : Engine) : Prop where
  closing : ∃ q, Closing e.pool q drained m.pool
  worked : m.worked = e.worked

/-- A pool that is closed runs no job. -/
theorem Closed.idled {drained : Bool} (h : Closed e drained m) : Idled e m := by
  obtain ⟨q, hq⟩ := h.closing
  obtain ⟨hs, hsteps, -, hnone⟩ := hq.steps
  refine ⟨_, hsteps.snoc hq.step, ?_, h.worked⟩
  rw [List.filterMap_append, hnone]
  rfl

/-- **A shutdown of the pool** finds it closed, or it begins and later ends with its answer. -/
theorem closePool_ends (fuel : Nat) (timeout : Duration) (e : Engine) :
    (closePool fuel timeout e).Ends (Closed e) (Idled e) := by
  cases hopen : e.pool.closed with
  | true =>
    rw [closePool_of_closed fuel timeout hopen]
    exact ⟨⟨e.pool, ⟨[], .nil, fun _ => nofun, rfl⟩, rfl, .already hopen⟩, rfl⟩
  | false =>
    have hstart : Steps e.pool [.shutting] e.pool.startDrain := .single (.shutting hopen)
    -- the shutdown that begins has a number of its own
    have hbegun : e.pool.startDrain.closed = e.pool.closed ∧ ∃ d ∈ e.pool.startDrain.drains,
        d.number = e.pool.shutdowns := by
      rw [Pool.startDrain, if_neg (by rw [hopen]; exact Bool.false_ne_true)]
      exact ⟨rfl, _, List.mem_append_right _ List.mem_cons_self, rfl⟩
    obtain ⟨hclosed, d, hd, hnumber⟩ := hbegun
    have hbegin : Idled e { e with pool := e.pool.startDrain } := ⟨_, hstart, rfl, rfl⟩
    rw [closePool_eq fuel timeout hopen, ← hnumber]
    -- while the clock moves on, tasks may hand in jobs
    have hrefl := HandsIn.refl { e with pool := e.pool.startDrain }
    have hwait := awaitDrain_ends d.number hrefl <|
      (ticking_handsIn { e with pool := e.pool.startDrain }).advanceTo fuel
        ({ e with pool := e.pool.startDrain }.now + timeout.ceilMillis) fuel _ hrefl
    refine (hwait.mono (fun _ _ hm => hm) fun m hm => hbegin.trans hm.idled).bind fun _ m hm => ?_
    obtain ⟨works, hsteps⟩ := hm.handed.steps
    obtain ⟨hdrains, hkept, -⟩ := hm.handed.frame
    -- no other shutdown has ended in between
    have hno : ∀ answer,
        .shut answer ∉ Happening.shutting :: works.map Happening.accepted := by
      intro answer hmem
      exact shut_not_mem_accepted works answer
        ((List.mem_cons.mp hmem).resolve_left (by intro heq; cases heq))
    have hworked : (m.concludeDrain timeout d.number).worked = m.worked :=
      concludeDrain_keeps (P := (·.worked = m.worked))
        (fun m line h => (worked_log m line).trans h) timeout rfl
    refine ⟨⟨m.pool, ⟨_, hstart.trans hsteps, hno, finished?_accepted works⟩,
      hkept.trans hclosed, ?_⟩, hworked.trans hm.worked⟩
    rw [pool_concludeDrain]
    exact .shut (hdrains ▸ hd)

/-- How a shutdown ends. -/
theorem shutdown_ends (fuel : Nat) (e : Engine) :
    (shutdown fuel e).Ends (Closed e) (Idled e) := by
  refine ((call_handsIn fuel .clear e).mono (fun _ _ h => h) fun _ h => h.idled).bind
    fun _ m hm => ?_
  refine (closePool_ends fuel (.ofMillis m.config.drainMillis) m).mono ?_ fun _ =>
    hm.idled.trans
  rintro drained m' ⟨⟨q, hq⟩, hworked⟩
  exact ⟨⟨q, .of_handed hm.handed hq⟩, hworked.trans hm.worked⟩

/-! ### Whatever the host asks for -/

/-- Everything that a host may ask for goes on with what becomes of the jobs. -/
theorem serving_laboured (size : Nat) (hs : List (Happening Program)) (js : List (Job Program)) :
    Serving (Laboured size hs js) where
  quiet hq h := h.idled hq.move.handsIn.idled
  call fuel c m h := (call_handsIn fuel c m).mono (fun _ _ hm => h.idled hm.idled)
    fun _ hm => h.idled hm.idled
  settle _ h := h.idled (HandsIn.of_eq rfl rfl).idled
  task fuel limit task due m hresting hnext h :=
    ((ticking_handsIn m).task fuel limit task due m hresting hnext (.refl m)).mono
      (fun _ _ hm => h.idled hm.idled) fun _ hm => h.idled hm.idled
  tick _ _ _ _ h := h.idled (HandsIn.of_eq rfl rfl).idled
  workOff fuel rounds m h := by
    obtain ⟨hs', js', h⟩ := h
    -- only here are jobs run
    obtain ⟨hs'', js'', m', hm', hend⟩ := workOff_labour h fuel rounds
    cases hend with
    | idle hoff =>
      rw [hoff]
      exact hm'.laboured.trans.trans
    | spent hoff =>
      rw [hoff]
      trivial
    | held hoff =>
      rw [hoff]
      trivial
  closePool fuel timeout m h := (closePool_ends fuel timeout m).mono
    (fun _ _ hm => h.idled hm.idled) fun _ => h.idled
  store _ _ h := h.idled (HandsIn.of_eq rfl rfl).idled
  catalog _ _ h := h.idled (HandsIn.of_eq rfl rfl).idled

/-- **Whatever the host asks for goes on with what becomes of the jobs.** -/
theorem HostStep.laboured {size : Nat} {hs : List (Happening Program)} {js : List (Job Program)}
    (hstep : HostStep e e') (h : Labour size hs js e) : Laboured size hs js e' := by
  refine (serving_laboured size hs js).hostStep (fun t hr => ?_) hstep h.laboured
  obtain ⟨registry, -, rfl⟩ := of_register hr
  exact h.laboured.idled (HandsIn.of_eq rfl rfl).idled

/-! ### No job is lost, and none is run twice -/

/-- The engine's pool accepts or refuses a job as a pool does. -/
theorem submit_eq (e : Engine) (job : Program) :
    ((e.submit job).1 = .ok () ∧ e.pool.submit job = .ok (e.submit job).2.pool) ∨
      ∃ err, (e.submit job).1 = .error err ∧ e.pool.submit job = .error err ∧
        (e.submit job).2.pool = e.pool := by
  unfold submit
  split
  · next pool h => exact .inl ⟨rfl, h⟩
  · next h => exact .inr ⟨_, rfl, h, rfl⟩
  · next err _ h => exact .inr ⟨err, rfl, h, rfl⟩

/-- The engine accepts a job exactly if its pool does. -/
theorem submit_eq_ok_iff (e : Engine) (job : Program) :
    (e.submit job).1 = .ok () ↔ ∃ p, e.pool.submit job = .ok p := by
  rcases submit_eq e job with ⟨hok, haccepted⟩ | ⟨err, herr, hrefused, -⟩
  · exact iff_of_true hok ⟨_, haccepted⟩
  · refine iff_of_false (fun hok => ?_) (fun ⟨p, hok⟩ => ?_)
    · cases herr.symm.trans hok
    · cases hrefused.symm.trans hok

/-- **The workers and their jobs**, after what has happened to a pool of a given size and the jobs
that were run, one by one. -/
structure Workforce (size : Nat) (hs : List (Happening Program)) (js : List (Job Program))
    (e : Engine) : Prop where
  /-- Outside a shutdown, a job is accepted exactly if the pool is not closed and there are fewer
  unfinished jobs than workers. -/
  accepts : e.pool.drains = [] → ∀ job, (e.submit job).1 = .ok () ↔
    e.pool.closed = false ∧ e.pool.jobs.length < max size 1
  /-- A job that is refused is none of the pool's, and it is not run. -/
  refuses : ∀ job err, (e.submit job).1 = .error err →
    (e.submit job).2.pool = e.pool ∧ (e.submit job).2.worked = e.worked
  /-- Each accepted job has been run once, or it is unfinished and has not been run. No other job
  has been run. -/
  once : (e.worked ++ e.pool.jobs.map (·.number)).Perm
    (List.range (hs.filterMap Pool.accepted?).length)
  /-- The journal tells of one run for each job that was finished. -/
  noted : e.worked = js.map (·.number) ∧ hs.filterMap Pool.finished? = js.map (·.number)
  /-- What was run, and what is going to be, is what was handed in under the number. -/
  programs : ∀ job ∈ js ++ e.pool.jobs,
    (hs.filterMap Pool.accepted?)[job.number]? = some job.work
  /-- A worker runs the program of a job to its end, whether that is good or bad, and finishes this
  job and no other. -/
  runs : ∀ fuel, ∀ job ∈ e.pool.jobs, ∀ e',
    runJob (exec (call fuel)) job e = .returned () e' ↔ Ran fuel job e e'
  /-- Nothing but a program that does not come to an end holds a worker up. -/
  holds : ∀ fuel, ∀ job ∈ e.pool.jobs, (∀ e', ¬ Ran fuel job e e') ↔
    perform fuel job.work (e.startJob job.number) = .diverged
  /-- The workers run one job after another until none is left, unless one of them is held up or
  there are not rounds enough. -/
  works : ∀ fuel rounds, ∃ hs' js' m, Labour size (hs ++ hs') (js ++ js') m ∧
    WorkedOff fuel rounds e js' m
  /-- A job that is finished frees a single worker. -/
  frees : ∀ job ∈ e.pool.jobs,
    (e.pool.finish job.number).jobs.length + 1 = e.pool.jobs.length ∧
      (e.pool.finish job.number).permits = e.pool.permits + 1 ∧
      (e.pool.drains = [] → (e.pool.finish job.number).active + 1 = e.pool.active)
  /-- A closed pool refuses every job, whatever happens to it. -/
  closes : e.pool.closed = true → ∀ hs' p, Steps e.pool hs' p →
    p.closed = true ∧ ∀ job : Program, p.submit job = .error .poolClosed
  /-- Whatever the host asks for, more of the same happens to the jobs. -/
  goes : ∀ e', HostStep e e' → ∃ hs' js', Labour size (hs ++ hs') (js ++ js') e'

/-- A job that comes to its end frees exactly one worker. -/
theorem active_finish {size : Nat} {p : Pool Program} (hp : p.Balanced size)
    (hdrains : p.drains = []) {job : Job Program} (hjob : job ∈ p.jobs) :
    (p.finish job.number).active + 1 = p.active := by
  have hr := Pool.released { p with jobs := p.jobs.eraseP (·.number = job.number) } 1
  have hpermits := Pool.permits_release { p with jobs := p.jobs.eraseP (·.number = job.number) } 1
  have hlength := List.length_pos_of_mem hjob
  have hbound := hp.bound
  rw [← Pool.finish_eq hjob] at hr hpermits
  have hnone : (p.finish job.number).drains = [] := by
    have hnumbers := hr.numbers
    rw [hdrains] at hnumbers
    exact List.map_eq_nil_iff.mp hnumbers
  have hsize : (p.finish job.number).size = p.size := hr.size
  -- with no shutdown under way, the worker goes back to those that are free
  have hfree : (p.finish job.number).available = p.available + 1 := by
    have hsame : Pool.permits { p with jobs := p.jobs.eraseP (·.number = job.number) } =
        p.permits := rfl
    rw [hsame, Pool.permits, Pool.permits, hnone, hdrains] at hpermits
    exact hpermits
  rw [Pool.permits, hdrains] at hbound
  have hbound : p.available + p.jobs.length ≤ p.size := hbound
  rw [Pool.active, Pool.active, hsize, hfree]
  omega

/-- A refused job leaves the pool and the runs of jobs as they are. -/
theorem submit_refused (e : Engine) {job : Program} {err : SchedulingError}
    (h : (e.submit job).1 = .error err) :
    (e.submit job).2.pool = e.pool ∧ (e.submit job).2.worked = e.worked := by
  rcases submit_eq e job with ⟨hok, -⟩ | ⟨err', -, -, hpool⟩
  · cases h.symm.trans hok
  · refine ⟨hpool, ?_⟩
    have hmoves := (submit_moves e job).moves.deeds
    exact hmoves.handsIn.worked

/-- **No job is lost, and none is run twice**, in whatever order jobs are handed in and run and
shutdowns begin and end. -/
theorem workforce_of_labour {size : Nat} {hs : List (Happening Program)} {js : List (Job Program)}
    (h : Labour size hs js e) : Workforce size hs js e where
  accepts hdrains job :=
    (submit_eq_ok_iff e job).trans (h.steps.sound.submit_iff hdrains job)
  refuses job err herr := submit_refused e herr
  once := by
    have hsound := h.steps.sound
    -- what the journal tells of are the jobs that were finished
    rw [h.noted.1, ← h.noted.2, ← hsound.accepted_eq]
    exact hsound.once
  noted := h.noted
  programs := List.forall_mem_append.mpr ⟨h.programs, h.steps.sound.works⟩
  runs fuel job _ e' := runJob_iff
  holds fuel job _ := forall_not_ran_iff
  works := workOff_labour h
  frees job hjob := by
    refine ⟨?_, ?_, fun hdrains => active_finish h.steps.sound.toBalanced hdrains hjob⟩
    · rw [Pool.finish_eq hjob, (Pool.released _ 1).jobs]
      exact Pool.length_eraseP hjob
    · rw [Pool.finish_eq hjob, Pool.permits_release]
      rfl
  closes hclosed hs' p hsteps := by
    have hstays := hsteps.closed hclosed
    exact ⟨hstays, fun job => if_pos hstays⟩
  goes e' hstep := hstep.laboured h

/-- A single worker is handed a job that breaks off, and refuses another. The first is run, and the
other never. -/
theorem workforce_single : ∃ e e' : Engine,
    (e.submit .done).1 = .error (.poolSaturated 1) ∧ work 2 e = .returned () e' ∧
      e'.worked = [0] ∧ e'.pool.available = 1 ∧
      Workforce 1 [.accepted .panic, .finished 0] [⟨0, .panic⟩] e' := by
  let e₀ : Engine := { newborn ∅ with pool := .ofSize 1 }
  let e : Engine := (e₀.submit .panic).2
  have haccepted : Labour 1 [.accepted .panic] [] e :=
    .idled (m := e₀) (.hired rfl rfl) (.single (.accepted rfl)) rfl rfl
  have hjob : (⟨0, .panic⟩ : Job Program) ∈ e.pool.jobs := List.mem_cons_self
  obtain ⟨e', hrun, hwork, hworked, havailable⟩ : ∃ e',
      runJob (exec (call 2)) ⟨0, .panic⟩ e = .returned () e' ∧ work 2 e = .returned () e' ∧
        e'.worked = [0] ∧ e'.pool.available = 1 := ⟨_, rfl, rfl, rfl, rfl⟩
  have hpool : e'.pool = e.pool.finish 0 := by
    cases hrun
    rfl
  have hsteps : Steps e.pool (([] : List Program).map .accepted ++ [.finished 0]) e'.pool :=
    hpool ▸ .single (.finished hjob)
  -- one job accepted, and the same one run
  have hlabour : Labour 1 [.accepted .panic, .finished 0] [⟨0, .panic⟩] e' :=
    Labour.ran haccepted hjob (runJob_iff.mp hrun) hsteps
  exact ⟨e, e', rfl, hwork, hworked, havailable, workforce_of_labour hlabour⟩

/-! ### What the answer of a shutdown is worth -/

/-- **The answers of shutdowns**, after what has happened to a pool of a given size. -/
structure Reports (size : Nat) (hs : List (Happening Program)) (e : Engine) : Prop where
  /-- A pool that was said to be drained is drained, if it was open until then, or if no shutdown
  before ran out of time. -/
  real : max size 1 ≤ Decimal.maxNat32 → e.pool.closed = false ∨ .shut false ∉ hs →
    ∀ p, Pool.Step e.pool (.shut true) p → p.jobs = []
  /-- A pool that was closed before is said to be drained, whatever jobs are unfinished. -/
  again : e.pool.closed = true → ∀ drained p, Pool.Step e.pool (.shut drained) p →
    drained = true ∧ p.jobs = e.pool.jobs
  /-- Of more workers than 32 bits can count, those beyond are left out: with their permits jobs may
  go on. -/
  wide : Decimal.maxNat32 < size → e.pool.closed = false → ∀ p, Pool.Step e.pool (.shut true) p →
    p.permits + p.jobs.length = size - Decimal.maxNat32
  /-- It is the same when the whole engine is shut down. -/
  whole : max size 1 ≤ Decimal.maxNat32 → e.pool.closed = false ∨ .shut false ∉ hs →
    ∀ fuel e', shutdown fuel e = .returned true e' → e'.pool.jobs = []

/-- **A pool that is said to be drained is drained**, unless an earlier shutdown ran out of time, or
there are more workers than 32 bits can count. -/
theorem reports_of_steps {size : Nat} {hs : List (Happening Program)}
    (h : Steps (.ofSize size) hs e.pool) : Reports size hs e := by
  -- stated for any pool, as a shutdown of the engine ends in one that is not the first
  have hreal : ∀ {q p : Pool Program} {hs : List (Happening Program)},
      Steps (.ofSize size) hs q → max size 1 ≤ Decimal.maxNat32 →
      q.closed = false ∨ .shut false ∉ hs → Pool.Step q (.shut true) p → p.jobs = [] := by
    intro q p hs hq hsmall hcase hstep
    cases hclosed : q.closed with
    | true =>
      rw [(hstep.shut_closed hclosed).2]
      refine hq.sound.emptied hsmall (hcase.resolve_left fun hopen => ?_) hclosed
      cases hopen.symm.trans hclosed
    | false =>
      have hspent := hq.sound.shut_open hclosed hstep
      rw [Nat.min_eq_left hsmall] at hspent
      exact List.eq_nil_of_length_eq_zero (by omega)
  refine ⟨fun hsmall hcase p => hreal h hsmall hcase,
    fun hclosed drained p hstep => hstep.shut_closed hclosed,
    fun hwide hopen p hstep => ?_, fun hsmall hcase fuel e' hshutdown => ?_⟩
  · have hspent := h.sound.shut_open hopen hstep
    have hone : max size 1 = size := Nat.max_eq_left (Nat.le_trans (Nat.le_add_left 1 _) hwide)
    rw [hone, Nat.min_eq_right (Nat.le_of_lt hwide)] at hspent
    exact (Nat.sub_eq_of_eq_add hspent.symm).symm
  · -- up to its end the shutdown has handed in jobs, and none of the others ended
    obtain ⟨q, hq⟩ := ((shutdown_ends fuel e).returned hshutdown).closing
    obtain ⟨hs', hsteps, hno, -⟩ := hq.steps
    refine hreal (h.trans hsteps) hsmall (hcase.imp hq.closed.trans fun hno' hmem => ?_) hq.step
    exact (List.mem_append.mp hmem).elim hno' (hno false)

/-- A job that goes on behind two shutdowns. -/
def working : Engine := ({ newborn ∅ with pool := .ofSize 1 }.submit .done).2

/-- The first shutdown runs out of time; the second finds the pool closed and says that it is
drained, though the job is unfinished. -/
theorem reports_undrained : ∃ e e' : Engine, Steps (.ofSize 1) [.accepted .done] working.pool ∧
    closePool 1 (.ofMillis 10) working = .returned false e ∧
    closePool 1 (.ofMillis 10) e = .returned true e' ∧ e'.pool.jobs.length = 1 :=
  ⟨_, _, .single (.accepted rfl), rfl, rfl, rfl⟩

/-- When its job is finished, it is drained. -/
theorem reports_working : ∃ e e' : Engine, work 2 working = .returned () e ∧
    shutdown 2 e = .returned true e' ∧ e'.pool.jobs = [] := by
  have hruns : ∃ e e' : Engine, work 2 working = .returned () e ∧
      e.pool = working.pool.finish 0 ∧ shutdown 2 e = .returned true e' := ⟨_, _, rfl, rfl, rfl⟩
  obtain ⟨e, e', hwork, hpool, hshutdown⟩ := hruns
  have haccepted : Steps (.ofSize 1) [.accepted .done] working.pool := .single (.accepted rfl)
  have hjob : ⟨0, .done⟩ ∈ working.pool.jobs := List.mem_cons_self
  have hfinished : Steps (.ofSize 1) [.accepted .done, .finished 0] e.pool := by
    rw [hpool]
    exact haccepted.snoc (.finished hjob)
  refine ⟨e, e', hwork, hshutdown, ?_⟩
  exact (reports_of_steps hfinished).whole (by decide) (.inr (by simp)) 2 e' hshutdown

end Engine

end Flowgraph
