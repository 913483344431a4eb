/-
Suspending a chain and resuming it: `ToSuspended` takes the job chain and
the three try maps as they stand, and the resume path rebuilds a chain
with `NewChain(sjc.JobChain, sjc.SequenceTries, sjc.TotalJobTries,
sjc.LatestRunJobTries)`, as `TestRunnableJobs` calls it (`resume`).

# What the round trip changes

`NewChain` gives every job whose `Data` is `nil` an empty map, and changes
nothing else. The chain is a value here, as the snapshot is once persisted
and read back. So the resumed chain reads every state, id, sequence field
and counter of the original, and every query agrees
(`resume_toSuspended_agrees`); the jobs it returns (`NextJobs`,
`RunnableJobs`, `SequenceStartJob`) differ at most in `Data`. Go picks
the order of a map's `range` anew each time, and the round trip keeps
none: `RunnableJobs` agrees as a set, whatever order each chain's loop
takes, and `IsDoneRunning` in every order, the resumed chain's loop
visiting the ids as the original's did. A job has a
`nil` `Data` only when `SetJobState` created it at an id that is not a
key of `Jobs`: a chain built by `NewChain` and changed only by calls that
name its jobs comes back exactly (`resume_toSuspended`), and one such
`SetJobState` makes the difference visible through `NextJobs`
(`resume_toSuspended_absent`).
-/
import SpinCycle.Chain.Basic

namespace SpinCycle

namespace Job

/-- The job with `Data` dropped: what a comparison of jobs that ignores
`Data` sees. -/
def eraseData (job : Job) : Job := { job with data := none }

variable (job : Job)

@[simp] theorem withData_state : job.withData.state = job.state := by
  unfold withData; split <;> rfl

@[simp] theorem withData_id : job.withData.id = job.id := by
  unfold withData; split <;> rfl

@[simp] theorem withData_sequenceId : job.withData.sequenceId = job.sequenceId := by
  unfold withData; split <;> rfl

@[simp] theorem withData_sequenceRetry : job.withData.sequenceRetry = job.sequenceRetry := by
  unfold withData; split <;> rfl

@[simp] theorem eraseData_withData : job.withData.eraseData = job.eraseData := by
  unfold withData; split <;> rfl

theorem withData_data_ne_none : job.withData.data ≠ none := by
  unfold withData; split <;> simp_all

theorem withData_of_data_ne_none {job : Job} (h : job.data ≠ none) : job.withData = job :=
  if_neg h

end Job

namespace Chain

variable (P : Proto) {c : Chain}

/-- The resume path: `NewChain` on the parts of a snapshot. -/
def resume (s : SuspendedJobChain) : Chain :=
  newChain s.jobChain s.sequenceTries s.totalJobTries s.latestRunJobTries

/-- The suspended and resumed chain: the same chain, `Data` materialised. -/
theorem resume_toSuspended_eq (c : Chain) : resume c.toSuspended = { c with
    jobChain := { c.jobChain with jobs := c.jobChain.jobs.mapVal fun _ job => job.withData } } :=
  rfl

/-- A field that `Job.withData` keeps reads alike through the materialised map. -/
theorem getElem_materialize {β : Type} {g : Job → β} (hg : ∀ job, g job.withData = g job)
    (m : GoMap Job) (k : String) : g (m.mapVal fun _ job => job.withData)[k] = g m[k] := by
  simp only [GoMap.getElem_def, GoMap.lookup_mapVal]
  cases m.lookup k <;> simp [hg]

-- ============================================================ agreement

/-- What the resumed chain `c'` shares with `c`: every query for every
argument, the jobs it returns up to `Data`. `RunnableJobs` and
`IsDoneRunning` range over `Jobs`, in an order the runtime picks anew on
every `range`: `RunnableJobs` returns the same jobs whatever order each
chain's loop takes, and `IsDoneRunning` answers alike whenever the
resumed chain's loop visits the ids in the order the original's did. -/
structure ResumeAgrees (c c' : Chain) : Prop where
  jobState : ∀ x, c'.jobState x = c.jobState x
  state : c'.state = c.state
  requestId : c'.requestId = c.requestId
  finishedJobs : c'.finishedJobs = c.finishedJobs
  jobTries : ∀ x, c'.jobTries x = c.jobTries x
  sequenceTriesOf : ∀ x, c'.sequenceTriesOf x = c.sequenceTriesOf x
  sequenceStartJob : ∀ x, (c'.sequenceStartJob x).eraseData = (c.sequenceStartJob x).eraseData
  isSequenceStartJob : ∀ x, c'.isSequenceStartJob x = c.isSequenceStartJob x
  canRetrySequence : ∀ x, c'.canRetrySequence x = c.canRetrySequence x
  isRunnable : ∀ x, c'.isRunnable P x = c.isRunnable P x
  runnableJobs : ∀ l l' : List (Σ _ : String, Job), l.Perm c.jobChain.jobs.entries →
    l'.Perm c'.jobChain.jobs.entries →
      (c'.runnableScan P l').Perm ((c.runnableScan P l).map Job.withData)
  nextJobs : ∀ x, c'.nextJobs x = (c.nextJobs x).map Job.withData
  failedJobs : c'.failedJobs P = c.failedJobs P
  isDoneRunning : ∀ l : List (Σ _ : String, Job), l.Perm c.jobChain.jobs.entries →
    (l.map fun e => ⟨e.1, e.2.withData⟩).Perm c'.jobChain.jobs.entries ∧
      c'.doneScan P (l.map fun e => ⟨e.1, e.2.withData⟩) true = c.doneScan P l true

section resumed

variable (c : Chain)

theorem previousJobs_resume (x : String) :
    (resume c.toSuspended).previousJobs x = (c.previousJobs x).map Job.withData := by
  simp only [previousJobs, resume_toSuspended_eq, List.map_filterMap]
  congr 1
  funext e
  split <;> simp

theorem nextJobs_resume (x : String) :
    (resume c.toSuspended).nextJobs x = (c.nextJobs x).map Job.withData := by
  simp only [nextJobs, resume_toSuspended_eq]
  split <;> simp [List.map_filterMap]

theorem isRunnable_resume (x : String) :
    (resume c.toSuspended).isRunnable P x = c.isRunnable P x := by
  simp only [isRunnable, previousJobs_resume, List.all_map, Function.comp_def, Job.withData_state]
  rw [resume_toSuspended_eq, getElem_materialize Job.withData_state]

theorem sequenceStartJob_resume {β : Type} {g : Job → β} (hg : ∀ job, g job.withData = g job)
    (x : String) : g ((resume c.toSuspended).sequenceStartJob x) = g (c.sequenceStartJob x) := by
  simp only [sequenceStartJob, resume_toSuspended_eq]
  rw [getElem_materialize hg, getElem_materialize Job.withData_sequenceId]

theorem canRetrySequence_resume (x : String) :
    (resume c.toSuspended).canRetrySequence x = c.canRetrySequence x := by
  simp only [canRetrySequence]
  rw [sequenceStartJob_resume c Job.withData_id,
    sequenceStartJob_resume c Job.withData_sequenceRetry]
  rfl

/-- The body of `IsDoneRunning`'s loop reads only what the round trip keeps. -/
theorem scanEntry_resume (job : Job) (acc : Bool) :
    (resume c.toSuspended).scanEntry P job.withData acc = c.scanEntry P job acc := by
  simp only [scanEntry, Job.withData_state, Job.withData_id, isRunnable_resume,
    canRetrySequence_resume]

/-- The scan of `IsDoneRunning` reads only what the round trip keeps. -/
theorem doneScan_resume (l : List (Σ _ : String, Job)) (complete : Bool) :
    (resume c.toSuspended).doneScan P (l.map fun e => ⟨e.1, e.2.withData⟩) complete
      = c.doneScan P l complete := by
  induction l generalizing complete with
  | nil => rfl
  | cons e l ih =>
      rw [List.map_cons, doneScan, scanEntry_resume, funext ih]
      rfl

/-- The loop of `RunnableJobs` keeps the jobs `IsRunnable` accepts, which
the round trip leaves alone. -/
theorem runnableScan_resume (l : List (Σ _ : String, Job)) :
    (resume c.toSuspended).runnableScan P (l.map fun e => ⟨e.1, e.2.withData⟩)
      = (c.runnableScan P l).map Job.withData := by
  simp only [runnableScan, List.filterMap_map, List.map_filterMap, Function.comp_def,
    isRunnable_resume, apply_ite (Option.map Job.withData), Option.map_some', Option.map_none']

end resumed

/-- Suspending and resuming any chain changes no query's answer; the jobs
returned change at most in `Data`, `nil` becoming an empty map. -/
theorem resume_toSuspended_agrees (c : Chain) : ResumeAgrees P c (resume c.toSuspended) where
  jobState x := by
    simp only [jobState, resume_toSuspended_eq]
    exact getElem_materialize Job.withData_state _ x
  state := rfl
  requestId := rfl
  finishedJobs := rfl
  jobTries _ := rfl
  sequenceTriesOf x := by
    simp only [sequenceTriesOf, resume_toSuspended_eq,
      getElem_materialize Job.withData_sequenceId c.jobChain.jobs x]
  sequenceStartJob := sequenceStartJob_resume c Job.eraseData_withData
  isSequenceStartJob x := by
    simp only [isSequenceStartJob, resume_toSuspended_eq,
      getElem_materialize Job.withData_sequenceId c.jobChain.jobs x]
  canRetrySequence := canRetrySequence_resume c
  isRunnable := isRunnable_resume P c
  runnableJobs l l' hl hl' := by
    rw [← runnableScan_resume]
    exact hl'.trans (hl.map _).symm |>.filterMap _
  nextJobs := nextJobs_resume c
  failedJobs := by
    simp only [failedJobs, resume_toSuspended_eq, GoMap.entries_mapVal, List.countP_map,
      Function.comp_def, Job.withData_state]
  isDoneRunning l hl := ⟨hl.map _, doneScan_resume P c l true⟩

-- ======================================================== exact round trip

/-- Every job has a `Data` map. -/
def DataSet (c : Chain) : Prop := ∀ k ∈ c.jobChain.jobs, c.jobChain.jobs[k].data ≠ none

/-- A call names a job of the chain, if it names one at all. -/
def Op.OnPresentJob (c : Chain) : Op → Prop
  | .setJobState jobId _ => jobId ∈ c.jobChain.jobs
  | .setState _ | .incrementJobTries .. | .incrementSequenceTries .. | .incrementFinishedJobs _ =>
      True

/-- One returning call that names a job of the chain, if any. -/
def PresentStep (c c' : Chain) : Prop := ∃ op : Op, op.OnPresentJob c ∧ c.exec op = .ret c'

theorem dataSet_newChain (jc : JobChain)
    (sequenceTries totalJobTries latestRunJobTries : GoMap Nat) :
    (newChain jc sequenceTries totalJobTries latestRunJobTries).DataSet := fun k hk => by
  simp only [newChain] at hk ⊢
  rw [GoMap.getElem_mapVal_of_mem _ ((GoMap.mem_mapVal _ _ _).1 hk)]
  exact Job.withData_data_ne_none _

/-- Only `SetJobState` writes `Jobs`: the other calls keep them, panic or not. -/
theorem exec_jobs_of_ne {op : Op} (h : ∀ jobId s, op ≠ .setJobState jobId s) :
    (c.exec op).chain.jobChain.jobs = c.jobChain.jobs := by
  cases op with
  | setJobState jobId s => exact absurd rfl (h jobId s)
  | setState | incrementSequenceTries => rfl
  | incrementJobTries jobId d => simp [exec]
  | incrementFinishedJobs d => simp [exec]

theorem dataSet_step {c' : Chain} (hd : c.DataSet) (h : PresentStep c c') : c'.DataSet := by
  obtain ⟨op, hop, hex⟩ := h
  by_cases hs : ∃ jobId s, op = .setJobState jobId s
  · obtain ⟨jobId, s, rfl⟩ := hs
    cases hex
    intro k hk
    rw [setJobState_jobs, AList.mem_insert] at hk
    by_cases hkj : k = jobId
    · subst hkj; simpa using hd k hop
    · rw [setJobState_jobs, GoMap.getElem_insert_ne _ _ hkj]
      exact hd k (hk.resolve_left hkj)
  · have hj := exec_jobs_of_ne (c := c) (fun jobId s he => hs ⟨jobId, s, he⟩)
    rw [hex] at hj
    intro k hk
    simp only [Outcome.chain] at hj
    rw [hj] at hk ⊢
    exact hd k hk

/-- A chain whose jobs all have `Data` comes back from a suspend and resume
as it was. -/
theorem resume_toSuspended_of_dataSet (hd : c.DataSet) : resume c.toSuspended = c := by
  rw [resume_toSuspended_eq, GoMap.mapVal_eq_self]
  exact (GoMap.forall_mem_entries (p := fun _ job => job.withData = job)).2
    fun k hk => Job.withData_of_data_ne_none (hd k hk)

/-- Every chain built by `NewChain` and changed by calls that name its
jobs comes back from a suspend and resume as it was; any chain comes back
with every query's answer, and its jobs up to `Data`. -/
theorem resume_toSuspended (P : Proto) :
    (∀ c : Chain, ResumeAgrees P c (resume c.toSuspended)) ∧
    (∀ (jc : JobChain) (sequenceTries totalJobTries latestRunJobTries : GoMap Nat) (c : Chain),
      Relation.ReflTransGen PresentStep (newChain jc sequenceTries totalJobTries latestRunJobTries) c →
      resume c.toSuspended = c) := by
  refine ⟨resume_toSuspended_agrees P, fun jc s t l c h => resume_toSuspended_of_dataSet ?_⟩
  induction h with
  | refl => exact dataSet_newChain jc s t l
  | tail _ hstep ih => exact dataSet_step ih hstep

/-- `job1` lists `job2`, which is not among the jobs. -/
def danglingChain : JobChain := (testChain [("job1", 1)] [("job1", ["job2"])]).jobChain

/-- A new chain resumes to itself. -/
theorem resume_toSuspended_fresh :
    resume (newChain danglingChain ∅ ∅ ∅).toSuspended = newChain danglingChain ∅ ∅ ∅ :=
  (resume_toSuspended testProto).2 _ _ _ _ _ .refl

/-- `SetJobState` at the absent `job2` stores a job with a `nil` `Data`,
which `NextJobs` returns; after a suspend and resume it returns the job
with an empty map instead. -/
theorem resume_toSuspended_absent :
    (resume ((newChain danglingChain ∅ ∅ ∅).setJobState "job2" 1).toSuspended).nextJobs "job1"
      ≠ ((newChain danglingChain ∅ ∅ ∅).setJobState "job2" 1).nextJobs "job1" := by
  decide

end Chain

end SpinCycle
