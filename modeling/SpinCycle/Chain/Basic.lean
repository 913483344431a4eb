/-
`job-runner/chain/chain.go` as values: the `proto` records the chain
reads (`Job`, `JobChain`, `SuspendedJobChain`), the `Chain` that binds a
job chain to its try counters, and every function of the file under its
Go name.

# What is modelled, and what is not

Each method here runs as one critical section to completion, so a
method and its lock-free twin (`IsRunnable`/`isRunnable`,
`CanRetrySequence`/`canRetrySequence`,
`SequenceStartJob`/`sequenceStartJob`) compute the same thing and share
one definition. The two read/write locks enter in `Chain.Locks`, which
cuts the methods at their lock sections and interleaves goroutines. A
method that may panic returns an `Outcome`: the chain its writes left,
and whether it panicked, with the text. The locks are not part of it:
`IncrementJobTries` panics holding `triesMux`, which it releases
without `defer`, so after a recovered panic the lock stays held, which
the `Outcome` does not record.

`proto` is not among the sources. Its six job-state bytes enter as the
injective `Proto.state`, with `proto.StateName` and `proto.StateValue`
beside it; of `proto.Job` only the fields the chain reads are kept.

# The chain as a state machine

`Op` lists the calls that write, and `Chain.exec` runs one. The queries
(`JobState`, `IsRunnable`, `IsDoneRunning`, ...) are functions of the
chain and write nothing, so a run is a list of `Op`s.
-/
import Mathlib.Tactic.DeriveFintype
import SpinCycle.Go

namespace SpinCycle

-- ========================================================= proto records

/-- The job states the chain's `switch` tells apart. -/
inductive StateConst
  | unknown | pending | running | complete | fail | stopped
deriving DecidableEq, Fintype

/-- The `proto` tables the sources read but do not define: the byte of
each `STATE_*` constant, `StateName` and `StateValue`. Go rejects a
`switch` whose constant cases repeat, so `IsDoneRunning` makes the six
bytes distinct. -/
structure Proto where
  state : StateConst → UInt8
  state_injective : Function.Injective state
  stateName : UInt8 → String
  stateValue : GoMap UInt8

/-- A byte that is one of the six job states. -/
def Proto.Valid (P : Proto) (s : UInt8) : Prop := ∃ n, P.state n = s

instance (P : Proto) (s : UInt8) : Decidable (P.Valid s) :=
  inferInstanceAs (Decidable (∃ n, P.state n = s))

@[simp] theorem Proto.state_inj (P : Proto) {a b : StateConst} :
    P.state a = P.state b ↔ a = b :=
  P.state_injective.eq_iff

/-- The fields of `proto.Job` that the chain reads. `Data` is an opaque
`map[string]interface{}`, `none` standing for `nil`; its values are kept
as strings, which nothing here reads. -/
structure Job where
  id : String
  state : UInt8
  sequenceId : String
  sequenceRetry : Nat
  data : Option (GoMap String)
deriving DecidableEq, Inhabited

/-- `proto.JobChain`. -/
structure JobChain where
  requestId : String
  jobs : GoMap Job
  adjacencyList : GoMap (List String)
  finishedJobs : Nat
  state : UInt8
deriving DecidableEq

/-- `proto.SuspendedJobChain`: what a suspended chain is persisted as. -/
structure SuspendedJobChain where
  requestId : String
  jobChain : JobChain
  totalJobTries : GoMap Nat
  latestRunJobTries : GoMap Nat
  sequenceTries : GoMap Nat
deriving DecidableEq

/-- Every job is stored under its own id, as the request resolver builds
the map: `Jobs[k].Id = k`. -/
def JobChain.KeyedById (jc : JobChain) : Prop := ∀ e ∈ jc.jobs.entries, e.2.id = e.1

instance (jc : JobChain) : Decidable jc.KeyedById :=
  inferInstanceAs (Decidable (∀ e ∈ jc.jobs.entries, _))

/-- Every job's `SequenceId` names a job of the chain, as the request
resolver sets it: the start job of the job's sequence. -/
def JobChain.SequenceIdsPresent (jc : JobChain) : Prop :=
  ∀ k ∈ jc.jobs, jc.jobs[k].sequenceId ∈ jc.jobs

instance (jc : JobChain) : Decidable jc.SequenceIdsPresent :=
  inferInstanceAs (Decidable (∀ k ∈ jc.jobs, _))

theorem JobChain.KeyedById.id_eq {jc : JobChain} (h : jc.KeyedById) {k : String} {j : Job}
    (hj : jc.jobs.lookup k = some j) : j.id = k :=
  h ⟨k, j⟩ (AList.mem_lookup_iff.1 hj)

-- ================================================================ chain

/-- `Chain`: a job chain and its three try-counter maps. -/
structure Chain where
  jobChain : JobChain
  sequenceTries : GoMap Nat
  latestRunJobTries : GoMap Nat
  totalJobTries : GoMap Nat
deriving DecidableEq

/-- How a call that may panic ends: it returns, or it panics with a
message; either way the chain holds the writes made before the end. -/
inductive Outcome
  | ret (c : Chain)
  | panic (msg : String) (c : Chain)
deriving DecidableEq

/-- The chain a call left, whether it returned or panicked. -/
def Outcome.chain : Outcome → Chain
  | .ret c => c
  | .panic _ c => c

/-- The body of `NewChain`'s loop: a `nil` `Data` becomes an empty map. -/
def Job.withData (job : Job) : Job :=
  if job.data = none then { job with data := some ∅ } else job

/-- `NewChain`: materialise an empty `Data` map on every job whose `Data`
is `nil`, then bind the job chain and the three maps as given. -/
def newChain (jc : JobChain) (sequenceTries totalJobTries latestRunJobTries : GoMap Nat) :
    Chain where
  jobChain := { jc with jobs := jc.jobs.mapVal fun _ job => job.withData }
  sequenceTries := sequenceTries
  totalJobTries := totalJobTries
  latestRunJobTries := latestRunJobTries

/-- `contains`: whether `t` occurs in `s`. -/
def contains (s : List String) (t : String) : Bool := s.any fun i => i = t

@[simp] theorem contains_iff {s : List String} {t : String} : contains s t = true ↔ t ∈ s := by
  simp [contains]

namespace Chain

/-- `NextJobs`: the jobs named by `jobId`'s adjacency entry that exist,
in entry order. -/
def nextJobs (c : Chain) (jobId : String) : List Job :=
  match c.jobChain.adjacencyList.lookup jobId with
  | some nextJobIds => nextJobIds.filterMap fun id => c.jobChain.jobs.lookup id
  | none => []

/-- `previousJobs`: scan the adjacency list for entries naming `jobId`,
keeping each such entry's job when it exists. -/
def previousJobs (c : Chain) (jobId : String) : List Job :=
  c.jobChain.adjacencyList.entries.filterMap fun e =>
    if contains e.2 jobId then c.jobChain.jobs.lookup e.1 else none

section states

variable (P : Proto)

/-- `IsRunnable` and `isRunnable`: the job is `PENDING` and every
previous job is `COMPLETE`. -/
def isRunnable (c : Chain) (jobId : String) : Bool :=
  if c.jobChain.jobs[jobId].state ≠ P.state .pending then false
  else (c.previousJobs jobId).all fun job => job.state = P.state .complete

/-- The `range` loop of `RunnableJobs` over the jobs in one iteration
order: the jobs `IsRunnable` accepts, in that order. -/
def runnableScan (c : Chain) (jobs : List (Σ _ : String, Job)) : List Job :=
  jobs.filterMap fun e => if c.isRunnable P e.1 then some e.2 else none

/-- `RunnableJobs`, over the iteration order the entries of `Jobs` stand
for. -/
def runnableJobs (c : Chain) : List Job := c.runnableScan P c.jobChain.jobs.entries

/-- `FailedJobs`: the number of jobs in `FAIL` or `UNKNOWN`. -/
def failedJobs (c : Chain) : Nat :=
  c.jobChain.jobs.entries.countP fun e =>
    e.2.state = P.state .fail ∨ e.2.state = P.state .unknown

end states

/-- `SequenceStartJob` and `sequenceStartJob`: `Jobs[Jobs[jobId].SequenceId]`. -/
def sequenceStartJob (c : Chain) (jobId : String) : Job :=
  c.jobChain.jobs[c.jobChain.jobs[jobId].sequenceId]

/-- `IsSequenceStartJob`. -/
def isSequenceStartJob (c : Chain) (jobId : String) : Bool :=
  jobId = c.jobChain.jobs[jobId].sequenceId

/-- `CanRetrySequence` and `canRetrySequence`: the start job's sequence
has been tried at most `SequenceRetry` times. -/
def canRetrySequence (c : Chain) (jobId : String) : Bool :=
  let sequenceStartJob := c.sequenceStartJob jobId
  c.sequenceTries[sequenceStartJob.id] ≤ sequenceStartJob.sequenceRetry

/-- The body of `IsDoneRunning`'s loop on one job, the `switch` on its
state: an early return (`.inl`), or the value of `complete` the loop
goes on with (`.inr`). -/
def scanEntry (P : Proto) (c : Chain) (job : Job) (complete : Bool) :
    Except String (Bool × Bool) ⊕ Bool :=
  if job.state = P.state .complete then .inr complete
  else if job.state = P.state .running then .inl (.ok (false, false))
  else if job.state = P.state .stopped then .inr false
  else if job.state = P.state .pending then
    if c.isRunnable P job.id then .inl (.ok (false, false)) else .inr false
  else if job.state = P.state .fail ∨ job.state = P.state .unknown then
    if c.canRetrySequence job.id then .inl (.ok (false, false)) else .inr false
  else .inl (.error ("IsDoneRunning: invalid job state: " ++ P.stateName job.state))

/-- The `range` loop of `IsDoneRunning`, over the jobs in one iteration
order, with `complete` its accumulator: `scanEntry` on each job until it
returns early. -/
def doneScan (P : Proto) (c : Chain) :
    List (Σ _ : String, Job) → Bool → Except String (Bool × Bool)
  | [], complete => .ok (true, complete)
  | ⟨_, job⟩ :: jobs, complete => (c.scanEntry P job complete).elim id (c.doneScan P jobs)

/-- `IsDoneRunning`: `(done, complete)`, or the panic on an invalid state. -/
def isDoneRunning (P : Proto) (c : Chain) : Except String (Bool × Bool) :=
  c.doneScan P c.jobChain.jobs.entries true

/-- `IncrementJobTries`: a positive `delta` is added to the total tries;
the latest-run tries move by `delta` in `int` arithmetic, panicking
below zero after the total has been written. Go panics there holding
`triesMux`, whose `Unlock` is not deferred, so after a recovered panic
the lock stays held; the `Outcome` records the maps only. -/
def incrementJobTries (c : Chain) (jobId : String) (delta : Int) : Outcome :=
  let c₁ := if delta > 0 then
      { c with totalJobTries :=
          c.totalJobTries.insert jobId (addUint c.totalJobTries[jobId] (goUint delta)) }
    else c
  let cur := goInt c₁.latestRunJobTries[jobId]
  if addInt cur delta < 0 then
    .panic ("IncrementJobTries jobId " ++ jobId ++ ": cur " ++ toString cur ++ " + delta " ++
      toString delta ++ " < 0") c₁
  else .ret { c₁ with
    latestRunJobTries := c₁.latestRunJobTries.insert jobId (goUint (addInt cur delta)) }

/-- `JobTries`: `(latest-run tries, total tries)`. -/
def jobTries (c : Chain) (jobId : String) : Nat × Nat :=
  (c.latestRunJobTries[jobId], c.totalJobTries[jobId])

/-- `IncrementSequenceTries`: move the counter of `jobId`'s sequence by
`delta` in `int` arithmetic, with no check on the sign. -/
def incrementSequenceTries (c : Chain) (jobId : String) (delta : Int) : Chain :=
  let seqId := c.jobChain.jobs[jobId].sequenceId
  let cur := goInt c.sequenceTries[seqId]
  { c with sequenceTries := c.sequenceTries.insert seqId (goUint (addInt cur delta)) }

/-- `SequenceTries`: the counter of `jobId`'s sequence (the field
`sequenceTries`, Go's own, holds the plain name). -/
def sequenceTriesOf (c : Chain) (jobId : String) : Nat :=
  c.sequenceTries[c.jobChain.jobs[jobId].sequenceId]

/-- `IncrementFinishedJobs`: move `FinishedJobs` by `delta` in `int`
arithmetic, panicking below zero. -/
def incrementFinishedJobs (c : Chain) (delta : Int) : Outcome :=
  let cur := goInt c.jobChain.finishedJobs
  if addInt cur delta < 0 then
    .panic ("IncrementFinishedJobs cur " ++ toString cur ++ " + delta " ++ toString delta ++
      " < 0") c
  else .ret { c with jobChain := { c.jobChain with finishedJobs := goUint (addInt cur delta) } }

/-- `FinishedJobs`. -/
def finishedJobs (c : Chain) : Nat := c.jobChain.finishedJobs

/-- `RequestId`. -/
def requestId (c : Chain) : String := c.jobChain.requestId

/-- `ToSuspended`: the job chain and the three maps, as they stand. -/
def toSuspended (c : Chain) : SuspendedJobChain where
  requestId := c.requestId
  jobChain := c.jobChain
  totalJobTries := c.totalJobTries
  latestRunJobTries := c.latestRunJobTries
  sequenceTries := c.sequenceTries

/-- `JobState`. -/
def jobState (c : Chain) (jobId : String) : UInt8 := c.jobChain.jobs[jobId].state

/-- `SetState`. -/
def setState (c : Chain) (state : UInt8) : Chain :=
  { c with jobChain := { c.jobChain with state := state } }

/-- `State`. -/
def state (c : Chain) : UInt8 := c.jobChain.state

/-- `SetJobState`: read the job (the zero job if absent), set its state,
store it back under `jobId`. -/
def setJobState (c : Chain) (jobId : String) (state : UInt8) : Chain :=
  let j := c.jobChain.jobs[jobId]
  { c with
    jobChain := { c.jobChain with jobs := c.jobChain.jobs.insert jobId { j with state := state } } }

-- ============================================== the chain as a state machine

/-- The calls that write to a chain. -/
inductive Op
  | setJobState (jobId : String) (state : UInt8)
  | setState (state : UInt8)
  | incrementJobTries (jobId : String) (delta : Int)
  | incrementSequenceTries (jobId : String) (delta : Int)
  | incrementFinishedJobs (delta : Int)

/-- One call on the chain. -/
def exec (c : Chain) : Op → Outcome
  | .setJobState jobId state => .ret (c.setJobState jobId state)
  | .setState state => .ret (c.setState state)
  | .incrementJobTries jobId delta => c.incrementJobTries jobId delta
  | .incrementSequenceTries jobId delta => .ret (c.incrementSequenceTries jobId delta)
  | .incrementFinishedJobs delta => c.incrementFinishedJobs delta

-- ===================================================== concrete chains

/-- Six distinct bytes for the states, for the witnesses below and in the
other files: `proto`'s own values are not among the sources. -/
def testProto : Proto where
  state
    | .unknown => 0 | .pending => 1 | .running => 2 | .complete => 3 | .fail => 4
    | .stopped => 6
  state_injective := by decide
  stateName _ := ""
  stateValue := ∅

/-- A chain in the shape of the chain tests' fixtures: jobs `jobN` stored
under their ids in the given states, all in `job1`'s sequence, with no
tries recorded. -/
def testChain (jobs : List (String × UInt8)) (adj : List (String × List String)) : Chain where
  jobChain :=
    { requestId := "test"
      jobs := (jobs.map fun (id, state) =>
        (⟨id, ⟨id, state, "job1", 0, none⟩⟩ : Σ _ : String, Job)).toAList
      adjacencyList :=
        (adj.map fun (id, ids) => (⟨id, ids⟩ : Σ _ : String, List String)).toAList
      finishedJobs := 0
      state := 0 }
  sequenceTries := ∅
  latestRunJobTries := ∅
  totalJobTries := ∅

-- ========================================================== field lemmas

@[simp] theorem setJobState_jobs (c : Chain) (jobId : String) (s : UInt8) :
    (c.setJobState jobId s).jobChain.jobs
      = c.jobChain.jobs.insert jobId { c.jobChain.jobs[jobId] with state := s } := rfl

@[simp] theorem setJobState_adjacencyList (c : Chain) (jobId : String) (s : UInt8) :
    (c.setJobState jobId s).jobChain.adjacencyList = c.jobChain.adjacencyList := rfl

@[simp] theorem setJobState_sequenceTries (c : Chain) (jobId : String) (s : UInt8) :
    (c.setJobState jobId s).sequenceTries = c.sequenceTries := rfl

@[simp] theorem setJobState_latestRunJobTries (c : Chain) (jobId : String) (s : UInt8) :
    (c.setJobState jobId s).latestRunJobTries = c.latestRunJobTries := rfl

@[simp] theorem setJobState_totalJobTries (c : Chain) (jobId : String) (s : UInt8) :
    (c.setJobState jobId s).totalJobTries = c.totalJobTries := rfl

@[simp] theorem setState_jobs (c : Chain) (s : UInt8) :
    (c.setState s).jobChain.jobs = c.jobChain.jobs := rfl

@[simp] theorem setState_totalJobTries (c : Chain) (s : UInt8) :
    (c.setState s).totalJobTries = c.totalJobTries := rfl

@[simp] theorem setState_latestRunJobTries (c : Chain) (s : UInt8) :
    (c.setState s).latestRunJobTries = c.latestRunJobTries := rfl

@[simp] theorem incrementSequenceTries_jobChain (c : Chain) (jobId : String) (d : Int) :
    (c.incrementSequenceTries jobId d).jobChain = c.jobChain := rfl

@[simp] theorem incrementSequenceTries_totalJobTries (c : Chain) (jobId : String) (d : Int) :
    (c.incrementSequenceTries jobId d).totalJobTries = c.totalJobTries := rfl

@[simp] theorem incrementSequenceTries_latestRunJobTries (c : Chain) (jobId : String) (d : Int) :
    (c.incrementSequenceTries jobId d).latestRunJobTries = c.latestRunJobTries := rfl

@[simp] theorem incrementSequenceTries_sequenceTries (c : Chain) (jobId : String) (d : Int) :
    (c.incrementSequenceTries jobId d).sequenceTries
      = c.sequenceTries.insert c.jobChain.jobs[jobId].sequenceId
          (goUint (addInt (goInt c.sequenceTries[c.jobChain.jobs[jobId].sequenceId]) d)) := rfl

@[simp] theorem incrementJobTries_jobChain (c : Chain) (jobId : String) (d : Int) :
    (c.incrementJobTries jobId d).chain.jobChain = c.jobChain := by
  unfold incrementJobTries
  split <;> simp only [apply_ite Outcome.chain, Outcome.chain.eq_1, Outcome.chain.eq_2,
    apply_ite Chain.jobChain, ite_self]

@[simp] theorem incrementFinishedJobs_jobs (c : Chain) (d : Int) :
    (c.incrementFinishedJobs d).chain.jobChain.jobs = c.jobChain.jobs := by
  simp only [incrementFinishedJobs, apply_ite Outcome.chain, Outcome.chain.eq_1, Outcome.chain.eq_2,
    apply_ite Chain.jobChain, apply_ite JobChain.jobs, ite_self]

end Chain

end SpinCycle
