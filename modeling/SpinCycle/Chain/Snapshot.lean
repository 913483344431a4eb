/-
`IsDoneRunning` and the two-section readers, run while other goroutines
write.

# Readers

`CanRetrySequence` and `SequenceTries` read the job under `jobsMux`,
release it, and read the counter under `triesMux`; any sections of other
goroutines may run in between. No section changes what the first read
(`StatesOnly`), so each answers what it would answer run whole at its
second section (`sequenceReaders_linearizable`).

# The scan

`IsDoneRunning` holds `jobsMux` for reading through its loop, so no
`SetJobState` or `IncrementFinishedJobs` runs meanwhile
(`Task.locksJobs`); but each `canRetrySequence` takes `triesMux` on its
own, and between two of them other goroutines may move try counters.
`ScanRun` is the loop interleaved with those sections, with the chains
the run passes through. The jobs and the graph stay as they were. While
no sequence counter goes down, a job at which the loop moved on would
still move it on later (`Later.stopsScan`, `scanEntry_of_later`), so the
answer is the one the loop gives run whole on one of the chains the run
passed through (`isDoneRunning_linearizable`). A counter that goes down
breaks this: with one sequence's tries taken back while another's are
raised, the loop answers done while at every moment some failed job could
still retry its sequence (`isDoneRunning_rollback`).
-/
import SpinCycle.Chain.Done
import SpinCycle.Chain.Locks

namespace SpinCycle.Chain

variable {c c' : Chain}

-- ============================================================== readers

/-- `CanRetrySequence` with its two sections on the chains they met:
`SequenceStartJob` on `c₁`, the counter under `triesMux` on `c₂`. -/
def canRetrySequenceAcross (c₁ c₂ : Chain) (jobId : String) : Bool :=
  let sequenceStartJob := c₁.sequenceStartJob jobId
  c₂.sequenceTries[sequenceStartJob.id] ≤ sequenceStartJob.sequenceRetry

/-- `SequenceTries` with its two sections on the chains they met: the
sequence id on `c₁`, the counter on `c₂`. -/
def sequenceTriesAcross (c₁ c₂ : Chain) (jobId : String) : Nat :=
  let seqId := c₁.jobChain.jobs[jobId].sequenceId
  c₂.sequenceTries[seqId]

theorem Section.statesOnly {t : Task} {s s' : System} (h : Section t s s') :
    StatesOnly s.chain s'.chain := by
  obtain @⟨pre, post, cur, cur', next, hrun⟩ := h
  simpa [hrun, Outcome.chain] using Task.run_statesOnly cur t

theorem statesOnly_run {s s' : System} (h : Relation.ReflTransGen Step s s') :
    StatesOnly s.chain s'.chain := by
  induction h with
  | refl => exact .refl _
  | tail _ hstep ih =>
      obtain ⟨_, ht⟩ := hstep
      exact ih.trans ht.statesOnly

/-- `CanRetrySequence` and `SequenceTries` are linearizable: whatever the
other goroutines run between their two sections, each answers what it
answers run whole on the chain its second section meets. -/
theorem sequenceReaders_linearizable {s s' : System} (h : Relation.ReflTransGen Step s s')
    (jobId : String) :
    canRetrySequenceAcross s.chain s'.chain jobId = s'.chain.canRetrySequence jobId ∧
      sequenceTriesAcross s.chain s'.chain jobId = s'.chain.sequenceTriesOf jobId := by
  have hso := statesOnly_run h
  obtain ⟨hid, hretry⟩ := hso.sequenceStartJob jobId
  simp only [canRetrySequenceAcross, sequenceTriesAcross, canRetrySequence, sequenceTriesOf, hid,
    hretry, hso.sequenceId, and_self]

theorem sequenceReaders_linearizable_twoIncrements :
    canRetrySequenceAcross seqChain ((seqChain.addSequenceTries "job1" 1).addSequenceTries "job1" 1)
        "job2" =
      ((seqChain.addSequenceTries "job1" 1).addSequenceTries "job1" 1).canRetrySequence "job2" ∧
    sequenceTriesAcross seqChain ((seqChain.addSequenceTries "job1" 1).addSequenceTries "job1" 1)
        "job2" =
      ((seqChain.addSequenceTries "job1" 1).addSequenceTries "job1" 1).sequenceTriesOf "job2" :=
  sequenceReaders_linearizable twoIncrements_run "job2"

-- ============================================================= the scan

variable (P : Proto)

/-- `IsDoneRunning`'s loop, holding `jobsMux` for reading, interleaved
with the sections of other goroutines that do not write-lock it.
`ScanRun P l acc s tr r`: the loop on the jobs `l`, with `complete = acc`
and the system at `s`, returns `r`, the shared chain passing through `tr`
meanwhile, `s.chain` first. -/
inductive ScanRun : List (Σ _ : String, Job) → Bool → System → List Chain →
    Except String (Bool × Bool) → Prop
  | done {acc : Bool} {s : System} : ScanRun [] acc s [s.chain] (.ok (true, acc))
  | stop {k : String} {job : Job} {l : List (Σ _ : String, Job)} {acc : Bool} {s : System}
      {r : Except String (Bool × Bool)} :
      s.chain.scanEntry P job acc = .inl r → ScanRun (⟨k, job⟩ :: l) acc s [s.chain] r
  | next {k : String} {job : Job} {l : List (Σ _ : String, Job)} {acc acc' : Bool} {s : System}
      {tr : List Chain} {r : Except String (Bool × Bool)} :
      s.chain.scanEntry P job acc = .inr acc' → ScanRun l acc' s tr r →
        ScanRun (⟨k, job⟩ :: l) acc s tr r
  | other {t : Task} {l : List (Σ _ : String, Job)} {acc : Bool} {s s' : System}
      {tr : List Chain} {r : Except String (Bool × Bool)} :
      Section t s s' → t.locksJobs = false → ScanRun l acc s' tr r →
        ScanRun l acc s (s.chain :: tr) r

/-- The loop run with no other goroutine at work is `doneScan`. -/
theorem scanRun_doneScan (s : System) (l : List (Σ _ : String, Job)) (acc : Bool) :
    ScanRun P l acc s [s.chain] (s.chain.doneScan P l acc) := by
  induction l generalizing acc with
  | nil => exact .done
  | cons e l ih =>
      obtain ⟨k, job⟩ := e
      rw [doneScan]
      cases h : s.chain.scanEntry P job acc with
      | inl r => exact .stop h
      | inr a => exact .next h (ih a)

/-- A section that does not write-lock `jobsMux` leaves the jobs and the
graph as they were. -/
theorem Section.jobs_of_locksJobs {t : Task} {s s' : System} (h : Section t s s')
    (ht : t.locksJobs = false) :
    s'.chain.jobChain.jobs = s.chain.jobChain.jobs ∧
      s'.chain.jobChain.adjacencyList = s.chain.jobChain.adjacencyList := by
  obtain @⟨pre, post, cur, cur', next, hrun⟩ := h
  cases t with
  | addSequenceTries => cases (Prod.mk.inj hrun).1; exact ⟨rfl, rfl⟩
  | call op =>
      cases op with
      | setJobState | incrementFinishedJobs => cases ht
      | setState | incrementSequenceTries => cases (Prod.mk.inj hrun).1; exact ⟨rfl, rfl⟩
      | incrementJobTries jobId d =>
          have := incrementJobTries_jobChain cur jobId d
          have h₁ : cur.incrementJobTries jobId d = .ret cur' := (Prod.mk.inj hrun).1
          rw [h₁] at this
          exact ⟨congrArg JobChain.jobs this, congrArg JobChain.adjacencyList this⟩

theorem ScanRun.head {l : List (Σ _ : String, Job)} {acc : Bool} {s : System} {tr : List Chain}
    {r : Except String (Bool × Bool)} (h : ScanRun P l acc s tr r) :
    ∃ tr', tr = s.chain :: tr' := by
  induction h with
  | done | stop => exact ⟨[], rfl⟩
  | next _ _ ih => exact ih
  | other => exact ⟨_, rfl⟩

/-- No sequence counter is lower in `c'` than in `c`. -/
def TriesGrow (c c' : Chain) : Prop := ∀ k : String, c.sequenceTries[k] ≤ c'.sequenceTries[k]

/-- `c'` is `c` later in one scan: the same jobs and graph, and no
sequence counter lower. -/
structure Later (c c' : Chain) : Prop where
  jobs : c'.jobChain.jobs = c.jobChain.jobs
  adjacencyList : c'.jobChain.adjacencyList = c.jobChain.adjacencyList
  grow : TriesGrow c c'

theorem Later.refl (c : Chain) : Later c c := ⟨rfl, rfl, fun _ => le_rfl⟩

theorem Later.trans {c₁ c₂ c₃ : Chain} (h₁ : Later c₁ c₂) (h₂ : Later c₂ c₃) :
    Later c₁ c₃ :=
  ⟨h₂.jobs.trans h₁.jobs, h₂.adjacencyList.trans h₁.adjacencyList,
    fun k => (h₁.grow k).trans (h₂.grow k)⟩

variable {P}

/-- A job with work left later in the scan had work left before: whether
a job is runnable reads only jobs and graph, and a sequence that can retry
once its counter has grown could retry before. -/
theorem Later.stopsScan (h : Later c c') {job : Job} (hs : c'.StopsScan P job) :
    c.StopsScan P job := by
  have hr : c'.isRunnable P job.id = c.isRunnable P job.id := by
    simp only [isRunnable, previousJobs, h.jobs, h.adjacencyList]
  have hc : c'.canRetrySequence job.id = true → c.canRetrySequence job.id = true := by
    simp only [canRetrySequence, sequenceStartJob, h.jobs, decide_eq_true_eq]
    exact fun hle => le_trans (h.grow _) hle
  rw [StopsScan, hr] at hs
  exact hs.imp_right (Or.imp_right fun ⟨hf, hcr⟩ => ⟨hf, hc hcr⟩)

/-- A job at which the loop moves on moves it on later in the scan too. -/
theorem scanEntry_of_later (h : Later c c') {job : Job} {acc acc' : Bool}
    (he : c.scanEntry P job acc = .inr acc') : c'.scanEntry P job acc = .inr acc' := by
  have hv : P.Valid job.state := by
    by_contra hv
    rw [scanEntry_of_invalid P hv] at he
    cases he
  rw [scanEntry_of_valid P hv] at he ⊢
  split at he
  · cases he
  · rwa [if_neg (mt h.stopsScan ‹_›)]

/-- The invariant of an interleaved scan whose counters only grow: some
chain of the run, later than its first, gives the loop's answer run
whole. -/
theorem ScanRun.linearizable {l : List (Σ _ : String, Job)} {acc : Bool} {s : System}
    {tr : List Chain} {r : Except String (Bool × Bool)} (h : ScanRun P l acc s tr r)
    (hg : tr.Chain' TriesGrow) : ∃ c ∈ tr, Later s.chain c ∧ c.doneScan P l acc = r := by
  induction h with
  | done => exact ⟨_, List.mem_singleton_self _, .refl _, rfl⟩
  | stop he =>
      exact ⟨_, List.mem_singleton_self _, .refl _, by rw [doneScan, he]; rfl⟩
  | next he _ ih =>
      obtain ⟨c, hc, hl, hd⟩ := ih hg
      exact ⟨c, hc, hl, by rw [doneScan, scanEntry_of_later hl he]; exact hd⟩
  | other hsec ht hrun ih =>
      obtain ⟨tr', rfl⟩ := hrun.head
      obtain ⟨hgrow, hg'⟩ := List.chain'_cons.1 hg
      obtain ⟨c, hc, hl, hd⟩ := ih hg'
      have hj := hsec.jobs_of_locksJobs ht
      exact ⟨c, List.mem_cons_of_mem _ hc, (Later.mk hj.1 hj.2 hgrow).trans hl, hd⟩

/-- `IsDoneRunning` is linearizable while no sequence counter goes down:
run against any sections of other goroutines, its loop, over the jobs in
any order, answers what the loop answers run whole, in the same order, on
one of the chains the run passed through. -/
theorem isDoneRunning_linearizable {order : List (Σ _ : String, Job)} {s : System}
    {tr : List Chain} {r : Except String (Bool × Bool)} (h : ScanRun P order true s tr r)
    (hg : tr.Chain' TriesGrow) : ∃ c ∈ tr, c.doneScan P order true = r :=
  let ⟨c, hc, _, hd⟩ := h.linearizable hg
  ⟨c, hc, hd⟩

theorem triesGrow_addSequenceTries {seqId : String} {d : Int} (hd : 0 ≤ d)
    (hb : (c.sequenceTries[seqId] : Int) + d < 2 ^ 64) :
    TriesGrow c (c.addSequenceTries seqId d) := by
  intro k
  by_cases hk : k = seqId
  · subst hk
    simp only [addSequenceTries, GoMap.getElem_insert_self, goUint_addInt_goInt]
    have := goUint_of_lt (by omega) hb
    omega
  · simp [addSequenceTries, GoMap.getElem_insert_ne _ _ hk]

/-- Two failed jobs, each the start of its own sequence with
`SequenceRetry` 0: `job1`'s sequence was tried once and cannot retry,
`job2`'s was not tried yet and can. -/
def twoSequences : Chain where
  jobChain :=
    { requestId := "test"
      jobs := [(⟨"job1", ⟨"job1", 4, "job1", 0, none⟩⟩ : Σ _ : String, Job),
        ⟨"job2", ⟨"job2", 4, "job2", 0, none⟩⟩].toAList
      adjacencyList := ∅
      finishedJobs := 0
      state := 0 }
  sequenceTries := (∅ : GoMap Nat).insert "job1" 1
  latestRunJobTries := ∅
  totalJobTries := ∅

/-- The loop passes `job1`; a goroutine raises the tries of `job2`'s
sequence; the loop passes `job2`. -/
theorem twoSequences_raise_run :
    ScanRun testProto twoSequences.jobChain.jobs.entries true
      ⟨twoSequences, [.call (.incrementSequenceTries "job2" 1)]⟩
      [twoSequences, twoSequences, twoSequences.addSequenceTries "job2" 1] (.ok (true, false)) :=
  .next rfl <| .other (.run [] [] rfl) rfl <| .other (.run [] [] rfl) rfl <| .next rfl .done

theorem isDoneRunning_linearizable_raise :
    ∃ c ∈ [twoSequences, twoSequences, twoSequences.addSequenceTries "job2" 1],
      c.doneScan testProto twoSequences.jobChain.jobs.entries true = .ok (true, false) :=
  isDoneRunning_linearizable twoSequences_raise_run
    (List.chain'_cons.2 ⟨fun _ => le_rfl,
      List.chain'_pair.2 (triesGrow_addSequenceTries (by decide) (by decide))⟩)

/-- With a decrement the loop is not linearizable: while the loop passes
`job1` and then `job2`, one goroutine takes back a try of `job1`'s
sequence and another raises `job2`'s. The loop answers done, while at
every chain the run passed through a failed job could still retry its
sequence and `IsDoneRunning` run whole answers not done. -/
theorem isDoneRunning_rollback :
    ∃ tr, ScanRun testProto twoSequences.jobChain.jobs.entries true
        ⟨twoSequences, [.call (.incrementSequenceTries "job1" (-1)),
          .call (.incrementSequenceTries "job2" 1)]⟩ tr (.ok (true, false)) ∧
      ∀ c ∈ tr, c.isDoneRunning testProto = .ok (false, false) :=
  ⟨_, .next rfl <| .other (.run [] [_] rfl) rfl <| .other (.run [] [_] rfl) rfl <|
      .other (.run [] [] rfl) rfl <| .other (.run [] [] rfl) rfl <| .next rfl .done,
    by
      simp only [List.forall_mem_cons, List.forall_mem_nil]
      exact ⟨rfl, rfl, rfl, rfl, rfl, nofun⟩⟩

end SpinCycle.Chain
