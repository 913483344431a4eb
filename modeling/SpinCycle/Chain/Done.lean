/-
`IsDoneRunning`, the completion oracle: its scan, and what its verdict
says about the chain.

# The scan

`doneScan` walks the jobs in one iteration order of the map and returns
`(false, false)` at the first job that still has work (`StopsScan`): one
`RUNNING`, one `PENDING` and runnable, one in `FAIL` or `UNKNOWN` whose
sequence can still retry. Every other job in a valid state moves the scan
on, clearing `complete` unless it is `COMPLETE`. So the verdict depends on
the set of jobs and not on their order (`doneScan_of_stops`,
`doneScan_of_not_stops`), and `isDoneRunning_correct` reads it off the
chain for every order the runtime may pick. A job in none of the six
states takes the `switch`'s default and panics; on a chain with no work
left no early return can skip it, so the panic comes in every order
(`isDoneRunning_invalid`).

# Done but incomplete

A chain is done and incomplete when work is left that cannot start. On an
acyclic graph that is never because pending jobs wait on one another:
descending from a pending job through predecessors that are not `COMPLETE`
ends, by well-founded induction over the finitely many jobs, at a
`STOPPED`, `FAIL` or `UNKNOWN` job (`blocked_ancestor`,
`done_incomplete_blocked`).
-/
import Mathlib.Data.Fintype.Card
import SpinCycle.Chain.Graph

namespace SpinCycle.Chain

variable (P : Proto) {c : Chain}

-- ============================================================= the scan

/-- A job at which `IsDoneRunning` returns `(false, false)` at once. -/
def StopsScan (c : Chain) (job : Job) : Prop :=
  job.state = P.state .running ∨
    (job.state = P.state .pending ∧ c.isRunnable P job.id = true) ∨
    ((job.state = P.state .fail ∨ job.state = P.state .unknown) ∧
      c.canRetrySequence job.id = true)

instance (c : Chain) (job : Job) : Decidable (c.StopsScan P job) :=
  inferInstanceAs (Decidable (_ ∨ _ ∨ _))

/-- On a job in a valid state the loop's body returns early exactly at a
job with work left, and otherwise clears `complete` unless the job is
`COMPLETE`. -/
theorem scanEntry_of_valid {job : Job} (hv : P.Valid job.state) (acc : Bool) :
    c.scanEntry P job acc =
      if c.StopsScan P job then .inl (.ok (false, false))
      else .inr (acc && job.state = P.state .complete) := by
  obtain ⟨n, hn⟩ := hv
  cases n <;> simp [scanEntry, StopsScan, ← hn]

/-- A job in none of the six states takes the `switch`'s default: the
panic naming its state. -/
theorem scanEntry_of_invalid {job : Job} (hv : ¬ P.Valid job.state) (acc : Bool) :
    c.scanEntry P job acc =
      .inl (.error ("IsDoneRunning: invalid job state: " ++ P.stateName job.state)) := by
  have hn : ∀ n, job.state ≠ P.state n := fun n h => hv ⟨n, h.symm⟩
  simp [scanEntry, hn]

/-- One turn of the loop on a job in a valid state: return `(false, false)`
at a job with work left, else move on, clearing `complete` unless the job
is `COMPLETE`. -/
theorem doneScan_cons {k : String} {job : Job} (hv : P.Valid job.state)
    (l : List (Σ _ : String, Job)) (acc : Bool) :
    c.doneScan P (⟨k, job⟩ :: l) acc =
      if c.StopsScan P job then .ok (false, false)
      else c.doneScan P l (acc && job.state = P.state .complete) := by
  rw [doneScan, scanEntry_of_valid P hv]
  split <;> rfl

/-- A list holding a job with work left ends the scan at `(false, false)`. -/
theorem doneScan_of_stops {l : List (Σ _ : String, Job)}
    (hv : ∀ e ∈ l, P.Valid e.2.state) (hs : ∃ e ∈ l, c.StopsScan P e.2) (acc : Bool) :
    c.doneScan P l acc = .ok (false, false) := by
  induction l generalizing acc with
  | nil => simp at hs
  | cons e l ih =>
      obtain ⟨k, job⟩ := e
      rw [doneScan_cons P (hv _ (List.mem_cons_self _ _))]
      split
      · rfl
      · next hj =>
        obtain ⟨e, he, hse⟩ := hs
        rcases List.mem_cons.1 he with rfl | he
        · exact absurd hse hj
        · exact ih (fun e he' => hv e (List.mem_cons_of_mem _ he')) ⟨e, he, hse⟩ _

/-- A list of jobs without work left runs to the end: `done`, and
`complete` as long as every job is `COMPLETE`. -/
theorem doneScan_of_not_stops {l : List (Σ _ : String, Job)}
    (hv : ∀ e ∈ l, P.Valid e.2.state) (hs : ∀ e ∈ l, ¬ c.StopsScan P e.2) (acc : Bool) :
    c.doneScan P l acc = .ok (true, acc && l.all fun e => e.2.state = P.state .complete) := by
  induction l generalizing acc with
  | nil => simp [doneScan]
  | cons e l ih =>
      obtain ⟨k, job⟩ := e
      rw [doneScan_cons P (hv _ (List.mem_cons_self _ _)), if_neg (hs _ (List.mem_cons_self _ _)),
        ih (fun e he => hv e (List.mem_cons_of_mem _ he))
          (fun e he => hs e (List.mem_cons_of_mem _ he))]
      simp [Bool.and_assoc]

-- ============================================================ the verdict

/-- What `IsDoneRunning` answers `done` to: no job is `RUNNING`, none is
runnable, and none in `FAIL` or `UNKNOWN` can still retry its sequence. -/
structure DoneSpec (c : Chain) : Prop where
  none_running : ∀ k ∈ c.jobChain.jobs, c.jobChain.jobs[k].state ≠ P.state .running
  none_runnable : ∀ k ∈ c.jobChain.jobs, c.isRunnable P k = false
  none_retryable : ∀ k ∈ c.jobChain.jobs,
    c.jobChain.jobs[k].state = P.state .fail ∨ c.jobChain.jobs[k].state = P.state .unknown →
      c.canRetrySequence k = false

instance (c : Chain) : Decidable (c.DoneSpec P) :=
  decidable_of_iff (_ ∧ _ ∧ _)
    ⟨fun h => ⟨h.1, h.2.1, h.2.2⟩, fun h => ⟨h.1, h.2, h.3⟩⟩

/-- Every job is `COMPLETE`. -/
def AllComplete (c : Chain) : Prop :=
  ∀ k ∈ c.jobChain.jobs, c.jobChain.jobs[k].state = P.state .complete

instance (c : Chain) : Decidable (c.AllComplete P) :=
  inferInstanceAs (Decidable (∀ k ∈ c.jobChain.jobs, _))

/-- `RunnableJobs` is empty exactly when `IsRunnable` holds of no job. -/
theorem runnableJobs_eq_nil_iff :
    c.runnableJobs P = [] ↔ ∀ k ∈ c.jobChain.jobs, c.isRunnable P k = false := by
  rw [runnableJobs, runnableScan, List.filterMap_eq_nil_iff,
    ← GoMap.forall_mem_entries (p := fun k _ => c.isRunnable P k = false)]
  refine forall₂_congr fun e _ => ?_
  split <;> simp_all

/-- With jobs stored under their ids, no entry stops the scan exactly when
the chain is done. -/
theorem doneSpec_iff (hk : c.jobChain.KeyedById) :
    c.DoneSpec P ↔ ∀ e ∈ c.jobChain.jobs.entries, ¬ c.StopsScan P e.2 := by
  rw [GoMap.forall_mem_entries (p := fun _ job => ¬ c.StopsScan P job)]
  refine ⟨fun ⟨hr, hn, hf⟩ k hkm => ?_,
    fun h => ⟨fun k hkm hs => h k hkm (.inl hs), fun k hkm => ?_, fun k hkm hs => ?_⟩⟩
  all_goals have hid := hk.id_eq (GoMap.lookup_eq_some_getElem hkm)
  · simp only [StopsScan, hid, hn k hkm, not_or, not_and]
    exact ⟨hr k hkm, fun _ => Bool.false_ne_true, fun h => Bool.eq_false_iff.1 (hf k hkm h)⟩
  · exact Bool.eq_false_iff.2 fun hr =>
      h k hkm (.inr (.inl ⟨((isRunnable_iff P).1 hr).1, by rwa [hid]⟩))
  · exact Bool.eq_false_iff.2 fun hr => h k hkm (.inr (.inr ⟨hs, by rwa [hid]⟩))

/-- A `COMPLETE` job stops no scan. -/
theorem not_stopsScan_of_complete {job : Job} (h : job.state = P.state .complete) :
    ¬ c.StopsScan P job := by
  simp [StopsScan, h]

variable {P} in
/-- A chain whose jobs are all `COMPLETE` is done. -/
theorem AllComplete.doneSpec (hk : c.jobChain.KeyedById) (hc : c.AllComplete P) :
    c.DoneSpec P :=
  (doneSpec_iff P hk).2 <| (GoMap.forall_mem_entries (p := fun _ job => ¬ c.StopsScan P job)).2
    fun k hk => not_stopsScan_of_complete P (hc k hk)

/-- The scan, in every iteration order of the jobs map of a chain whose
jobs are stored under their ids and are in valid states, answers whether
the chain is done and whether every job is `COMPLETE`: a chain with all
jobs `COMPLETE` has no work left, so the two answers never disagree. -/
theorem doneScan_eq_of_perm (hk : c.jobChain.KeyedById)
    (hv : ∀ k ∈ c.jobChain.jobs, P.Valid c.jobChain.jobs[k].state)
    {order : List (Σ _ : String, Job)} (hord : order.Perm c.jobChain.jobs.entries) :
    c.doneScan P order true = .ok (decide (c.DoneSpec P), decide (c.AllComplete P)) := by
  have hvo : ∀ e ∈ order, P.Valid e.2.state := fun e he =>
    (GoMap.forall_mem_entries (p := fun _ (job : Job) => P.Valid job.state)).2 hv e
      (hord.mem_iff.1 he)
  by_cases hs : ∃ e ∈ c.jobChain.jobs.entries, c.StopsScan P e.2
  · -- some job has work left: `(false, false)`
    obtain ⟨e, he, hse⟩ := hs
    have hnd : ¬ c.DoneSpec P := fun hd => (doneSpec_iff P hk).1 hd e he hse
    have hnc : ¬ c.AllComplete P := fun hc => hnd (hc.doneSpec hk)
    rw [doneScan_of_stops P hvo ⟨e, hord.mem_iff.2 he, hse⟩, decide_eq_false hnd,
      decide_eq_false hnc]
  · -- no job has work left: `done`, complete when every job is
    push_neg at hs
    rw [doneScan_of_not_stops P hvo (fun e he => hs e (hord.mem_iff.1 he)), Bool.true_and,
      decide_eq_true ((doneSpec_iff P hk).2 hs)]
    congr
    rw [Bool.eq_iff_iff, List.all_eq_true, decide_eq_true_iff, AllComplete,
      ← GoMap.forall_mem_entries (p := fun _ (job : Job) => job.state = P.state .complete)]
    simp [hord.mem_iff]

/-- `IsDoneRunning`, in every iteration order of the jobs map, on a chain
whose jobs are stored under their ids and are in valid states: it never
panics; `done` says that no job is running, none runnable (equivalently
`RunnableJobs` is empty) and no failed job's sequence can retry; and
`complete` says `done` and every job `COMPLETE`. So `(false, true)` never
comes back, and `(true, true)` exactly when all jobs are `COMPLETE`. -/
theorem isDoneRunning_correct (hk : c.jobChain.KeyedById)
    (hv : ∀ k ∈ c.jobChain.jobs, P.Valid c.jobChain.jobs[k].state) :
    ∃ done complete : Bool,
      c.isDoneRunning P = .ok (done, complete) ∧
      (∀ order : List (Σ _ : String, Job), order.Perm c.jobChain.jobs.entries →
        c.doneScan P order true = .ok (done, complete)) ∧
      (done = true ↔ c.DoneSpec P) ∧
      (c.runnableJobs P = [] ↔ ∀ k ∈ c.jobChain.jobs, c.isRunnable P k = false) ∧
      (complete = true ↔ done = true ∧ c.AllComplete P) ∧
      (done = true ∧ complete = true ↔ c.AllComplete P) := by
  exact ⟨_, _, doneScan_eq_of_perm P hk hv (.refl _), fun _ => doneScan_eq_of_perm P hk hv,
    decide_eq_true_iff, runnableJobs_eq_nil_iff P,
    by simpa using fun h => h.doneSpec hk, by simpa using fun h => h.doneSpec hk⟩

/-- The chain of `TestIsDoneSuspendedJobChain`: `job1 → job2, job3` and
`job2 → job4`, with `job2` stopped ahead of the pending `job4`. -/
def suspended : Chain :=
  testChain
    [("job1", testProto.state .complete), ("job2", testProto.state .stopped),
      ("job3", testProto.state .complete), ("job4", testProto.state .pending)]
    [("job1", ["job2", "job3"]), ("job2", ["job4"])]

theorem isDoneRunning_correct_suspended :
    suspended.jobChain.KeyedById ∧
      (∀ k ∈ suspended.jobChain.jobs, testProto.Valid suspended.jobChain.jobs[k].state) ∧
      ∃ done complete : Bool,
        suspended.isDoneRunning testProto = .ok (done, complete) ∧
        (∀ order : List (Σ _ : String, Job), order.Perm suspended.jobChain.jobs.entries →
          suspended.doneScan testProto order true = .ok (done, complete)) ∧
        (done = true ↔ suspended.DoneSpec testProto) ∧
        (suspended.runnableJobs testProto = [] ↔
          ∀ k ∈ suspended.jobChain.jobs, suspended.isRunnable testProto k = false) ∧
        (complete = true ↔ done = true ∧ suspended.AllComplete testProto) ∧
        (done = true ∧ complete = true ↔ suspended.AllComplete testProto) :=
  ⟨by decide, by decide, isDoneRunning_correct testProto (by decide) (by decide)⟩

-- ======================================================= invalid states

/-- The loop stops with the default's panic at a job in an invalid state. -/
theorem doneScan_cons_of_invalid {k : String} {job : Job} (hv : ¬ P.Valid job.state)
    (l : List (Σ _ : String, Job)) (acc : Bool) :
    c.doneScan P (⟨k, job⟩ :: l) acc =
      .error ("IsDoneRunning: invalid job state: " ++ P.stateName job.state) := by
  rw [doneScan, scanEntry_of_invalid P hv]
  rfl

/-- A scan that meets no job with work left panics at the first job in an
invalid state, if there is one. -/
theorem doneScan_of_invalid {l : List (Σ _ : String, Job)} (hs : ∀ e ∈ l, ¬ c.StopsScan P e.2)
    (hinv : ∃ e ∈ l, ¬ P.Valid e.2.state) (acc : Bool) :
    ∃ e ∈ l, ¬ P.Valid e.2.state ∧
      c.doneScan P l acc =
        .error ("IsDoneRunning: invalid job state: " ++ P.stateName e.2.state) := by
  induction l generalizing acc with
  | nil => simp at hinv
  | cons e l ih =>
      obtain ⟨k, job⟩ := e
      by_cases hv : P.Valid job.state
      · have hinv' : ∃ e ∈ l, ¬ P.Valid e.2.state := by
          obtain ⟨e, he, hne⟩ := hinv
          rcases List.mem_cons.1 he with rfl | he
          · exact absurd hv hne
          · exact ⟨e, he, hne⟩
        obtain ⟨e, he, hne, hscan⟩ := ih (fun e he => hs e (List.mem_cons_of_mem _ he)) hinv'
          (acc && job.state = P.state .complete)
        rw [doneScan_cons P hv, if_neg (hs _ (List.mem_cons_self _ _))]
        exact ⟨e, List.mem_cons_of_mem _ he, hne, hscan⟩
      · exact ⟨_, List.mem_cons_self _ _, hv, doneScan_cons_of_invalid P hv l acc⟩

/-- On a chain with no work left, one job in an invalid state makes
`IsDoneRunning` panic in every iteration order, naming the state of an
invalid job: only an early return, at a job with work left, skips it. -/
theorem isDoneRunning_invalid (hk : c.jobChain.KeyedById) (hd : c.DoneSpec P)
    (hinv : ∃ k ∈ c.jobChain.jobs, ¬ P.Valid c.jobChain.jobs[k].state) :
    ∀ order : List (Σ _ : String, Job), order.Perm c.jobChain.jobs.entries →
      ∃ k ∈ c.jobChain.jobs, ¬ P.Valid c.jobChain.jobs[k].state ∧
        c.doneScan P order true =
          .error ("IsDoneRunning: invalid job state: " ++ P.stateName c.jobChain.jobs[k].state) := by
  intro order hord
  have hs := (doneSpec_iff P hk).1 hd
  obtain ⟨e, he, hne⟩ :=
    (GoMap.exists_mem_entries (p := fun _ (job : Job) => ¬ P.Valid job.state)).2 hinv
  obtain ⟨e, he, hne, hscan⟩ :=
    doneScan_of_invalid P (fun e he => hs e (hord.subset he)) ⟨e, hord.symm.subset he, hne⟩ true
  have hl := GoMap.mem_entries.1 (hord.subset he)
  rw [← GoMap.getElem_of_lookup hl] at hne hscan
  exact ⟨e.1, AList.lookup_isSome.1 (by simp [hl]), hne, hscan⟩

/-- A lone job in byte `5`, which `testProto` gives no state. -/
def invalidChain : Chain := testChain [("job1", 5)] []

theorem isDoneRunning_invalid_lone :
    ∃ k ∈ invalidChain.jobChain.jobs, ¬ testProto.Valid invalidChain.jobChain.jobs[k].state ∧
      invalidChain.isDoneRunning testProto =
        .error ("IsDoneRunning: invalid job state: " ++ testProto.stateName invalidChain.jobChain.jobs[k].state) :=
  isDoneRunning_invalid testProto (by decide) ⟨by decide, by decide, by decide⟩
    ⟨"job1", by decide, by decide⟩
    _ (.refl _)

-- ================================================== done but incomplete

/-- The chain's graph, restricted to its jobs, has no cycle. -/
def Acyclic (c : Chain) : Prop := ∀ k, ¬ Relation.TransGen c.Edge k k

/-- A ranking of the jobs that every edge climbs proves the graph acyclic. -/
theorem acyclic_of_rank (r : String → Nat)
    (h : ∀ p ∈ c.jobChain.jobs.keys, ∀ k ∈ c.jobChain.adjacencyList[p], r p < r k) :
    c.Acyclic := by
  have hlt : ∀ {p k}, Relation.TransGen c.Edge p k → r p < r k := by
    intro p k hpk
    induction hpk with
    | single e => exact h _ (AList.mem_keys.1 e.1) _ e.2.2
    | tail _ e ih => exact ih.trans (h _ (AList.mem_keys.1 e.1) _ e.2.2)
  exact fun k hk => lt_irrefl _ (hlt hk)

/-- Every edge starts at a job of the chain. -/
theorem mem_of_transGen_edge {a k : String} (h : Relation.TransGen c.Edge a k) :
    a ∈ c.jobChain.jobs := by
  induction h with
  | single e => exact e.1
  | tail _ _ ih => exact ih

/-- On an acyclic graph, descent along edges between jobs is well founded. -/
theorem Acyclic.wellFounded (h : c.Acyclic) :
    WellFounded fun p k : {k // k ∈ c.jobChain.jobs} => Relation.TransGen c.Edge p.1 k.1 := by
  haveI : Finite {k // k ∈ c.jobChain.jobs} :=
    inferInstanceAs (Finite {k // k ∈ c.jobChain.jobs.keys})
  haveI : IsTrans {k // k ∈ c.jobChain.jobs} fun p k => Relation.TransGen c.Edge p.1 k.1 :=
    ⟨fun _ _ _ => .trans⟩
  haveI : IsIrrefl {k // k ∈ c.jobChain.jobs} fun p k => Relation.TransGen c.Edge p.1 k.1 :=
    ⟨fun k => h k.1⟩
  exact Finite.wellFounded_of_trans_of_irrefl _

/-- A job in a valid state that is neither `RUNNING` nor `COMPLETE` waits
(`PENDING`) or blocks (`STOPPED`, `FAIL`, `UNKNOWN`). -/
theorem state_cases {s : UInt8} (hv : P.Valid s) (hnr : s ≠ P.state .running)
    (hnc : s ≠ P.state .complete) :
    s = P.state .pending ∨ s = P.state .stopped ∨ s = P.state .fail ∨ s = P.state .unknown := by
  obtain ⟨n, rfl⟩ := hv
  cases n <;> simp_all

/-- With nothing running and nothing runnable, every pending job of an
acyclic chain descends from a `STOPPED`, `FAIL` or `UNKNOWN` job: a pending
job that cannot run has a predecessor that is not `COMPLETE`, and that
predecessor is either blocked itself or pending one step further up. -/
theorem blocked_ancestor (hac : c.Acyclic)
    (hv : ∀ k ∈ c.jobChain.jobs, P.Valid c.jobChain.jobs[k].state)
    (hnr : ∀ k ∈ c.jobChain.jobs, c.jobChain.jobs[k].state ≠ P.state .running)
    (hrun : ∀ k ∈ c.jobChain.jobs, c.isRunnable P k = false)
    {k : String} (hk : k ∈ c.jobChain.jobs) (hp : c.jobChain.jobs[k].state = P.state .pending) :
    ∃ a, Relation.TransGen c.Edge a k ∧
      (c.jobChain.jobs[a].state = P.state .stopped ∨ c.jobChain.jobs[a].state = P.state .fail ∨
        c.jobChain.jobs[a].state = P.state .unknown) := by
  refine hac.wellFounded.induction (C := fun x : {k // k ∈ c.jobChain.jobs} =>
    c.jobChain.jobs[x.1].state = P.state .pending → ∃ a, Relation.TransGen c.Edge a x.1 ∧
      (c.jobChain.jobs[a].state = P.state .stopped ∨ c.jobChain.jobs[a].state = P.state .fail ∨
        c.jobChain.jobs[a].state = P.state .unknown)) ⟨k, hk⟩ ?_ hp
  rintro ⟨k, hk⟩ ih hp
  -- pending but not runnable: some predecessor is not `COMPLETE`
  have hblocked : ¬ ∀ p ∈ c.jobChain.jobs, k ∈ c.jobChain.adjacencyList[p] →
      c.jobChain.jobs[p].state = P.state .complete := fun h => by
    simpa [hrun k hk] using (isRunnable_iff P).2 ⟨hp, h⟩
  push_neg at hblocked
  obtain ⟨p, hpj, hkp, hnc⟩ := hblocked
  have hedge : c.Edge p k := ⟨hpj, hk, hkp⟩
  rcases state_cases P (hv p hpj) (hnr p hpj) hnc with hpp | hbad
  · obtain ⟨a, ha, hbad⟩ := ih ⟨p, hpj⟩ (.single hedge) hpp
    exact ⟨a, ha.tail hedge, hbad⟩
  · exact ⟨p, .single hedge, hbad⟩

/-- `FailedJobs` counts the jobs in `FAIL` or `UNKNOWN`. -/
theorem failedJobs_pos_iff :
    0 < c.failedJobs P ↔ ∃ k ∈ c.jobChain.jobs,
      c.jobChain.jobs[k].state = P.state .fail ∨ c.jobChain.jobs[k].state = P.state .unknown := by
  rw [failedJobs, List.countP_pos_iff]
  simpa using GoMap.exists_mem_entries
    (p := fun _ (job : Job) => job.state = P.state .fail ∨ job.state = P.state .unknown)

/-- On an acyclic chain whose jobs are stored under their ids and are in
valid states, a `(true, false)` verdict means every pending job descends
from a `STOPPED`, `FAIL` or `UNKNOWN` job, so `FailedJobs` is positive or
some job is `STOPPED`; equivalently, while a job is pending and none is
running, stopped, failed or unknown, `RunnableJobs` is not empty. -/
theorem done_incomplete_blocked (hk : c.jobChain.KeyedById)
    (hv : ∀ k ∈ c.jobChain.jobs, P.Valid c.jobChain.jobs[k].state) (hac : c.Acyclic) :
    (c.isDoneRunning P = .ok (true, false) →
      (∀ k ∈ c.jobChain.jobs, c.jobChain.jobs[k].state = P.state .pending →
        ∃ a, Relation.TransGen c.Edge a k ∧
          (c.jobChain.jobs[a].state = P.state .stopped ∨
            c.jobChain.jobs[a].state = P.state .fail ∨
            c.jobChain.jobs[a].state = P.state .unknown)) ∧
      (0 < c.failedJobs P ∨ ∃ k ∈ c.jobChain.jobs, c.jobChain.jobs[k].state = P.state .stopped)) ∧
    ((∃ k ∈ c.jobChain.jobs, c.jobChain.jobs[k].state = P.state .pending) →
      (∀ k ∈ c.jobChain.jobs, c.jobChain.jobs[k].state ≠ P.state .running ∧
        c.jobChain.jobs[k].state ≠ P.state .stopped ∧ c.jobChain.jobs[k].state ≠ P.state .fail ∧
        c.jobChain.jobs[k].state ≠ P.state .unknown) →
      c.runnableJobs P ≠ []) := by
  refine ⟨fun h => ?_, fun ⟨k, hkm, hp⟩ hnone hempty => ?_⟩
  · rw [isDoneRunning, doneScan_eq_of_perm P hk hv (.refl _)] at h
    obtain ⟨hd, hnc⟩ : c.DoneSpec P ∧ ¬ c.AllComplete P := by simpa using h
    have hanc := fun (k : String) (hkm : k ∈ c.jobChain.jobs) =>
      blocked_ancestor P hac hv hd.none_running hd.none_runnable hkm
    refine ⟨hanc, ?_⟩
    -- some job is not `COMPLETE`, and it is blocked or below a blocked job
    obtain ⟨k, hkm, hk'⟩ : ∃ k ∈ c.jobChain.jobs,
        c.jobChain.jobs[k].state ≠ P.state .complete := by
      simpa [AllComplete] using hnc
    have hbad : ∀ a ∈ c.jobChain.jobs, (c.jobChain.jobs[a].state = P.state .stopped ∨
        c.jobChain.jobs[a].state = P.state .fail ∨
        c.jobChain.jobs[a].state = P.state .unknown) →
        0 < c.failedJobs P ∨ ∃ k ∈ c.jobChain.jobs,
          c.jobChain.jobs[k].state = P.state .stopped := by
      rintro a ha (hs | hf)
      · exact .inr ⟨a, ha, hs⟩
      · exact .inl ((failedJobs_pos_iff P).2 ⟨a, ha, hf⟩)
    rcases state_cases P (hv k hkm) (hd.none_running k hkm) hk' with hp | hb
    · obtain ⟨a, ha, hs⟩ := hanc k hkm hp
      exact hbad a (mem_of_transGen_edge ha) hs
    · exact hbad k hkm hb
  · -- a pending job with no runnable job would need a blocked ancestor
    obtain ⟨a, ha, hs⟩ := blocked_ancestor P hac hv (fun k hk => (hnone k hk).1)
      ((runnableJobs_eq_nil_iff P).1 hempty) hkm hp
    obtain ⟨-, h₁, h₂, h₃⟩ := hnone a (mem_of_transGen_edge ha)
    rcases hs with hs | hs | hs
    exacts [h₁ hs, h₂ hs, h₃ hs]

theorem suspended_acyclic : suspended.Acyclic :=
  acyclic_of_rank (fun k => if k = "job1" then 0 else if k = "job4" then 2 else 1) (by decide)

theorem done_incomplete_blocked_suspended :
    suspended.jobChain.KeyedById ∧
      (∀ k ∈ suspended.jobChain.jobs, testProto.Valid suspended.jobChain.jobs[k].state) ∧
      suspended.Acyclic ∧
      ((suspended.isDoneRunning testProto = .ok (true, false) →
        (∀ k ∈ suspended.jobChain.jobs,
          suspended.jobChain.jobs[k].state = testProto.state .pending →
          ∃ a, Relation.TransGen suspended.Edge a k ∧
            (suspended.jobChain.jobs[a].state = testProto.state .stopped ∨
              suspended.jobChain.jobs[a].state = testProto.state .fail ∨
              suspended.jobChain.jobs[a].state = testProto.state .unknown)) ∧
        (0 < suspended.failedJobs testProto ∨
          ∃ k ∈ suspended.jobChain.jobs,
            suspended.jobChain.jobs[k].state = testProto.state .stopped)) ∧
      ((∃ k ∈ suspended.jobChain.jobs,
          suspended.jobChain.jobs[k].state = testProto.state .pending) →
        (∀ k ∈ suspended.jobChain.jobs,
          suspended.jobChain.jobs[k].state ≠ testProto.state .running ∧
          suspended.jobChain.jobs[k].state ≠ testProto.state .stopped ∧
          suspended.jobChain.jobs[k].state ≠ testProto.state .fail ∧
          suspended.jobChain.jobs[k].state ≠ testProto.state .unknown) →
        suspended.runnableJobs testProto ≠ [])) :=
  ⟨by decide, by decide, suspended_acyclic,
    done_incomplete_blocked testProto (by decide) (by decide) suspended_acyclic⟩

end SpinCycle.Chain
