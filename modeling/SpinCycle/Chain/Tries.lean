/-
The chain's counters: `FinishedJobs` and the three try maps, moved by
`IncrementFinishedJobs`, `IncrementJobTries` and `IncrementSequenceTries`
in Go's 64-bit `int` arithmetic.

# Exact below `2^63`

Each call converts the stored `uint` to `int`, adds the `int` delta and
converts back. Below `2^63` nothing wraps: the first two calls panic
exactly when the sum is negative, before writing anything, and otherwise
store the sum (`incrementFinishedJobs_of_neg`, `..._of_nonneg`,
`incrementJobTries_of_neg`, `..._of_nonneg`; together
`increment_counters_exact`). The panic of `IncrementJobTries` leaves
`triesMux` locked, its `Unlock` not being deferred; the maps are as they
were. At `2^63` the conversion reads a counter as negative, so a call
that exact arithmetic accepts panics (`increment_counters_inexact`).

`IncrementSequenceTries` stores the sum modulo `2^64` whatever its sign
(`incrementSequenceTries_eq`): it lacks the check of its two siblings,
so where they panic on a negative sum it stores a count near `2^64`, and
the sequence can no longer retry (`incrementSequenceTries_wraps`).

# Runs

`sequenceTries_run`: along a run of non-negative sequence increments each
sequence's counter is its start value plus the increments made through
its jobs, and `CanRetrySequence` compares that with the start job's
`SequenceRetry`. It reads the counter at the start job's `Id` where the
increments write at the job's `SequenceId`: the two meet when the
`SequenceId` names a job. `jobTries_run`: along a run of calls
with counts below `2^63`, latest-run tries never pass total tries, and
total tries never drop.
-/
import SpinCycle.Chain.Basic

namespace SpinCycle.Chain

variable {c : Chain}

theorem goInt_lt_two_pow_63 (u : Nat) : goInt u < 2 ^ 63 := by
  unfold goInt
  split <;> omega

-- ========================================================== FinishedJobs

/-- A returning `IncrementFinishedJobs` leaves the try maps alone. -/
theorem incrementFinishedJobs_ret_tries {d : Int} {c' : Chain}
    (h : c.incrementFinishedJobs d = .ret c') :
    c'.sequenceTries = c.sequenceTries ∧ c'.latestRunJobTries = c.latestRunJobTries ∧
      c'.totalJobTries = c.totalJobTries := by
  simp only [incrementFinishedJobs] at h
  split at h <;> cases h
  exact ⟨rfl, rfl, rfl⟩

-- ============================================================= JobTries

theorem incrementJobTries_of_nonneg {jobId : String} {d : Int}
    (hl : c.latestRunJobTries[jobId] < 2 ^ 63) (ht : c.totalJobTries[jobId] < 2 ^ 63)
    (h0 : 0 ≤ (c.latestRunJobTries[jobId] : Int) + d)
    (h : (c.latestRunJobTries[jobId] : Int) + d < 2 ^ 63) :
    c.incrementJobTries jobId d = .ret { c with
      totalJobTries := if 0 < d then
          c.totalJobTries.insert jobId (c.totalJobTries[jobId] + d.toNat)
        else c.totalJobTries
      latestRunJobTries :=
        c.latestRunJobTries.insert jobId ((c.latestRunJobTries[jobId] : Int) + d).toNat } := by
  have hlat : goUint ((c.latestRunJobTries[jobId] : Int) + d)
      = ((c.latestRunJobTries[jobId] : Int) + d).toNat := by
    unfold goUint; omega
  by_cases hpos : 0 < d
  · have htot : addUint c.totalJobTries[jobId] (goUint d) = c.totalJobTries[jobId] + d.toNat := by
      unfold addUint goUint; omega
    simp only [incrementJobTries, gt_iff_lt, hpos, if_true, GoMap.getElem_insert_self]
    rw [goInt_of_lt hl, addInt_of_lt (by omega) h, if_neg (by omega), hlat, htot]
  · simp only [incrementJobTries, gt_iff_lt, hpos, if_false]
    rw [goInt_of_lt hl, addInt_of_lt (by omega) h, if_neg (by omega), hlat]

/-- A returning `IncrementJobTries` on counters below `2^63` met a sum in
range, and so wrote it exactly. -/
theorem incrementJobTries_ret {jobId : String} {d : Int} {c' : Chain}
    (hl : c.latestRunJobTries[jobId] < 2 ^ 63) (hd : IsGoInt d)
    (h : c.incrementJobTries jobId d = .ret c') :
    0 ≤ (c.latestRunJobTries[jobId] : Int) + d ∧
      (c.latestRunJobTries[jobId] : Int) + d < 2 ^ 63 := by
  -- a sum read as non-negative did not wrap, so it is the exact sum, below `2^63`
  have key : ¬ addInt (c.latestRunJobTries[jobId] : Int) d < 0 →
      0 ≤ (c.latestRunJobTries[jobId] : Int) + d ∧
        (c.latestRunJobTries[jobId] : Int) + d < 2 ^ 63 := fun hn => by
    have he : addInt (c.latestRunJobTries[jobId] : Int) d = c.latestRunJobTries[jobId] + d :=
      addInt_eq_of_nonneg (by omega) (by omega) hd (by omega)
    have hlt := goInt_lt_two_pow_63 (goUint ((c.latestRunJobTries[jobId] : Int) + d))
    unfold addInt at he hn
    omega
  by_cases hpos : d > 0 <;>
    simp only [incrementJobTries, hpos, if_true, if_false, goInt_of_lt hl] at h <;>
    split at h <;>
    first | exact key ‹_› | cases h

-- ======================================================== SequenceTries

/-- `IncrementSequenceTries` stores `uint(cur + delta)`, the sum modulo
`2^64`, whatever its sign: it has no check to panic on. -/
theorem incrementSequenceTries_eq (c : Chain) (jobId : String) (d : Int) :
    c.incrementSequenceTries jobId d = { c with
      sequenceTries := c.sequenceTries.insert c.jobChain.jobs[jobId].sequenceId
        (goUint (c.sequenceTries[c.jobChain.jobs[jobId].sequenceId] + d)) } := by
  simp only [incrementSequenceTries, goUint_addInt_goInt]

theorem getElem_incrementSequenceTries (c : Chain) (jobId s : String) (d : Int) :
    (c.incrementSequenceTries jobId d).sequenceTries[s] =
      if c.jobChain.jobs[jobId].sequenceId = s then goUint (c.sequenceTries[s] + d)
      else c.sequenceTries[s] := by
  rw [incrementSequenceTries_eq]
  split
  · subst s; simp
  · simp [GoMap.getElem_insert_ne _ _ (Ne.symm ‹_›)]

-- ====================================================== exact arithmetic

/-- `IncrementSequenceTries` lacks the check its two siblings make: on the
sum `0 + -1`, where `IncrementFinishedJobs` and `IncrementJobTries` panic
("shouldn't happen"), it stores `uint(-1) = 2^64 - 1` and returns, and
`job1`'s sequence, which could retry, no longer can. -/
theorem incrementSequenceTries_wraps :
    (∃ msg, (testChain [("job1", 3)] []).incrementFinishedJobs (-1)
      = .panic msg (testChain [("job1", 3)] [])) ∧
    (∃ msg, (testChain [("job1", 3)] []).incrementJobTries "job1" (-1)
      = .panic msg (testChain [("job1", 3)] [])) ∧
    ((testChain [("job1", 3)] []).incrementSequenceTries "job1" (-1)).sequenceTriesOf "job1"
      = 2 ^ 64 - 1 ∧
    (testChain [("job1", 3)] []).canRetrySequence "job1" = true ∧
    ((testChain [("job1", 3)] []).incrementSequenceTries "job1" (-1)).canRetrySequence "job1"
      = false :=
  ⟨⟨_, rfl⟩, ⟨_, rfl⟩, rfl, rfl, rfl⟩

-- ======================================================== sequence runs

/-- A run of `IncrementSequenceTries` calls, `(jobId, delta)` each, in order. -/
def runSeq (c : Chain) (calls : List (String × Int)) : Chain :=
  calls.foldl (fun c call => c.incrementSequenceTries call.1 call.2) c

/-- The deltas of the calls made through jobs of sequence `s`, summed. -/
def seqDelta (jobs : GoMap Job) : List (String × Int) → String → Int
  | [], _ => 0
  | (j, d) :: calls, s => (if jobs[j].sequenceId = s then d else 0) + seqDelta jobs calls s

@[simp] theorem runSeq_nil (c : Chain) : c.runSeq [] = c := rfl

@[simp] theorem runSeq_cons (c : Chain) (j : String) (d : Int) (calls : List (String × Int)) :
    c.runSeq ((j, d) :: calls) = (c.incrementSequenceTries j d).runSeq calls := rfl

theorem runSeq_append (c : Chain) (l₁ l₂ : List (String × Int)) :
    c.runSeq (l₁ ++ l₂) = (c.runSeq l₁).runSeq l₂ :=
  List.foldl_append _ _ _ _

@[simp] theorem runSeq_jobChain (c : Chain) (calls : List (String × Int)) :
    (c.runSeq calls).jobChain = c.jobChain := by
  induction calls generalizing c with
  | nil => rfl
  | cons call calls ih => exact ih _

@[simp] theorem seqDelta_cons (jobs : GoMap Job) (j : String) (d : Int)
    (calls : List (String × Int)) (s : String) :
    seqDelta jobs ((j, d) :: calls) s
      = (if jobs[j].sequenceId = s then d else 0) + seqDelta jobs calls s := rfl

theorem seqDelta_append (jobs : GoMap Job) (l₁ l₂ : List (String × Int)) (s : String) :
    seqDelta jobs (l₁ ++ l₂) s = seqDelta jobs l₁ s + seqDelta jobs l₂ s := by
  induction l₁ with
  | nil => simp [seqDelta]
  | cons call l₁ ih => rw [List.cons_append, seqDelta_cons, seqDelta_cons, ih]; omega

theorem seqDelta_nonneg (jobs : GoMap Job) {calls : List (String × Int)}
    (hd : ∀ call ∈ calls, 0 ≤ call.2) (s : String) : 0 ≤ seqDelta jobs calls s := by
  induction calls with
  | nil => simp [seqDelta]
  | cons call calls ih =>
      have h₁ := hd call (List.mem_cons_self _ _)
      have h₂ := ih fun call h => hd call (List.mem_cons_of_mem _ h)
      rw [seqDelta_cons]
      split <;> omega

theorem seqDelta_replicate (jobs : GoMap Job) (x : String) (n : Nat) (s : String) :
    seqDelta jobs (List.replicate n (x, 1)) s =
      if jobs[x].sequenceId = s then (n : Int) else 0 := by
  induction n with
  | zero => simp [seqDelta]
  | succ n ih => rw [List.replicate_succ, seqDelta_cons, ih]; split <;> omega

/-- Along a run of non-negative increments whose sum stays below `2^64`,
the counter of sequence `s` is its start value plus the increments made
through jobs of `s`. -/
theorem runSeq_sequenceTries (c : Chain) {calls : List (String × Int)}
    (hd : ∀ call ∈ calls, 0 ≤ call.2) {s : String}
    (hb : (c.sequenceTries[s] : Int) + seqDelta c.jobChain.jobs calls s < 2 ^ 64) :
    ((c.runSeq calls).sequenceTries[s] : Int) =
      c.sequenceTries[s] + seqDelta c.jobChain.jobs calls s := by
  induction calls generalizing c with
  | nil => simp [seqDelta]
  | cons call calls ih =>
      obtain ⟨j, d⟩ := call
      have hd₀ : 0 ≤ d := hd _ (List.mem_cons_self _ _)
      have hd' : ∀ call ∈ calls, 0 ≤ call.2 :=
        fun call h => hd call (List.mem_cons_of_mem _ h)
      have hrest := seqDelta_nonneg c.jobChain.jobs hd' s
      rw [seqDelta_cons] at hb ⊢
      -- the first call moves the counter of `s` exactly, or leaves it
      have hstep : ((c.incrementSequenceTries j d).sequenceTries[s] : Int)
          = c.sequenceTries[s] + if c.jobChain.jobs[j].sequenceId = s then d else 0 := by
        rw [getElem_incrementSequenceTries]
        split
        · rw [if_pos ‹_›] at hb; exact goUint_of_lt (by omega) (by omega)
        · simp
      rw [runSeq_cons, ih _ hd' (by rw [hstep, incrementSequenceTries_jobChain]; omega), hstep,
        incrementSequenceTries_jobChain]
      omega

/-- A run changes no job, so no start job. -/
@[simp] theorem sequenceStartJob_runSeq (c : Chain) (calls : List (String × Int)) (x : String) :
    (c.runSeq calls).sequenceStartJob x = c.sequenceStartJob x := by
  simp [sequenceStartJob]

/-- `runSeq_sequenceTries` at the counter `SequenceTries x` reads. -/
theorem sequenceTriesOf_runSeq (c : Chain) (calls : List (String × Int))
    (hd : ∀ call ∈ calls, 0 ≤ call.2) (x : String)
    (hb : (c.sequenceTriesOf x : Int) + seqDelta c.jobChain.jobs calls c.jobChain.jobs[x].sequenceId <
      2 ^ 64) :
    ((c.runSeq calls).sequenceTriesOf x : Int) =
      c.sequenceTriesOf x + seqDelta c.jobChain.jobs calls c.jobChain.jobs[x].sequenceId := by
  simpa [sequenceTriesOf] using runSeq_sequenceTries c hd hb

section sequences

variable {c : Chain} (hk : c.jobChain.KeyedById) (hs : c.jobChain.SequenceIdsPresent)
  {x : String} (hx : x ∈ c.jobChain.jobs)
include hk hs hx

/-- The counter `CanRetrySequence` reads, keyed by the start job's `Id`, is
the one `IncrementSequenceTries` writes, keyed by the job's `SequenceId`. -/
theorem sequenceStartJob_id : (c.sequenceStartJob x).id = c.jobChain.jobs[x].sequenceId :=
  hk.id_eq (GoMap.lookup_eq_some_getElem (hs x hx))

theorem canRetrySequence_iff :
    c.canRetrySequence x = true ↔ c.sequenceTriesOf x ≤ (c.sequenceStartJob x).sequenceRetry := by
  simp [canRetrySequence, sequenceTriesOf, sequenceStartJob_id hk hs hx]

/-- A call through a job of another sequence leaves `CanRetrySequence` alone. -/
theorem canRetrySequence_incrementSequenceTries_of_ne {j : String} (d : Int)
    (hne : c.jobChain.jobs[j].sequenceId ≠ c.jobChain.jobs[x].sequenceId) :
    (c.incrementSequenceTries j d).canRetrySequence x = c.canRetrySequence x := by
  have hid := sequenceStartJob_id hk hs hx
  simp only [canRetrySequence, sequenceStartJob, incrementSequenceTries_jobChain] at hid ⊢
  simp only [hid, getElem_incrementSequenceTries, if_neg hne]

/-- Along every run of non-negative `IncrementSequenceTries` calls that
keeps the counter of `x`'s sequence below `2^64`: the counter is its start
value plus the deltas of the calls through jobs of that sequence;
`CanRetrySequence` (and `canRetrySequence`, the same function) compares it
with the start job's `SequenceRetry`; once false it stays false; calls
through other sequences leave it alone; and from `0`, `n` attempts leave it
true exactly when `n ≤ SequenceRetry`, so the sequence runs `r + 1` times. -/
theorem sequenceTries_run (calls : List (String × Int)) (hd : ∀ call ∈ calls, 0 ≤ call.2)
    (hb : (c.sequenceTriesOf x : Int) + seqDelta c.jobChain.jobs calls c.jobChain.jobs[x].sequenceId
      < 2 ^ 64) :
    ((c.runSeq calls).sequenceTriesOf x : Int)
        = c.sequenceTriesOf x + seqDelta c.jobChain.jobs calls c.jobChain.jobs[x].sequenceId ∧
    ((c.runSeq calls).canRetrySequence x = true ↔
        (c.runSeq calls).sequenceTriesOf x ≤ ((c.runSeq calls).sequenceStartJob x).sequenceRetry) ∧
    (∀ pre post, calls = pre ++ post → (c.runSeq pre).canRetrySequence x = false →
        (c.runSeq calls).canRetrySequence x = false) ∧
    (∀ pre j d post, calls = pre ++ (j, d) :: post →
        c.jobChain.jobs[j].sequenceId ≠ c.jobChain.jobs[x].sequenceId →
        (c.runSeq (pre ++ [(j, d)])).canRetrySequence x = (c.runSeq pre).canRetrySequence x) ∧
    (c.sequenceTriesOf x = 0 → ∀ n < 2 ^ 64,
        ((c.runSeq (List.replicate n (x, 1))).canRetrySequence x = true ↔
          n ≤ (c.sequenceStartJob x).sequenceRetry)) := by
  -- every state of a run has the start chain's jobs
  have hrun : ∀ l, (c.runSeq l).jobChain.KeyedById ∧
      (c.runSeq l).jobChain.SequenceIdsPresent ∧ x ∈ (c.runSeq l).jobChain.jobs :=
    fun l => by rw [runSeq_jobChain]; exact ⟨hk, hs, hx⟩
  have hretry : ∀ l, ((c.runSeq l).canRetrySequence x = true ↔
      (c.runSeq l).sequenceTriesOf x ≤ (c.sequenceStartJob x).sequenceRetry) := fun l => by
    rw [canRetrySequence_iff (hrun l).1 (hrun l).2.1 (hrun l).2.2, sequenceStartJob_runSeq]
  refine ⟨sequenceTriesOf_runSeq c calls hd x hb,
    canRetrySequence_iff (hrun calls).1 (hrun calls).2.1 (hrun calls).2.2, ?_, ?_, ?_⟩
  · rintro pre post rfl hf
    have hd₁ : ∀ call ∈ pre, 0 ≤ call.2 := fun call h => hd call (List.mem_append_left _ h)
    have hpost := seqDelta_nonneg c.jobChain.jobs
      (fun call h => hd call (List.mem_append_right _ h)) c.jobChain.jobs[x].sequenceId
    rw [seqDelta_append] at hb
    have h₁ := sequenceTriesOf_runSeq c pre hd₁ x (by omega)
    have h₂ := sequenceTriesOf_runSeq c _ hd x (by rw [seqDelta_append]; omega)
    rw [seqDelta_append] at h₂
    rw [Bool.eq_false_iff, Ne, hretry] at hf ⊢
    omega
  · rintro pre j d post rfl hne
    rw [runSeq_append, runSeq_cons, runSeq_nil]
    exact canRetrySequence_incrementSequenceTries_of_ne (hrun pre).1 (hrun pre).2.1 (hrun pre).2.2 d
      (by simpa using hne)
  · intro h0 n hn
    have h := sequenceTriesOf_runSeq c (List.replicate n (x, 1))
      (fun call h => by simp [List.eq_of_mem_replicate h]) x
      (by rw [seqDelta_replicate, if_pos rfl]; omega)
    rw [seqDelta_replicate, if_pos rfl, h0] at h
    rw [hretry]
    omega

end sequences

/-- Two jobs of `job1`'s sequence, whose start job allows no retry. -/
def seqChain : Chain := testChain [("job1", 3), ("job2", 4)] [("job1", ["job2"])]

/-- Starting `job1`'s sequence and retrying it through `job2` counts two
tries, and the sequence (`SequenceRetry` `0`) cannot run again. -/
theorem sequenceTries_run_twoCalls :
    ((seqChain.runSeq [("job1", 1), ("job2", 1)]).sequenceTriesOf "job2" : Int) = 2 ∧
    (seqChain.runSeq [("job1", 1), ("job2", 1)]).canRetrySequence "job2" = false :=
  have h := sequenceTries_run (c := seqChain) (by decide) (by decide) (x := "job2") (by decide)
    [("job1", 1), ("job2", 1)] (by decide) (by decide)
  ⟨h.1.trans (by decide), Bool.eq_false_iff.2 fun ht => absurd (h.2.1.1 ht) (by decide)⟩

-- ========================================================= job-tries runs

/-- The deltas an `Op` carries are Go `int`s. -/
def Op.GoInts : Op → Prop
  | .incrementJobTries _ d | .incrementSequenceTries _ d | .incrementFinishedJobs d => IsGoInt d
  | .setJobState .. | .setState _ => True

/-- Every job's total tries are below `2^63`. -/
def TotalTriesBelow (c : Chain) : Prop := ∀ j : String, c.totalJobTries[j] < 2 ^ 63

/-- One call that returns, with Go `int` deltas, on a chain whose totals
are below `2^63`. The queries write nothing and are not steps. -/
def TriesStep (c c' : Chain) : Prop :=
  c.TotalTriesBelow ∧ ∃ op : Op, op.GoInts ∧ c.exec op = .ret c'

/-- The invariant of the job-tries maps: `JobTries` never reports more
latest-run tries than total tries. -/
def TriesInv (c : Chain) : Prop := ∀ j, (c.jobTries j).1 ≤ (c.jobTries j).2

/-- What a returning call can do to the job-tries maps: it is an
`IncrementJobTries`, or it leaves both maps as they were. -/
theorem exec_ret_tries_cases {op : Op} {c' : Chain} (h : c.exec op = .ret c') :
    (∃ j d, op = .incrementJobTries j d ∧ c.incrementJobTries j d = .ret c') ∨
      (c'.latestRunJobTries = c.latestRunJobTries ∧ c'.totalJobTries = c.totalJobTries) := by
  cases op with
  | incrementJobTries j d => exact .inl ⟨j, d, rfl, h⟩
  | incrementFinishedJobs d =>
      have := incrementFinishedJobs_ret_tries h
      exact .inr ⟨this.2.1, this.2.2⟩
  | setJobState | setState | incrementSequenceTries =>
      cases h
      exact .inr ⟨rfl, rfl⟩

/-- A returning `IncrementJobTries` keeps the invariant and grows totals. -/
theorem triesInv_incrementJobTries {j : String} {d : Int} {c' : Chain} (hd : IsGoInt d)
    (hb : c.TotalTriesBelow) (hi : c.TriesInv) (h : c.incrementJobTries j d = .ret c') :
    c'.TriesInv ∧ ∀ k : String, c.totalJobTries[k] ≤ c'.totalJobTries[k] := by
  have hj := hi j
  simp only [jobTries] at hj
  have hl : c.latestRunJobTries[j] < 2 ^ 63 := lt_of_le_of_lt hj (hb j)
  obtain ⟨h0, hlt⟩ := incrementJobTries_ret hl hd h
  rw [incrementJobTries_of_nonneg hl (hb j) h0 hlt, Outcome.ret.injEq] at h
  subst h
  constructor
  · intro k
    have hk := hi k
    simp only [jobTries] at hk ⊢
    by_cases hkj : k = j
    · subst hkj; split <;> simp <;> omega
    · split <;> simp [GoMap.getElem_insert_ne _ _ hkj, hk]
  · intro k
    by_cases hkj : k = j
    · subst hkj; split <;> simp
    · split <;> simp [GoMap.getElem_insert_ne _ _ hkj]

/-- One step keeps the invariant and grows every total. -/
theorem triesInv_step {c' : Chain} (hi : c.TriesInv) (h : TriesStep c c') :
    c'.TriesInv ∧ ∀ k : String, c.totalJobTries[k] ≤ c'.totalJobTries[k] := by
  obtain ⟨hb, op, hop, hex⟩ := h
  rcases exec_ret_tries_cases hex with ⟨j, d, rfl, hj⟩ | ⟨hl, ht⟩
  · exact triesInv_incrementJobTries hop hb hi hj
  · refine ⟨fun k => ?_, fun k => ?_⟩
    · simpa only [TriesInv, jobTries, hl, ht] using hi k
    · rw [ht]

/-- Every run keeps the invariant and grows every total. -/
theorem triesInv_run {c' : Chain} (hi : c.TriesInv) (h : Relation.ReflTransGen TriesStep c c') :
    c'.TriesInv ∧ ∀ k : String, c.totalJobTries[k] ≤ c'.totalJobTries[k] := by
  induction h with
  | refl => exact ⟨hi, fun _ => le_rfl⟩
  | tail _ hstep ih =>
      have := triesInv_step ih.1 hstep
      exact ⟨this.1, fun k => (ih.2 k).trans (this.2 k)⟩

/-- From `NewChain` on try maps with latest-run tries at most total tries,
every run of returning calls with counts below `2^63` keeps latest-run
tries at most total tries, and no total ever drops. -/
theorem jobTries_run (jc : JobChain) (sequenceTries totalJobTries latestRunJobTries : GoMap Nat)
    (h0 : ∀ j : String, latestRunJobTries[j] ≤ totalJobTries[j]) :
    (∀ c, Relation.ReflTransGen TriesStep (newChain jc sequenceTries totalJobTries latestRunJobTries) c →
        ∀ j, (c.jobTries j).1 ≤ (c.jobTries j).2) ∧
    (∀ c c', Relation.ReflTransGen TriesStep (newChain jc sequenceTries totalJobTries latestRunJobTries) c →
        Relation.ReflTransGen TriesStep c c' → ∀ j, (c.jobTries j).2 ≤ (c'.jobTries j).2) :=
  have hinit : (newChain jc sequenceTries totalJobTries latestRunJobTries).TriesInv := h0
  ⟨fun _ hr => (triesInv_run hinit hr).1,
    fun _ _ hr hr' => (triesInv_run (triesInv_run hinit hr).1 hr').2⟩

/-- A job tried twice, once in the latest run. -/
theorem jobTries_run_retried :
    (∀ j : String, ((∅ : GoMap Nat).insert "job1" 1)[j] ≤ ((∅ : GoMap Nat).insert "job1" 2)[j]) ∧
    ∀ c, Relation.ReflTransGen TriesStep
        (newChain seqChain.jobChain ∅ ((∅ : GoMap Nat).insert "job1" 2) ((∅ : GoMap Nat).insert "job1" 1)) c →
      ∀ j, (c.jobTries j).1 ≤ (c.jobTries j).2 :=
  have h0 : ∀ j : String,
      ((∅ : GoMap Nat).insert "job1" 1)[j] ≤ ((∅ : GoMap Nat).insert "job1" 2)[j] :=
    fun j => by
      by_cases h : j = "job1"
      · subst h; rw [GoMap.getElem_insert_self, GoMap.getElem_insert_self]; omega
      · rw [GoMap.getElem_insert_ne _ _ h, GoMap.getElem_insert_ne _ _ h]
  ⟨h0, (jobTries_run _ _ _ _ h0).1⟩

end SpinCycle.Chain
