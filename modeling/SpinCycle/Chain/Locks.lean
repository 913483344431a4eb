/-
The chain under its two locks: each write call as the lock sections the
source gives it, goroutines interleaving those sections, and what every
interleaving leaves.

# Sections

`jobsMux` guards the jobs map and `FinishedJobs`, `triesMux` the three
try maps, and `SetState` takes no lock. Every write call is one section
but `IncrementSequenceTries`, which reads the job's `SequenceId` under
`jobsMux`, releases it, and moves the counter under `triesMux`
(`addSequenceTries`). A `Task` is where a goroutine stands: before its
call, or between the two sections of `IncrementSequenceTries` holding the
sequence id it read. `Section t` runs task `t`'s next section. Sections
under one lock exclude each other, and sections under different locks
touch different fields, so running sections one at a time, in every
order, gives every behaviour the locks allow. A run starts with the
calls it will make; a goroutine that picks its next call from what it
read is covered by the run of the calls it made.

# Serializable writes

No section changes a job's `Id`, `SequenceId` or `SequenceRetry`: a write
changes a job's state at most (`StatesOnly`). So the sequence id read in
the first section of `IncrementSequenceTries` is still the job's when the
second runs, and the call acts as if it ran whole at its second section
(`Task.run_of_standsFor`). The invariant `Serial` says: the calls finished
so far, run one at a time in the order they finished, leave the shared
chain, and each goroutine still inside a call stands for one of the calls
not finished. Hence an interleaving that runs every call to its end leaves
what a one-at-a-time run of the calls leaves (`writes_serializable`),
every invariant of one-at-a-time calls holds at every point of every
interleaving (`interleaving_keeps_invariant`), a panic in it is a panic
of a one-at-a-time run of some of the calls (`writes_panic_serial`), and
no counter loses an update (`counters_no_lost_update`).
-/
import SpinCycle.Chain.Tries

namespace SpinCycle.Chain

variable {c c' : Chain}

-- ============================================================= sections

/-- The second section of `IncrementSequenceTries`, under `triesMux`: move
the counter of `seqId`, read in the first section, by `delta`. -/
def addSequenceTries (c : Chain) (seqId : String) (delta : Int) : Chain :=
  let cur := goInt c.sequenceTries[seqId]
  { c with sequenceTries := c.sequenceTries.insert seqId (goUint (addInt cur delta)) }

/-- `IncrementSequenceTries` is its two sections run back to back. -/
theorem incrementSequenceTries_sections (c : Chain) (jobId : String) (delta : Int) :
    c.incrementSequenceTries jobId delta =
      c.addSequenceTries c.jobChain.jobs[jobId].sequenceId delta := rfl

/-- Where a goroutine stands in a write call: before it, or between the
two sections of `IncrementSequenceTries` with the sequence id it read. -/
inductive Task
  | call (op : Op)
  | addSequenceTries (seqId : String) (delta : Int)

/-- A task's next section: how it ends, and what the goroutine has left. -/
def Task.run (c : Chain) : Task → Outcome × Option Task
  | .call (.incrementSequenceTries jobId delta) =>
      (.ret c, some (.addSequenceTries c.jobChain.jobs[jobId].sequenceId delta))
  | .call op => (c.exec op, none)
  | .addSequenceTries seqId delta => (.ret (c.addSequenceTries seqId delta), none)

/-- Whether a task's next section takes `jobsMux` for writing. -/
def Task.locksJobs : Task → Bool
  | .call (.setJobState ..) | .call (.incrementFinishedJobs _) => true
  | _ => false

/-- The shared chain, and the tasks of the goroutines inside write calls. -/
structure System where
  chain : Chain
  tasks : List Task

/-- The goroutine at task `t` runs its next section, which returns. -/
inductive Section (t : Task) : System → System → Prop
  | run (pre post : List Task) {c c' : Chain} {next : Option Task} :
      t.run c = (.ret c', next) →
        Section t ⟨c, pre ++ t :: post⟩ ⟨c', pre ++ next.toList ++ post⟩

/-- Some goroutine runs a section. -/
def Step (s s' : System) : Prop := ∃ t, Section t s s'

/-- Some goroutine's next section panics with `msg`, leaving `c`. -/
def Panics (s : System) (msg : String) (c : Chain) : Prop :=
  ∃ t ∈ s.tasks, ∃ next, t.run s.chain = (.panic msg c, next)

/-- The calls run one at a time, up to the first panic. -/
def execAll (c : Chain) : List Op → Outcome
  | [] => .ret c
  | op :: ops =>
      match c.exec op with
      | .ret c' => c'.execAll ops
      | .panic msg c' => .panic msg c'

theorem execAll_cons_ret {op : Op} {ops : List Op} {c₁ : Chain} (h : c.exec op = .ret c₁) :
    c.execAll (op :: ops) = c₁.execAll ops := by
  simp only [execAll, h]

/-- A run returns exactly when its first call returns and the rest of the
run returns from there. -/
theorem execAll_cons_eq_ret {op : Op} {ops : List Op} :
    c.execAll (op :: ops) = .ret c' ↔
      ∃ c₁, c.exec op = .ret c₁ ∧ c₁.execAll ops = .ret c' := by
  cases hop : c.exec op <;> simp [execAll, hop]

theorem execAll_append_singleton {done : List Op} (h : c.execAll done = .ret c') (op : Op) :
    c.execAll (done ++ [op]) = c'.exec op := by
  induction done generalizing c with
  | nil =>
      simp only [execAll, Outcome.ret.injEq] at h
      subst h
      cases hop : c.exec op <;> simp [execAll, hop]
  | cons op' done ih =>
      obtain ⟨c₁, hop, h⟩ := execAll_cons_eq_ret.1 h
      rw [List.cons_append, execAll_cons_ret hop, ih h]

-- =========================================================== what a write changes

/-- `c'` holds `c`'s jobs, each with at most its state changed. -/
def StatesOnly (c c' : Chain) : Prop :=
  ∀ k : String,
    c'.jobChain.jobs[k] = { c.jobChain.jobs[k] with state := c'.jobChain.jobs[k].state }

theorem StatesOnly.refl (c : Chain) : StatesOnly c c := fun _ => rfl

theorem StatesOnly.trans {c₁ c₂ c₃ : Chain} (h₁ : StatesOnly c₁ c₂)
    (h₂ : StatesOnly c₂ c₃) : StatesOnly c₁ c₃ := fun k => by rw [h₂ k, h₁ k]

theorem StatesOnly.of_jobs_eq (h : c'.jobChain.jobs = c.jobChain.jobs) : StatesOnly c c' :=
  fun k => by rw [h]

theorem StatesOnly.sequenceId (h : StatesOnly c c') (k : String) :
    c'.jobChain.jobs[k].sequenceId = c.jobChain.jobs[k].sequenceId := by
  rw [h k]

theorem StatesOnly.sequenceStartJob (h : StatesOnly c c') (x : String) :
    (c'.sequenceStartJob x).id = (c.sequenceStartJob x).id ∧
      (c'.sequenceStartJob x).sequenceRetry = (c.sequenceStartJob x).sequenceRetry := by
  simp only [Chain.sequenceStartJob, h.sequenceId]
  rw [h]
  exact ⟨rfl, rfl⟩

theorem statesOnly_setJobState (c : Chain) (jobId : String) (s : UInt8) :
    StatesOnly c (c.setJobState jobId s) := fun k => by
  by_cases hk : k = jobId
  · subst hk; simp
  · simp only [setJobState_jobs, GoMap.getElem_insert_ne _ _ hk]

/-- Every call, whether it returns or panics, changes job states at most. -/
theorem exec_statesOnly (c : Chain) (op : Op) : StatesOnly c (c.exec op).chain := by
  cases op with
  | setJobState jobId s => exact statesOnly_setJobState c jobId s
  | incrementFinishedJobs d => exact .of_jobs_eq (incrementFinishedJobs_jobs c d)
  | incrementJobTries j d => exact .of_jobs_eq (by rw [exec, incrementJobTries_jobChain])
  | setState | incrementSequenceTries => exact .refl c

theorem Task.run_statesOnly (c : Chain) (t : Task) : StatesOnly c (t.run c).1.chain := by
  rcases t with ⟨_ | _ | _ | _ | _⟩ | _
  all_goals dsimp only [Task.run]; first | exact exec_statesOnly c _ | exact .refl c

-- ================================================================ serial

/-- The call a task is inside: a goroutine between the sections of
`IncrementSequenceTries jobId delta` stands for that call while `jobId`'s
sequence is still the one it read. -/
def Task.StandsFor (c : Chain) : Task → Op → Prop
  | .call op, op' => op' = op
  | .addSequenceTries seqId delta, op =>
      ∃ jobId, op = .incrementSequenceTries jobId delta ∧
        c.jobChain.jobs[jobId].sequenceId = seqId

theorem Task.StandsFor.of_statesOnly {t : Task} {op : Op} (h : StatesOnly c c')
    (ht : t.StandsFor c op) : t.StandsFor c' op := by
  cases t with
  | call => exact ht
  | addSequenceTries =>
      obtain ⟨jobId, rfl, hs⟩ := ht
      exact ⟨jobId, rfl, (h.sequenceId jobId).trans hs⟩

/-- A section of a goroutine standing for `op` either ends the call, acting
as `op` run whole on the chain it meets, or writes nothing and leaves the
goroutine standing for `op`. -/
theorem Task.run_of_standsFor {t : Task} {op : Op} (ht : t.StandsFor c op) :
    ((t.run c).2 = none ∧ (t.run c).1 = c.exec op) ∨
      ((t.run c).1 = .ret c ∧ ∃ t', (t.run c).2 = some t' ∧ t'.StandsFor c op) := by
  cases t with
  | call op' =>
      cases ht
      cases op with
      | incrementSequenceTries jobId d => exact .inr ⟨rfl, _, rfl, jobId, rfl, rfl⟩
      | _ => exact .inl ⟨rfl, rfl⟩
  | addSequenceTries =>
      obtain ⟨jobId, rfl, rfl⟩ := ht
      exact .inl ⟨rfl, rfl⟩

/-- The invariant of an interleaving started on `c₀` with the calls `ops`:
the calls `done` have finished, in that order, and the goroutines still at
work stand for the calls `rest`. -/
structure Serial (c₀ : Chain) (ops done rest : List Op) (s : System) : Prop where
  perm : (done ++ rest).Perm ops
  chain : c₀.execAll done = .ret s.chain
  tasks : List.Forall₂ (Task.StandsFor s.chain) s.tasks rest

theorem serial_start (c₀ : Chain) (ops : List Op) :
    Serial c₀ ops [] ops ⟨c₀, ops.map .call⟩ where
  perm := .refl _
  chain := rfl
  tasks := List.forall₂_map_left_iff.2 (List.forall₂_same.2 fun _ _ => rfl)

/-- A task list split around one task splits the calls it stands for. -/
theorem forall₂_split {R : Task → Op → Prop} {pre post : List Task} {t : Task}
    {rest : List Op} (h : List.Forall₂ R (pre ++ t :: post) rest) :
    ∃ rp op rq, rest = rp ++ op :: rq ∧
      List.Forall₂ R pre rp ∧ R t op ∧ List.Forall₂ R post rq := by
  induction pre generalizing rest with
  | nil =>
      obtain ⟨op, rq, hop, hq, rfl⟩ := List.forall₂_cons_left_iff.1 h
      exact ⟨[], op, rq, rfl, .nil, hop, hq⟩
  | cons t' pre ih =>
      obtain ⟨op', rest', hop', hrest, rfl⟩ := List.forall₂_cons_left_iff.1 h
      obtain ⟨rp, op, rq, rfl, hp, hop, hq⟩ := ih hrest
      exact ⟨op' :: rp, op, rq, rfl, .cons hop' hp, hop, hq⟩

variable {c₀ : Chain} {ops : List Op}

/-- One section keeps the invariant: a section that ends a call appends the
call to `done`; any other writes nothing. -/
theorem Serial.section {done rest : List Op} {s s' : System} {t : Task}
    (hs : Serial c₀ ops done rest s) (h : Section t s s') :
    ∃ done' rest', Serial c₀ ops done' rest' s' := by
  obtain @⟨pre, post, cur, cur', next, hrun⟩ := h
  obtain ⟨rp, op, rq, rfl, hp, ht, hq⟩ := forall₂_split hs.tasks
  have hso : StatesOnly cur cur' := by simpa [hrun, Outcome.chain] using Task.run_statesOnly cur t
  rcases Task.run_of_standsFor ht with ⟨hnone, hex⟩ | ⟨hret, t', hsome, ht'⟩
  · rw [hrun] at hnone hex
    cases hnone
    have hm : (op :: (rp ++ rq)).Perm (rp ++ op :: rq) := List.perm_middle.symm
    refine ⟨done ++ [op], rp ++ rq, ⟨?_, ?_, ?_⟩⟩
    · rw [List.append_assoc, List.singleton_append]
      exact (hm.append_left done).trans hs.perm
    · exact (execAll_append_singleton hs.chain op).trans hex.symm
    · simpa only [Option.toList, List.append_nil] using
        List.rel_append (hp.imp fun _ _ => Task.StandsFor.of_statesOnly hso)
          (hq.imp fun _ _ => Task.StandsFor.of_statesOnly hso)
  · rw [hrun] at hret hsome
    cases hret
    cases hsome
    refine ⟨done, rp ++ op :: rq, hs.perm, hs.chain, ?_⟩
    simpa only [Option.toList, List.append_assoc, List.singleton_append] using
      List.rel_append hp (.cons ht' hq)

/-- Every interleaving keeps the invariant. -/
theorem Serial.run {done rest : List Op} {s s' : System} (hs : Serial c₀ ops done rest s)
    (h : Relation.ReflTransGen Step s s') : ∃ done' rest', Serial c₀ ops done' rest' s' := by
  induction h with
  | refl => exact ⟨done, rest, hs⟩
  | tail _ hstep ih =>
      obtain ⟨done', rest', hs'⟩ := ih
      obtain ⟨t, ht⟩ := hstep
      exact hs'.section ht

/-- With no goroutine left at work, every call has finished. -/
theorem Serial.complete {done rest : List Op} (hs : Serial c₀ ops done rest ⟨c', []⟩) :
    done.Perm ops ∧ c₀.execAll done = .ret c' := by
  cases List.forall₂_nil_left_iff.1 hs.tasks
  exact ⟨by simpa using hs.perm, hs.chain⟩

/-- The write calls are serializable: every interleaving of their lock
sections that runs every call to its end leaves the chain that running
the same calls one at a time, in the order their last sections ran,
leaves. -/
theorem writes_serializable
    (h : Relation.ReflTransGen Step ⟨c₀, ops.map .call⟩ ⟨c', []⟩) :
    ∃ σ, σ.Perm ops ∧ c₀.execAll σ = .ret c' :=
  let ⟨done, _, hs⟩ := (serial_start c₀ ops).run h
  ⟨done, hs.complete⟩

/-- Two goroutines raise the tries of `job1`'s sequence, through `job1`
and through `job2`, each reading the sequence id before either writes. -/
theorem twoIncrements_run :
    Relation.ReflTransGen Step
      ⟨seqChain,
        [Op.incrementSequenceTries "job1" 1, .incrementSequenceTries "job2" 1].map .call⟩
      ⟨(seqChain.addSequenceTries "job1" 1).addSequenceTries "job1" 1, []⟩ :=
  .head ⟨_, .run [] [_] rfl⟩ <| .head ⟨_, .run [_] [] rfl⟩ <|
    .head ⟨_, .run [] [_] rfl⟩ <| .head ⟨_, .run [] [] rfl⟩ .refl

theorem writes_serializable_twoIncrements :
    ∃ σ, σ.Perm [Op.incrementSequenceTries "job1" 1, .incrementSequenceTries "job2" 1] ∧
      seqChain.execAll σ = .ret ((seqChain.addSequenceTries "job1" 1).addSequenceTries "job1" 1) :=
  writes_serializable twoIncrements_run

theorem execAll_invariant (I : Chain → Prop)
    (hI : ∀ c op c', I c → c.exec op = .ret c' → I c') {σ : List Op} (h0 : I c)
    (h : c.execAll σ = .ret c') : I c' := by
  induction σ generalizing c with
  | nil =>
      simp only [execAll, Outcome.ret.injEq] at h
      exact h ▸ h0
  | cons op σ ih =>
      obtain ⟨c₁, hop, h⟩ := execAll_cons_eq_ret.1 h
      exact ih (hI c op c₁ h0 hop) h

/-- Interleavings refine one-at-a-time calls: an invariant that every
returning call keeps holds at every point of every interleaving, with
goroutines stopped between the sections of their calls. -/
theorem interleaving_keeps_invariant (I : Chain → Prop)
    (hI : ∀ c op c', I c → c.exec op = .ret c' → I c') (h0 : I c₀) {s : System}
    (h : Relation.ReflTransGen Step ⟨c₀, ops.map .call⟩ s) : I s.chain :=
  let ⟨_, _, hs⟩ := (serial_start c₀ ops).run h
  execAll_invariant I hI h0 hs.chain

/-- No call changes the graph. -/
theorem exec_adjacencyList (c : Chain) (op : Op) :
    (c.exec op).chain.jobChain.adjacencyList = c.jobChain.adjacencyList := by
  cases op with
  | incrementJobTries j d => rw [exec, incrementJobTries_jobChain]
  | incrementFinishedJobs d =>
      simp only [exec, incrementFinishedJobs]
      split <;> rfl
  | _ => rfl

/-- The graph of `twoIncrements_run` stays as it was throughout. -/
theorem interleaving_keeps_invariant_graph :
    ((seqChain.addSequenceTries "job1" 1).addSequenceTries "job1" 1).jobChain.adjacencyList =
      seqChain.jobChain.adjacencyList :=
  interleaving_keeps_invariant (fun c => c.jobChain.adjacencyList = seqChain.jobChain.adjacencyList)
    (fun c op c' hc h => by simpa [h, Outcome.chain, hc] using exec_adjacencyList c op) rfl
    twoIncrements_run

/-- A panic in an interleaving is a panic of a one-at-a-time run: when a
goroutine's next section panics, running some of the calls one at a time
ends in the same panic, with the same chain left: its jobs and counters,
not `triesMux`, which an `IncrementJobTries` panic leaves locked. -/
theorem writes_panic_serial {s : System} {msg : String}
    (h : Relation.ReflTransGen Step ⟨c₀, ops.map .call⟩ s) (hp : Panics s msg c') :
    ∃ σ, σ.Subperm ops ∧ c₀.execAll σ = .panic msg c' := by
  obtain ⟨done, rest, hs⟩ := (serial_start c₀ ops).run h
  obtain ⟨cur, tasks⟩ := s
  obtain ⟨t, hmem, next, hrun⟩ := hp
  obtain ⟨pre, post, rfl⟩ := List.append_of_mem hmem
  obtain ⟨rp, op, rq, rfl, -, ht, -⟩ := forall₂_split hs.tasks
  rcases Task.run_of_standsFor ht with ⟨-, hex⟩ | ⟨hret, -⟩
  · refine ⟨done ++ [op], ?_, by rw [execAll_append_singleton hs.chain, ← hex, hrun]⟩
    exact ((List.subperm_append_left done).2 (List.singleton_subperm_iff.2 (by simp))).trans
      hs.perm.subperm
  · rw [hrun] at hret
    cases hret

/-- `seqChain` with one finished job. -/
def finishedOne : Chain :=
  { seqChain with jobChain := { seqChain.jobChain with finishedJobs := 1 } }

/-- Two goroutines each take back one finished job: the first returns,
and the second panics as it would run alone after the first. -/
theorem writes_panic_serial_twoRollbacks :
    ∃ σ, σ.Subperm [Op.incrementFinishedJobs (-1), .incrementFinishedJobs (-1)] ∧
      finishedOne.execAll σ = .panic "IncrementFinishedJobs cur 0 + delta -1 < 0"
        { finishedOne with jobChain := { finishedOne.jobChain with finishedJobs := 0 } } :=
  writes_panic_serial (.single ⟨_, .run [] [_] rfl⟩)
    ⟨_, List.mem_singleton_self _, none, rfl⟩

-- ============================================================= counters

/-- The counters the write calls move. -/
inductive Counter
  | sequenceTries (seqId : String)
  | latestRunJobTries (jobId : String)
  | totalJobTries (jobId : String)
  | finishedJobs

/-- A counter's value. -/
def counter (c : Chain) : Counter → Nat
  | .sequenceTries seqId => c.sequenceTries[seqId]
  | .latestRunJobTries jobId => c.latestRunJobTries[jobId]
  | .totalJobTries jobId => c.totalJobTries[jobId]
  | .finishedJobs => c.jobChain.finishedJobs

/-- Every counter holds a Go `uint`. -/
def Uints (c : Chain) : Prop := ∀ n, c.counter n < 2 ^ 64

/-- What a call adds to a counter in exact arithmetic, the job's sequence
read in `jobs`. `IncrementJobTries` adds to the total only a positive
`delta`. -/
def Op.delta (jobs : GoMap Job) : Op → Counter → Int
  | .incrementSequenceTries jobId d, .sequenceTries s => if jobs[jobId].sequenceId = s then d else 0
  | .incrementJobTries jobId d, .latestRunJobTries k => if jobId = k then d else 0
  | .incrementJobTries jobId d, .totalJobTries k => if jobId = k ∧ 0 < d then d else 0
  | .incrementFinishedJobs d, .finishedJobs => d
  | _, _ => 0

/-- The deltas of some calls on one counter, summed. -/
def deltaSum (jobs : GoMap Job) (n : Counter) : List Op → Int
  | [] => 0
  | op :: ops => op.delta jobs n + deltaSum jobs n ops

theorem goUint_natCast {u : Nat} (h : u < 2 ^ 64) : goUint u = u := by
  unfold goUint; omega

theorem goUint_lt (i : Int) : goUint i < 2 ^ 64 := by
  unfold goUint; omega

theorem goUint_goUint_add (a b : Int) : goUint (goUint a + b) = goUint (a + b) := by
  unfold goUint; omega

theorem addUint_goUint (a : Nat) (d : Int) : addUint a (goUint d) = goUint (a + d) := by
  unfold addUint goUint; omega

/-- What a returning `IncrementJobTries` writes: both job counters moved
by `delta` modulo `2^64`, the total only for a positive `delta`. -/
theorem incrementJobTries_eq_ret {jobId : String} {d : Int}
    (h : c.incrementJobTries jobId d = .ret c') :
    c' = { c with
      totalJobTries := if 0 < d then
          c.totalJobTries.insert jobId (goUint (c.totalJobTries[jobId] + d))
        else c.totalJobTries
      latestRunJobTries :=
        c.latestRunJobTries.insert jobId (goUint (c.latestRunJobTries[jobId] + d)) } := by
  by_cases hn : addInt (goInt c.latestRunJobTries[jobId]) d < 0 <;>
    by_cases hd : d > 0 <;>
    simp only [incrementJobTries, hd, hn, if_true, if_false] at h <;>
    cases h <;>
    simp [hd, goUint_addInt_goInt, addUint_goUint]

/-- A returning call moves every counter by the call's delta, in `uint`
arithmetic. -/
theorem exec_counter {op : Op} (h : c.exec op = .ret c') (hu : c.Uints) (n : Counter) :
    c'.counter n = goUint (c.counter n + op.delta c.jobChain.jobs n) := by
  have hn := hu n
  cases op with
  | setJobState | setState =>
      cases h
      cases n <;> simp only [Op.delta, add_zero, goUint_natCast hn] <;> rfl
  | incrementSequenceTries jobId d =>
      cases h
      cases n <;> simp only [counter, Op.delta, getElem_incrementSequenceTries, add_zero] at hn ⊢
      · split <;> simp [goUint_natCast hn]
      all_goals exact (goUint_natCast hn).symm
  | incrementJobTries jobId d =>
      rw [incrementJobTries_eq_ret h]
      cases n <;> simp only [counter, Op.delta, add_zero] at hn ⊢
      case latestRunJobTries k =>
        by_cases hk : jobId = k
        · subst hk; simp
        · simp [hk, GoMap.getElem_insert_ne _ _ (Ne.symm hk), goUint_natCast hn]
      case totalJobTries k =>
        by_cases hd : 0 < d
        · by_cases hk : jobId = k
          · subst hk; simp [hd]
          · simp [hd, hk, GoMap.getElem_insert_ne _ _ (Ne.symm hk), goUint_natCast hn]
        · simp [hd, goUint_natCast hn]
      all_goals exact (goUint_natCast hn).symm
  | incrementFinishedJobs d =>
      simp only [exec, incrementFinishedJobs] at h
      split at h
      · cases h
      · cases h
        cases n <;> simp_all [counter, Op.delta, goUint_natCast, goUint_addInt_goInt]

theorem Op.delta_of_statesOnly (h : StatesOnly c c') (op : Op) (n : Counter) :
    op.delta c'.jobChain.jobs n = op.delta c.jobChain.jobs n := by
  cases op <;> cases n <;> simp [Op.delta, h.sequenceId]

theorem deltaSum_of_statesOnly (h : StatesOnly c c') (n : Counter) (σ : List Op) :
    deltaSum c'.jobChain.jobs n σ = deltaSum c.jobChain.jobs n σ := by
  induction σ with
  | nil => rfl
  | cons op σ ih => simp only [deltaSum, ih, Op.delta_of_statesOnly h]

theorem deltaSum_perm (jobs : GoMap Job) (n : Counter) {σ σ' : List Op} (h : σ.Perm σ') :
    deltaSum jobs n σ = deltaSum jobs n σ' := by
  induction h with
  | nil => rfl
  | cons op _ ih => simp only [deltaSum, ih]
  | swap => simp only [deltaSum]; omega
  | trans _ _ ih₁ ih₂ => exact ih₁.trans ih₂

/-- A one-at-a-time run moves every counter by the sum of its calls' deltas. -/
theorem execAll_counter {σ : List Op} (h : c.execAll σ = .ret c') (hu : c.Uints) (n : Counter) :
    c'.counter n = goUint (c.counter n + deltaSum c.jobChain.jobs n σ) := by
  induction σ generalizing c with
  | nil =>
      simp only [execAll, Outcome.ret.injEq] at h
      subst h
      simp [deltaSum, goUint_natCast (hu n)]
  | cons op σ ih =>
      obtain ⟨c₁, hop, h⟩ := execAll_cons_eq_ret.1 h
      have h₁ := exec_counter hop hu
      rw [ih h (fun n => h₁ n ▸ goUint_lt _), h₁, deltaSum,
        deltaSum_of_statesOnly (by simpa [hop, Outcome.chain] using exec_statesOnly c op),
        goUint_goUint_add, add_assoc]

/-- No update is lost: after any interleaving that runs every call to its
end, each counter is its start value plus the deltas of all the calls
that move it, in `uint` arithmetic, whatever order the sections ran in. -/
theorem counters_no_lost_update
    (h : Relation.ReflTransGen Step ⟨c₀, ops.map .call⟩ ⟨c', []⟩) (hu : c₀.Uints)
    (n : Counter) :
    c'.counter n = goUint (c₀.counter n + deltaSum c₀.jobChain.jobs n ops) := by
  obtain ⟨done, _, hs⟩ := (serial_start c₀ ops).run h
  obtain ⟨hp, hσ⟩ := hs.complete
  rw [execAll_counter hσ hu, deltaSum_perm _ _ hp]

theorem seqChain_uints : seqChain.Uints := fun n => by
  cases n <;> simp [counter, seqChain, testChain, GoMap.getElem_def]

/-- Of the two increments of `twoIncrements_run`, neither is lost. -/
theorem counters_no_lost_update_twoIncrements :
    ((seqChain.addSequenceTries "job1" 1).addSequenceTries "job1" 1).counter
      (.sequenceTries "job1") = 2 :=
  (counters_no_lost_update twoIncrements_run seqChain_uints _).trans (by decide)

end SpinCycle.Chain
