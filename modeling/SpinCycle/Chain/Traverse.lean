/-
The traversal's use of the chain: a job is dispatched when `IsRunnable`
says so, and a running job ends in a final state. Neither is a function of
`chain.go`; both are the two `SetJobState` calls the traverser makes, and
`TraverseStep` states them over the chain's own `IsRunnable`, `JobState`
and `SetJobState`.

# The order invariant

`Ordered`: every job that has left `PENDING` has all its previous jobs
`COMPLETE`. One lemma carries it across any `SetJobState(x, s)`
(`ordered_setJobState`): when `x` is not `COMPLETE` and its previous jobs
are, `x` precedes no job that has left `PENDING` (itself included), so
the new state of `x` is read by no constraint, and the constraint on `x`
still holds. A dispatch meets the hypotheses through `isRunnable_iff`, a
finish through the invariant at the running job; so every run keeps the
invariant (`traverse_ordered`).

# Termination

A dispatch takes a job from `PENDING` to `RUNNING` and a finish from
`RUNNING` to a final state, so each step takes one step off the chain's
remaining work, two per job at most (`traverse_terminates`).

# Where runs end

So every traversal can be run until neither step applies, and there no
job is `RUNNING` and none is runnable: two of the three conditions of
`IsDoneRunning`. The third is that no `FAIL` or `UNKNOWN` job can retry
its sequence; so at the end of a run `IsDoneRunning` says done, or such a
retry is pending (`traverse_ends_done`).

# The happy path

When every job that runs ends `COMPLETE`, an acyclic chain with no job
`STOPPED`, `FAIL` or `UNKNOWN` stays so, and where the traversal stops a
job still pending would have a blocked ancestor (`blocked_ancestor`): so
every job is `COMPLETE` and `IsDoneRunning` returns `(true, true)`
(`traverse_success_completes`).
-/
import SpinCycle.Chain.Done

namespace SpinCycle.Chain

variable (P : Proto) {c : Chain}

/-- Every job that has left `PENDING` has all its previous jobs `COMPLETE`. -/
def Ordered (c : Chain) : Prop :=
  ∀ k ∈ c.jobChain.jobs, c.jobChain.jobs[k].state ≠ P.state .pending →
    ∀ j ∈ c.previousJobs k, j.state = P.state .complete

instance (c : Chain) : Decidable (c.Ordered P) :=
  inferInstanceAs (Decidable (∀ k ∈ c.jobChain.jobs, _))

/-- The steps of a traversal: dispatch a runnable job, or end a running
one in `COMPLETE`, `FAIL`, `STOPPED` or `UNKNOWN`. -/
inductive TraverseStep : Chain → Chain → Prop
  | dispatch {c : Chain} {x : String} (hx : x ∈ c.jobChain.jobs) (hr : c.isRunnable P x = true) :
      TraverseStep c (c.setJobState x (P.state .running))
  | finish {c : Chain} {x : String} {t : StateConst} (hx : x ∈ c.jobChain.jobs)
      (hs : c.jobState x = P.state .running)
      (ht : t = .complete ∨ t = .fail ∨ t = .stopped ∨ t = .unknown) :
      TraverseStep c (c.setJobState x (P.state t))

variable {P}

/-- `Ordered` over the adjacency entries, as `isRunnable_iff` reads them. -/
theorem ordered_iff : c.Ordered P ↔
    ∀ k ∈ c.jobChain.jobs, c.jobChain.jobs[k].state ≠ P.state .pending →
      ∀ p ∈ c.jobChain.jobs, k ∈ c.jobChain.adjacencyList[p] →
        c.jobChain.jobs[p].state = P.state .complete :=
  forall₂_congr fun _ _ => imp_congr_right fun _ => forall_previousJobs_iff

/-- Setting the state of a job that is not `COMPLETE`, and whose previous
jobs are, keeps the chain ordered, whatever the new state. -/
theorem ordered_setJobState (ho : c.Ordered P) {x : String} (hx : x ∈ c.jobChain.jobs)
    (hnc : c.jobChain.jobs[x].state ≠ P.state .complete)
    (hpre : ∀ p ∈ c.jobChain.jobs, x ∈ c.jobChain.adjacencyList[p] →
      c.jobChain.jobs[p].state = P.state .complete) (s : UInt8) :
    (c.setJobState x s).Ordered P := by
  rw [ordered_iff] at ho ⊢
  intro k hk hne p hp hkp
  rw [mem_setJobState hx] at hk hp
  rw [setJobState_adjacencyList] at hkp
  -- `x` precedes no job that has left `PENDING`, itself included
  have hpx : p ≠ x := by
    rintro rfl
    by_cases hkx : k = p
    · subst hkx; exact hnc (hpre _ hp hkp)
    · rw [getElem_setJobState, if_neg hkx] at hne
      exact hnc (ho k hk hne _ hp hkp)
  rw [getElem_setJobState, if_neg hpx]
  by_cases hkx : k = x
  · subst hkx; exact hpre p hp hkp
  · rw [getElem_setJobState, if_neg hkx] at hne
    exact ho k hk hne p hp hkp

/-- One traversal step keeps the chain ordered. -/
theorem ordered_step {c' : Chain} (ho : c.Ordered P) (h : TraverseStep P c c') : c'.Ordered P := by
  cases h with
  | dispatch hx hr =>
      obtain ⟨hp, hpre⟩ := (isRunnable_iff P).1 hr
      exact ordered_setJobState ho hx (by simp [hp]) hpre _
  | finish hx hs =>
      rw [jobState] at hs
      exact ordered_setJobState ho hx (by simp [hs]) (ordered_iff.1 ho _ hx (by simp [hs])) _

/-- Every traversal run from an ordered chain ends in an ordered chain;
a chain whose jobs are all `PENDING`, as a new request's is, is ordered. -/
theorem traverse_ordered (P : Proto) :
    (∀ c c' : Chain, c.Ordered P → Relation.ReflTransGen (TraverseStep P) c c' → c'.Ordered P) ∧
    (∀ c : Chain, (∀ k ∈ c.jobChain.jobs, c.jobChain.jobs[k].state = P.state .pending) →
      c.Ordered P) := by
  refine ⟨fun c c' ho h => ?_, fun c h k hk hne => absurd (h k hk) hne⟩
  induction h with
  | refl => exact ho
  | tail _ hstep ih => exact ordered_step ih hstep

/-- The diamond's first job dispatched and completed. -/
theorem traverse_ordered_diamond :
    ((diamond.setJobState "job1" (testProto.state .running)).setJobState "job1"
      (testProto.state .complete)).Ordered testProto :=
  (traverse_ordered testProto).1 diamond _ ((traverse_ordered testProto).2 diamond (by decide))
    (.tail (.single (.dispatch (by decide) (by decide)))
      (.finish (by decide) (by decide) (.inl rfl)))

-- ========================================================== termination

/-- The steps a job has still to take: two from `PENDING` (or any byte the
traversal does not set), one from `RUNNING`, none from a final state. -/
def stepsLeft (P : Proto) (s : UInt8) : Nat :=
  if s = P.state .running then 1
  else if s = P.state .complete ∨ s = P.state .fail ∨ s = P.state .stopped ∨
      s = P.state .unknown then 0
  else 2

/-- The steps the jobs of the chain have still to take. -/
def remaining (P : Proto) (c : Chain) : Nat :=
  (c.jobChain.jobs.entries.map fun e => stepsLeft P e.2.state).sum

@[simp] theorem stepsLeft_pending : stepsLeft P (P.state .pending) = 2 := by simp [stepsLeft]

@[simp] theorem stepsLeft_running : stepsLeft P (P.state .running) = 1 := by simp [stepsLeft]

theorem stepsLeft_final {t : StateConst}
    (ht : t = .complete ∨ t = .fail ∨ t = .stopped ∨ t = .unknown) :
    stepsLeft P (P.state t) = 0 := by
  rcases ht with rfl | rfl | rfl | rfl <;> simp [stepsLeft]

/-- Each traversal step takes one step off the chain's remaining work. -/
theorem remaining_step {c' : Chain} (h : TraverseStep P c c') :
    c'.remaining P + 1 = c.remaining P := by
  cases h with
  | dispatch hx hr =>
      rename_i x
      have := GoMap.sum_insert_of_mem (fun job : Job => stepsLeft P job.state) hx
        { c.jobChain.jobs[x] with state := P.state .running }
      dsimp only at this
      rw [((isRunnable_iff P).1 hr).1, stepsLeft_pending, stepsLeft_running] at this
      simp only [remaining, setJobState_jobs]
      omega
  | finish hx hs ht =>
      rename_i x t
      have := GoMap.sum_insert_of_mem (fun job : Job => stepsLeft P job.state) hx
        { c.jobChain.jobs[x] with state := P.state t }
      rw [jobState] at hs
      dsimp only at this
      rw [hs, stepsLeft_running, stepsLeft_final ht] at this
      simp only [remaining, setJobState_jobs]
      omega

variable (P) in
/-- No traversal runs forever. -/
theorem wellFounded_traverseStep : WellFounded fun c' c : Chain => TraverseStep P c c' :=
  Subrelation.wf (fun h => by have := remaining_step h; show _ < _; omega)
    (InvImage.wf (remaining P) wellFounded_lt)

/-- Every traversal ends: each step takes one step off the remaining work,
which is at most two per job. -/
theorem traverse_terminates (P : Proto) :
    (∀ c c' : Chain, TraverseStep P c c' → c'.remaining P + 1 = c.remaining P) ∧
    (∀ c : Chain, c.remaining P ≤ 2 * c.jobChain.jobs.entries.length) ∧
    WellFounded fun c' c : Chain => TraverseStep P c c' := by
  refine ⟨fun _ _ => remaining_step, fun c => ?_, wellFounded_traverseStep P⟩
  unfold remaining
  induction c.jobChain.jobs.entries with
  | nil => simp
  | cons e l ih =>
      have : stepsLeft P e.2.state ≤ 2 := by unfold stepsLeft; split_ifs <;> omega
      simp only [List.map_cons, List.sum_cons, List.length_cons]
      omega

/-- The diamond's first dispatch takes one of its eight steps. -/
theorem traverse_terminates_diamond :
    (diamond.setJobState "job1" (testProto.state .running)).remaining testProto + 1
        = diamond.remaining testProto ∧
      diamond.remaining testProto ≤ 2 * diamond.jobChain.jobs.entries.length ∧
      diamond.remaining testProto = 8 :=
  ⟨(traverse_terminates testProto).1 _ _ (.dispatch (by decide) (by decide)),
    (traverse_terminates testProto).2.1 diamond, by decide⟩

-- ===================================================== where runs end

/-- Jobs stored under their ids, in valid states. -/
structure WellFormed (P : Proto) (c : Chain) : Prop where
  keyed : c.jobChain.KeyedById
  valid : ∀ k ∈ c.jobChain.jobs, P.Valid c.jobChain.jobs[k].state

/-- Writing a state of the protocol to a job of the chain keeps it well
formed. -/
theorem WellFormed.setJobState (hw : c.WellFormed P) {x : String} (hx : x ∈ c.jobChain.jobs)
    (t : StateConst) : (c.setJobState x (P.state t)).WellFormed P where
  keyed := keyedById_setJobState hw.keyed hx
  valid k hk := by
    rw [mem_setJobState hx] at hk
    rw [getElem_setJobState]
    split
    · exact ⟨t, rfl⟩
    · exact hw.valid k hk

theorem WellFormed.step {c' : Chain} (hw : c.WellFormed P) (h : TraverseStep P c c') :
    c'.WellFormed P := by
  cases h with
  | dispatch hx => exact hw.setJobState hx _
  | finish hx => exact hw.setJobState hx _

theorem WellFormed.run {c' : Chain} (hw : c.WellFormed P)
    (h : Relation.ReflTransGen (TraverseStep P) c c') : c'.WellFormed P := by
  induction h with
  | refl => exact hw
  | tail _ hstep ih => exact ih.step hstep

variable (P) in
/-- From every chain, a traversal that takes only some of the steps runs
until it can take none. -/
theorem exists_stuck {r : Chain → Chain → Prop} (hr : ∀ c c', r c c' → TraverseStep P c c')
    (c : Chain) : ∃ c', Relation.ReflTransGen r c c' ∧ ∀ c'', ¬ r c' c'' := by
  induction c using (wellFounded_traverseStep P).induction with
  | _ c ih =>
    by_cases hs : ∃ c'', r c c''
    · obtain ⟨c'', hs⟩ := hs
      obtain ⟨c', hrun, hstuck⟩ := ih c'' (hr _ _ hs)
      exact ⟨c', .head hs hrun, hstuck⟩
    · push_neg at hs
      exact ⟨c, .refl, hs⟩

/-- Where no step applies, nothing is running and nothing is runnable. -/
theorem none_running_of_stuck {c : Chain} (hs : ∀ c', ¬ TraverseStep P c c') :
    (∀ k ∈ c.jobChain.jobs, c.jobChain.jobs[k].state ≠ P.state .running) ∧
      ∀ k ∈ c.jobChain.jobs, c.isRunnable P k = false :=
  ⟨fun _ hk hr => hs _ (.finish hk hr (.inl rfl)),
    fun _ hk => Bool.eq_false_iff.2 fun hr => hs _ (.dispatch hk hr)⟩

/-- Every traversal of a well-formed chain can be run until no dispatch or
finish applies; and wherever that happens, `IsDoneRunning` says the chain
is done, or a job in `FAIL` or `UNKNOWN` can still retry its sequence. -/
theorem traverse_ends_done (hw : c.WellFormed P) :
    (∃ c', Relation.ReflTransGen (TraverseStep P) c c' ∧ ∀ c'', ¬ TraverseStep P c' c'') ∧
    ∀ c', Relation.ReflTransGen (TraverseStep P) c c' → (∀ c'', ¬ TraverseStep P c' c'') →
      (∃ complete, c'.isDoneRunning P = .ok (true, complete)) ∨
      ∃ k ∈ c'.jobChain.jobs, (c'.jobChain.jobs[k].state = P.state .fail ∨
        c'.jobChain.jobs[k].state = P.state .unknown) ∧ c'.canRetrySequence k = true := by
  refine ⟨exists_stuck P (fun _ _ h => h) c, fun c' hr hs => or_iff_not_imp_right.2 fun hretry => ?_⟩
  have hw' := hw.run hr
  obtain ⟨hnr, hnrun⟩ := none_running_of_stuck hs
  push_neg at hretry
  have hd : c'.DoneSpec P := ⟨hnr, hnrun, fun k hk hf => Bool.eq_false_iff.2 (hretry k hk hf)⟩
  exact ⟨_, by rw [isDoneRunning, doneScan_eq_of_perm P hw'.keyed hw'.valid (.refl _),
    decide_eq_true hd]⟩

/-- The diamond, all pending, run to its end. -/
theorem traverse_ends_done_diamond :
    diamond.WellFormed testProto ∧
    ∀ c', Relation.ReflTransGen (TraverseStep testProto) diamond c' →
      (∀ c'', ¬ TraverseStep testProto c' c'') →
      (∃ complete, c'.isDoneRunning testProto = .ok (true, complete)) ∨
      ∃ k ∈ c'.jobChain.jobs, (c'.jobChain.jobs[k].state = testProto.state .fail ∨
        c'.jobChain.jobs[k].state = testProto.state .unknown) ∧ c'.canRetrySequence k = true :=
  ⟨⟨by decide, by decide⟩, (traverse_ends_done ⟨by decide, by decide⟩).2⟩

-- ====================================================== the happy path

variable (P) in
/-- The traversal in which every job that runs ends `COMPLETE`. -/
inductive SuccessStep : Chain → Chain → Prop
  | dispatch {c : Chain} {x : String} (hx : x ∈ c.jobChain.jobs) (hr : c.isRunnable P x = true) :
      SuccessStep c (c.setJobState x (P.state .running))
  | finish {c : Chain} {x : String} (hx : x ∈ c.jobChain.jobs)
      (hs : c.jobState x = P.state .running) :
      SuccessStep c (c.setJobState x (P.state .complete))

theorem SuccessStep.traverseStep {c' : Chain} (h : SuccessStep P c c') : TraverseStep P c c' := by
  cases h with
  | dispatch hx hr => exact .dispatch hx hr
  | finish hx hs => exact .finish hx hs (.inl rfl)

/-- `SetJobState` on a job of the chain changes no edge. -/
theorem acyclic_setJobState (h : c.Acyclic) {a : String} (ha : a ∈ c.jobChain.jobs) (s : UInt8) :
    (c.setJobState a s).Acyclic := by
  have he : (c.setJobState a s).Edge = c.Edge := by
    funext p k
    simp only [Edge, mem_setJobState ha, setJobState_adjacencyList]
  rw [Acyclic, he]
  exact h

/-- What the happy path keeps: a well-formed acyclic chain in which no job
is `STOPPED`, `FAIL` or `UNKNOWN`. -/
structure HappyPath (P : Proto) (c : Chain) : Prop where
  wellFormed : c.WellFormed P
  acyclic : c.Acyclic
  unblocked : ∀ k ∈ c.jobChain.jobs, c.jobChain.jobs[k].state = P.state .pending ∨
    c.jobChain.jobs[k].state = P.state .running ∨ c.jobChain.jobs[k].state = P.state .complete

/-- Writing `PENDING`, `RUNNING` or `COMPLETE` to a job of the chain keeps
it on the happy path. -/
theorem HappyPath.setJobState (h : c.HappyPath P) {x : String} (hx : x ∈ c.jobChain.jobs)
    {t : StateConst} (ht : t = .pending ∨ t = .running ∨ t = .complete) :
    (c.setJobState x (P.state t)).HappyPath P where
  wellFormed := h.wellFormed.setJobState hx t
  acyclic := acyclic_setJobState h.acyclic hx _
  unblocked k hk := by
    rw [mem_setJobState hx] at hk
    rw [getElem_setJobState]
    split
    · rcases ht with rfl | rfl | rfl <;> simp
    · exact h.unblocked k hk

theorem HappyPath.step {c' : Chain} (h : c.HappyPath P) (hs : SuccessStep P c c') :
    c'.HappyPath P := by
  cases hs with
  | dispatch hx => exact h.setJobState hx (.inr (.inl rfl))
  | finish hx => exact h.setJobState hx (.inr (.inr rfl))

theorem HappyPath.run {c' : Chain} (h : c.HappyPath P)
    (hr : Relation.ReflTransGen (SuccessStep P) c c') : c'.HappyPath P := by
  induction hr with
  | refl => exact h
  | tail _ hstep ih => exact ih.step hstep

/-- Where the happy path can go no further, every job is `COMPLETE`: a job
still pending would, with nothing running or runnable, descend from a
blocked job, and there is none. -/
theorem HappyPath.allComplete_of_stuck (h : c.HappyPath P) (hs : ∀ c', ¬ SuccessStep P c c') :
    c.AllComplete P := by
  have hnr : ∀ k ∈ c.jobChain.jobs, c.jobChain.jobs[k].state ≠ P.state .running :=
    fun _ hk hr => hs _ (.finish hk hr)
  have hnrun : ∀ k ∈ c.jobChain.jobs, c.isRunnable P k = false :=
    fun _ hk => Bool.eq_false_iff.2 fun hr => hs _ (.dispatch hk hr)
  intro k hk
  rcases h.unblocked k hk with hp | hr | hc
  · obtain ⟨a, ha, hbad⟩ := blocked_ancestor P h.acyclic h.wellFormed.valid hnr hnrun hk hp
    rcases h.unblocked a (mem_of_transGen_edge ha) with h' | h' | h' <;>
      rcases hbad with hb | hb | hb <;> simp [h'] at hb
  · exact absurd hr (hnr k hk)
  · exact hc

/-- On the happy path the chain completes: every traversal in which each
job that runs ends `COMPLETE`, from an acyclic well-formed chain with no
job `STOPPED`, `FAIL` or `UNKNOWN`, can be run until no step applies; and
wherever that happens every job is `COMPLETE` and `IsDoneRunning` returns
`(true, true)`. -/
theorem traverse_success_completes (h : c.HappyPath P) :
    (∃ c', Relation.ReflTransGen (SuccessStep P) c c' ∧ ∀ c'', ¬ SuccessStep P c' c'') ∧
    ∀ c', Relation.ReflTransGen (SuccessStep P) c c' → (∀ c'', ¬ SuccessStep P c' c'') →
      c'.AllComplete P ∧ c'.isDoneRunning P = .ok (true, true) := by
  refine ⟨exists_stuck P (fun _ _ => SuccessStep.traverseStep) c, fun c' hr hs => ?_⟩
  have h' := h.run hr
  have hall := h'.allComplete_of_stuck hs
  refine ⟨hall, ?_⟩
  rw [isDoneRunning, doneScan_eq_of_perm P h'.wellFormed.keyed h'.wellFormed.valid (.refl _),
    decide_eq_true (hall.doneSpec h'.wellFormed.keyed), decide_eq_true hall]

theorem diamond_acyclic : diamond.Acyclic :=
  acyclic_of_rank (fun k => if k = "job1" then 0 else if k = "job4" then 2 else 1) (by decide)

/-- The diamond, all pending, completes on the happy path. -/
theorem traverse_success_completes_diamond :
    diamond.HappyPath testProto ∧
    ∀ c', Relation.ReflTransGen (SuccessStep testProto) diamond c' →
      (∀ c'', ¬ SuccessStep testProto c' c'') →
      c'.AllComplete testProto ∧ c'.isDoneRunning testProto = .ok (true, true) :=
  have hp : diamond.HappyPath testProto := ⟨⟨by decide, by decide⟩, diamond_acyclic, by decide⟩
  ⟨hp, (traverse_success_completes hp).2⟩

end SpinCycle.Chain
