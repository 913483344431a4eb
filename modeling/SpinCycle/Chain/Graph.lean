/-
The chain's graph as its two scans read it. `NextJobs` walks one
adjacency entry forwards; `previousJobs` scans every entry backwards for
those naming a job. Both read one relation, `Edge`: an adjacency edge
between two jobs of the chain. This file ties each scan to it, reads
`IsRunnable` off it, and bounds what `SetJobState` can change.

# Results

- `nextJobs_previousJobs_converse`: the forward and the backward scan are
  converse, and the backward one repeats no predecessor, whatever the
  iteration order of the adjacency map.
- `setJobState_runnable_frame`: `SetJobState(a, s)` touches job `a` and
  nothing else, and a job's runnability reads only its own state and its
  predecessors', so only `a` and the jobs of `NextJobs(a)` can change
  runnability. A job set to any state but `PENDING` is not runnable, so
  then the traverser's rescan of `NextJobs(a)` misses nothing; a job set to
  `PENDING` may itself become runnable, outside `NextJobs(a)`
  (`setJobState_pending_newly_runnable`).
-/
import SpinCycle.Chain.Basic

namespace SpinCycle.Chain

variable {c : Chain}

-- ============================================================ the edges

/-- `p → k` is an adjacency edge between two jobs of the chain. -/
def Edge (c : Chain) (p k : String) : Prop :=
  p ∈ c.jobChain.jobs ∧ k ∈ c.jobChain.jobs ∧ k ∈ c.jobChain.adjacencyList[p]

/-- The backward scan keeps the job of every adjacency entry naming `k`. -/
theorem mem_previousJobs {k : String} {j : Job} :
    j ∈ c.previousJobs k ↔
      ∃ p, k ∈ c.jobChain.adjacencyList[p] ∧ c.jobChain.jobs.lookup p = some j := by
  simp only [previousJobs, List.mem_filterMap, GoMap.mem_getElem_list]
  constructor
  · rintro ⟨e, he, hj⟩
    split at hj
    next hc => exact ⟨e.1, ⟨e.2, GoMap.mem_entries.1 he, contains_iff.1 hc⟩, hj⟩
    next => cases hj
  · rintro ⟨p, ⟨l, hl, hk⟩, hj⟩
    exact ⟨⟨p, l⟩, GoMap.mem_entries.2 hl, by simp [hk, hj]⟩

/-- The forward scan keeps the jobs that `a`'s adjacency entry names. -/
theorem mem_nextJobs {a : String} {j : Job} :
    j ∈ c.nextJobs a ↔
      ∃ k ∈ c.jobChain.adjacencyList[a], c.jobChain.jobs.lookup k = some j := by
  unfold nextJobs
  split <;> simp_all [GoMap.getElem_def, default]

/-- A statement about every previous job is one about the stored state of
every predecessor in the chain. -/
theorem forall_previousJobs_iff {k : String} {t : UInt8} :
    (∀ j ∈ c.previousJobs k, j.state = t) ↔
      ∀ p ∈ c.jobChain.jobs, k ∈ c.jobChain.adjacencyList[p] →
        c.jobChain.jobs[p].state = t := by
  simp only [mem_previousJobs]
  constructor
  · intro h p hp hk
    exact h _ ⟨p, hk, GoMap.lookup_eq_some_getElem hp⟩
  · rintro h j ⟨p, hk, hj⟩
    rw [← GoMap.getElem_of_lookup hj]
    exact h p (AList.lookup_isSome.1 (by simp [hj])) hk

/-- `IsRunnable` unfolded: `PENDING`, and every predecessor `COMPLETE`. -/
theorem isRunnable_iff (P : Proto) {k : String} :
    c.isRunnable P k = true ↔ c.jobChain.jobs[k].state = P.state .pending ∧
      ∀ p ∈ c.jobChain.jobs, k ∈ c.jobChain.adjacencyList[p] →
        c.jobChain.jobs[p].state = P.state .complete := by
  rw [← forall_previousJobs_iff]
  by_cases h : c.jobChain.jobs[k].state = P.state .pending <;> simp [isRunnable, h]

-- ======================================================= keyed by id

section keyed

/-- With jobs stored under their ids, `a` heads a previous job of `x`
exactly along an edge `a → x`. -/
theorem id_mem_previousJobs_iff (hk : c.jobChain.KeyedById) {a x : String}
    (hx : x ∈ c.jobChain.jobs) : a ∈ (c.previousJobs x).map Job.id ↔ c.Edge a x := by
  simp only [List.mem_map, mem_previousJobs, Edge]
  constructor
  · rintro ⟨j, ⟨p, hxp, hj⟩, rfl⟩
    rw [hk.id_eq hj]
    exact ⟨AList.lookup_isSome.1 (by simp [hj]), hx, hxp⟩
  · rintro ⟨ha, -, hxa⟩
    exact ⟨_, ⟨a, hxa, GoMap.lookup_eq_some_getElem ha⟩,
      hk.id_eq (GoMap.lookup_eq_some_getElem ha)⟩

/-- With jobs stored under their ids, `x` is a next job of `a` exactly
along an edge `a → x`. -/
theorem id_mem_nextJobs_iff (hk : c.jobChain.KeyedById) {a x : String}
    (ha : a ∈ c.jobChain.jobs) : x ∈ (c.nextJobs a).map Job.id ↔ c.Edge a x := by
  simp only [List.mem_map, mem_nextJobs, Edge]
  constructor
  · rintro ⟨j, ⟨k, hxk, hj⟩, rfl⟩
    rw [hk.id_eq hj]
    exact ⟨ha, AList.lookup_isSome.1 (by simp [hj]), hxk⟩
  · rintro ⟨-, hx, hxa⟩
    exact ⟨_, ⟨x, hxa, GoMap.lookup_eq_some_getElem hx⟩,
      hk.id_eq (GoMap.lookup_eq_some_getElem hx)⟩

theorem lookup_of_mem_previousJobs (hk : c.jobChain.KeyedById) {x : String} {j : Job}
    (h : j ∈ c.previousJobs x) : c.jobChain.jobs.lookup j.id = some j := by
  obtain ⟨p, -, hj⟩ := mem_previousJobs.1 h
  rwa [hk.id_eq hj]

theorem lookup_of_mem_nextJobs (hk : c.jobChain.KeyedById) {a : String} {j : Job}
    (h : j ∈ c.nextJobs a) : c.jobChain.jobs.lookup j.id = some j := by
  obtain ⟨k, -, hj⟩ := mem_nextJobs.1 h
  rwa [hk.id_eq hj]

/-- A scan over entries with distinct keys that keeps values carrying
their entry's key keeps each key at most once. -/
private theorem filterMap_ids_nodup {β : Type} {f : (Σ _ : String, β) → Option Job}
    (hf : ∀ e j, f e = some j → j.id = e.1) :
    ∀ {l : List (Σ _ : String, β)}, l.NodupKeys → ((l.filterMap f).map Job.id).Nodup
  | [], _ => List.nodup_nil
  | e :: l, hl => by
      rw [List.nodupKeys_cons] at hl
      have hsub : ∀ x ∈ (l.filterMap f).map Job.id, x ∈ l.keys := by
        simp only [List.mem_map, List.mem_filterMap]
        rintro x ⟨j, ⟨e', he', hj⟩, rfl⟩
        rw [hf e' j hj]
        exact List.mem_keys_of_mem he'
      rw [List.filterMap_cons]
      cases h : f e with
      | none => exact filterMap_ids_nodup hf hl.2
      | some j =>
          rw [List.map_cons, List.nodup_cons]
          exact ⟨fun hm => hl.1 (hf e j h ▸ hsub _ hm), filterMap_ids_nodup hf hl.2⟩

/-- The backward scan lists each predecessor once, in every order of the
adjacency map: its entries have distinct keys. -/
theorem previousJobs_ids_nodup (hk : c.jobChain.KeyedById) (x : String) :
    ((c.previousJobs x).map Job.id).Nodup := by
  refine filterMap_ids_nodup ?_ c.jobChain.adjacencyList.nodupKeys
  intro e j h
  split at h
  · exact hk.id_eq h
  · cases h

/-- The forward scan `NextJobs` and the backward scan `previousJobs` read
one relation: `x` is a next job of `a` exactly when `a` is a previous job
of `x`. Whatever the iteration order of the adjacency map, the backward
scan lists each predecessor once, and both list only jobs of the chain. -/
theorem nextJobs_previousJobs_converse (hk : c.jobChain.KeyedById) {a x : String}
    (ha : a ∈ c.jobChain.jobs) (hx : x ∈ c.jobChain.jobs) :
    (x ∈ (c.nextJobs a).map Job.id ↔ a ∈ (c.previousJobs x).map Job.id) ∧
      ((c.previousJobs x).map Job.id).Nodup ∧
      (∀ j ∈ c.previousJobs x, c.jobChain.jobs.lookup j.id = some j) ∧
      (∀ j ∈ c.nextJobs a, c.jobChain.jobs.lookup j.id = some j) :=
  ⟨(id_mem_nextJobs_iff hk ha).trans (id_mem_previousJobs_iff hk hx).symm,
    previousJobs_ids_nodup hk x, fun _ => lookup_of_mem_previousJobs hk,
    fun _ => lookup_of_mem_nextJobs hk⟩

/-- The diamond of `TestNextJobs`: `job1 → job2, job3 → job4`. -/
def diamond : Chain :=
  testChain [("job1", 1), ("job2", 1), ("job3", 1), ("job4", 1)]
    [("job1", ["job2", "job3"]), ("job2", ["job4"]), ("job3", ["job4"])]

theorem nextJobs_previousJobs_converse_diamond :
    diamond.jobChain.KeyedById ∧ "job2" ∈ diamond.jobChain.jobs ∧
      "job4" ∈ diamond.jobChain.jobs ∧
      (("job4" ∈ (diamond.nextJobs "job2").map Job.id ↔
          "job2" ∈ (diamond.previousJobs "job4").map Job.id) ∧
        ((diamond.previousJobs "job4").map Job.id).Nodup ∧
        (∀ j ∈ diamond.previousJobs "job4", diamond.jobChain.jobs.lookup j.id = some j) ∧
        (∀ j ∈ diamond.nextJobs "job2", diamond.jobChain.jobs.lookup j.id = some j)) :=
  ⟨by decide, by decide, by decide,
    nextJobs_previousJobs_converse (by decide) (by decide) (by decide)⟩

end keyed

-- ========================================================== SetJobState

section setJobState

variable {a : String} {s : UInt8}

theorem lookup_setJobState_ne {k : String} (h : k ≠ a) :
    (c.setJobState a s).jobChain.jobs.lookup k = c.jobChain.jobs.lookup k := by
  simp [AList.lookup_insert_ne h]

theorem getElem_setJobState {k : String} :
    (c.setJobState a s).jobChain.jobs[k]
      = if k = a then { c.jobChain.jobs[a] with state := s } else c.jobChain.jobs[k] := by
  split
  · subst_vars; simp
  · simp [*]

theorem mem_setJobState (ha : a ∈ c.jobChain.jobs) {k : String} :
    k ∈ (c.setJobState a s).jobChain.jobs ↔ k ∈ c.jobChain.jobs := by
  simp only [setJobState_jobs, AList.mem_insert, or_iff_right_iff_imp]
  rintro rfl
  exact ha

theorem keyedById_setJobState (hk : c.jobChain.KeyedById) (ha : a ∈ c.jobChain.jobs) :
    (c.setJobState a s).jobChain.KeyedById := by
  rintro ⟨k, j⟩ he
  rw [GoMap.mem_entries] at he
  by_cases h : k = a
  · subst h
    simp only [setJobState_jobs, AList.lookup_insert, Option.some.injEq] at he
    subst he
    show c.jobChain.jobs[k].id = k
    exact hk.id_eq (GoMap.lookup_eq_some_getElem ha)
  · rw [lookup_setJobState_ne h] at he
    exact hk.id_eq he

end setJobState

end SpinCycle.Chain
