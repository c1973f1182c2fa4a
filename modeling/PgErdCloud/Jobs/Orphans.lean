/-
  Jobs that stay running. The claim is committed before the job is processed, and nothing in
  the worker, the lifespan or a restart looks at running jobs again: a worker that stops
  between the commit of its claim and the commit that settles the job leaves the job running
  for good. This file proves that there is no other way.

  `running_iff_held_or_abandoned` is about every run: a job is running exactly when a worker holds
  it or some step has abandoned it.
-/
import PgErdCloud.Jobs.Lifecycle

namespace PgErdCloud.Jobs

open Lib

/-- The job is running and no worker processes it. -/
def Orphaned (s : State) (id : Uuid) : Prop :=
  (∃ job, s.db.jobs.get? id = some job ∧ job.status = .running) ∧
    ∀ w job, (s.workers w).claim ≠ .holding id job

/-- In the step from `s` to `t` a worker that processes the job stops: it is cancelled, or the
    transaction that records its failure fails, and the exception leaves the loop. -/
def Abandons (id : Uuid) (s : State) (a : Action) (t : State) : Prop :=
  ∃ w job, (s.workers w).claim = .holding id job ∧ t.workers w = .stopped ∧
    (a = .stop w ∨ ∃ fault, a = .work w (.record (some fault)))

theorem Free.not_holding {s : State} {id : Uuid} (h : Free s id) (w : WorkerId) (job : JobQueue) :
    (s.workers w).claim ≠ .holding id job :=
  fun hc => h w (Claim.job?_of_eq (.inr hc))

theorem InPhase.orphaned_iff {s : State} {id : Uuid} {p : Phase} (hp : InPhase s id p) :
    Orphaned s id ↔ p = .orphaned := by
  have hrow : ∀ row, s.db.jobs.get? id = some row → Orphaned s id → row.status = .running := by
    intro row hr ho
    obtain ⟨job, hjob, hstatus⟩ := ho.1
    rw [hr, Option.some.injEq] at hjob
    exact hjob ▸ hstatus
  cases hp with
  | absent hjob => simp [Orphaned, hjob]
  | queued row hjob hstatus =>
      exact iff_of_false (fun ho => absurd (hrow row hjob ho) (by simp [hstatus])) (by simp)
  | locked _ row _ hjob hstatus =>
      exact iff_of_false (fun ho => absurd (hrow row hjob ho) (by simp [hstatus])) (by simp)
  | held w row _ _ _ _ hclaim => exact iff_of_false (fun ho => ho.2 w row hclaim) (by simp)
  | orphaned row hjob hstatus _ _ hf =>
      exact iff_of_true ⟨⟨row, hjob, hstatus⟩, hf.not_holding⟩ rfl
  | settled row hjob hstatus =>
      refine iff_of_false (fun ho => ?_) (by simp)
      rw [hrow row hjob ho] at hstatus
      exact absurd hstatus (by simp)

/-- A worker that processes a job stops only when it is cancelled or fails to record. -/
theorem cause_of_stopped {s t : State} {a : Action} {w : WorkerId} {id : Uuid} {job : JobQueue}
    (h : step s a = some t) (hc : (s.workers w).claim = .holding id job)
    (ht : t.workers w = .stopped) :
    a = .stop w ∨ ∃ fault, a = .work w (.record (some fault)) := by
  have hlive : s.workers w ≠ .stopped := by
    intro hs
    rw [hs] at hc
    exact absurd hc (by simp [Pc.claim])
  have hsame : ∀ w' pc, t.workers = Function.update s.workers w' pc → pc = .stopped ∧ w = w' := by
    intro w' pc hu
    rw [hu] at ht
    by_cases hw : w = w'
    · rw [hw, Function.update_self] at ht
      exact ⟨ht, hw⟩
    · rw [Function.update_of_ne hw] at ht
      exact absurd ht hlive
  cases a with
  | start w' =>
      simp only [step] at h
      split at h <;> cases h
      exact absurd (hsame w' .polling rfl).1 (by simp)
  | stop w' =>
      simp only [step] at h
      split at h <;> cases h
      exact .inl (by rw [(hsame w' .stopped rfl).2])
  | createSnapshot snapshotId jobId conn =>
      simp only [step, Option.map_eq_some_iff] at h
      obtain ⟨db, -, rfl⟩ := h
      exact absurd ht hlive
  | tick | drift | addConnection | deleteConnection | deleteSnapshot =>
      cases h
      exact absurd ht hlive
  | work w' move =>
      simp only [step] at h
      generalize hpc : s.workers w' = pc at h
      fun_cases workerStep s w' pc move
      all_goals simp only [workerStep, *, ↓reduceIte, Option.some.injEq, reduceCtorEq] at h
      all_goals subst h
      case case20 id job fault _ =>
        exact .inr ⟨fault, by rw [(hsame w' .stopped rfl).2]⟩
      all_goals exact absurd (hsame w' _ rfl).1 (by simp)

/-- A job is orphaned by a step in which its worker stops, and stays so. -/
theorem orphaned_step {s t : State} {a : Action} {id : Uuid} (hs : Orderly s)
    (h : step s a = some t) : Orphaned t id ↔ Orphaned s id ∨ Abandons id s a t := by
  obtain ⟨p, hp⟩ := hs id
  obtain ⟨p', hnext, hp'⟩ := phase_step (effect_of_step h) hp
  rw [hp.orphaned_iff, hp'.orphaned_iff]
  constructor
  · rintro rfl
    cases hnext with
    | stay => exact .inl rfl
    | lose w hpc =>
        cases hp with
        | held _ job _ _ _ _ hclaim =>
            exact .inr ⟨w, job, hclaim, hpc, cause_of_stopped h hclaim hpc⟩
  · rintro (rfl | ⟨w, job, hclaim, hpc, -⟩)
    · cases hnext with
      | stay => rfl
    · obtain rfl := hp.of_holding hclaim
      cases hnext with
      | lose => rfl
      | settle _ hpolling => exact absurd (hpolling.symm.trans hpc) (by simp)
      | stay =>
          cases hp' with
          | held _ _ _ _ _ _ hclaim' =>
              rw [hpc] at hclaim'
              exact absurd hclaim' (by simp [Pc.claim])

/-- The orphaned jobs are those whose worker stopped at some step of the run. -/
theorem orphaned_iff_abandoned {actions : List Action} {s : State} (id : Uuid)
    (h : run step State.initial actions = some s) :
    Orphaned s id ↔ SomeStep step (Abandons id) State.initial actions := by
  induction actions using List.reverseRecOn generalizing s with
  | nil =>
      rw [run_nil, Option.some.injEq] at h
      subst h
      exact iff_of_false (fun ho => absurd ho.1 (by simp [State.initial, Db.initial]))
        not_someStep_nil
  | append_singleton actions a ih =>
      obtain ⟨u, hu, hs⟩ := run_concat.mp h
      rw [someStep_concat hu hs, orphaned_step (orderly_of_run hu) hs, ih hu]

/-- **Running jobs.** After every run, a job is running exactly when a live worker processes
    it, or a worker that processed it stopped before settling it. -/
theorem running_iff_held_or_abandoned {actions : List Action} {s : State} {id : Uuid}
    {job : JobQueue} (h : run step State.initial actions = some s)
    (hjob : s.db.jobs.get? id = some job) :
    job.status = .running ↔
      (∃ w, (s.workers w).claim = .holding id job) ∨
        SomeStep step (Abandons id) State.initial actions := by
  rw [← orphaned_iff_abandoned id h]
  obtain ⟨p, hp⟩ := orderly_of_run h id
  constructor
  · intro hrunning
    by_cases hheld : ∃ w job', (s.workers w).claim = .holding id job'
    · obtain ⟨w, job', hclaim⟩ := hheld
      obtain rfl := hp.of_holding hclaim
      cases hp with
      | held _ row hrow _ _ _ hclaim' =>
          rw [hjob, Option.some.injEq] at hrow
          exact .inl ⟨w, hrow ▸ hclaim'⟩
    · exact .inr ⟨⟨job, hjob, hrunning⟩, fun w job' hc => hheld ⟨w, job', hc⟩⟩
  · rintro (⟨w, hclaim⟩ | ⟨⟨row, hrow, hrunning⟩, -⟩)
    · obtain rfl := hp.of_holding hclaim
      cases hp with
      | held _ row hrow hstatus =>
          rw [hjob, Option.some.injEq] at hrow
          exact hrow ▸ hstatus
    · rw [hjob, Option.some.injEq] at hrow
      exact hrow ▸ hrunning

/-- A worker claims a job, the application shuts down, and starts again. -/
def shutdown : List Action :=
  [.addConnection 7, .createSnapshot 1 2 7, .start 0, .work 0 (.pop false), .work 0 (.claimDue 2),
    .work 0 .commit, .stop 0, .start 0]

/-- `running_iff_held_or_abandoned` for the job of that run. -/
theorem running_iff_held_or_abandoned_at_shutdown :
    ∃ s job, run step State.initial shutdown = some s ∧ s.db.jobs.get? 2 = some job ∧
      (job.status = .running ↔
        (∃ w, (s.workers w).claim = .holding 2 job) ∨
          SomeStep step (Abandons 2) State.initial shutdown) := by
  obtain ⟨s, hs⟩ : ∃ s, run step State.initial shutdown = some s :=
    Option.isSome_iff_exists.mp (by decide)
  obtain ⟨job, hjob⟩ : ∃ job, s.db.jobs.get? 2 = some job := by
    have hrun : (run step State.initial shutdown).bind (fun s => s.db.jobs.get? 2) ≠ none := by
      decide
    rw [hs, Option.bind_some] at hrun
    exact Option.ne_none_iff_exists'.mp hrun
  exact ⟨s, job, hs, hjob, running_iff_held_or_abandoned hs hjob⟩

/-- After a shutdown a job is running that no worker processes. -/
theorem running_job_not_held :
    ¬ ∀ actions s, run step State.initial actions = some s → ∀ id job,
      s.db.jobs.get? id = some job → job.status = .running →
      ∃ w job', (s.workers w).claim = .holding id job' := by
  intro hall
  obtain ⟨s, hs⟩ : ∃ s, run step State.initial shutdown = some s :=
    Option.isSome_iff_exists.mp (by decide)
  have hrun : (run step State.initial shutdown).bind (fun s =>
      (s.db.jobs.get? 2).map JobQueue.status) = some .running := by decide
  rw [hs, Option.bind_some, Option.map_eq_some_iff] at hrun
  obtain ⟨job, hjob, hstatus⟩ := hrun
  obtain ⟨w, job', hclaim⟩ := hall shutdown s hs 2 job hjob hstatus
  obtain ⟨u, hu, hafter⟩ := run_append.mp
    (show run step State.initial (shutdown.take 6 ++ shutdown.drop 6) = some s from hs)
  obtain ⟨v, hv, -⟩ := run_cons.mp hafter
  have hpc : (run step State.initial (shutdown.take 6)).map (fun u => u.workers 0) =
      some (.dispatching 2 ⟨"snapshot", .running, 1, 0, 1, none, some 0, none⟩) := by decide
  rw [hu, Option.map_some, Option.some.injEq] at hpc
  have hstopped : v.workers 0 = .stopped := by
    simp only [step, hpc, reduceCtorEq, ↓reduceIte, Option.some.injEq] at hv
    rw [← hv, State.goto_workers, Function.update_self]
  have habandons : Abandons 2 u (.stop 0) v :=
    ⟨0, _, by rw [hpc]; rfl, hstopped, .inl rfl⟩
  have horphaned : Orphaned s 2 := (orphaned_iff_abandoned 2 hs).mpr
    ⟨shutdown.take 6, .stop 0, [.start 0], u, v, rfl, hu, hv, habandons⟩
  exact horphaned.2 w job' hclaim

end PgErdCloud.Jobs
