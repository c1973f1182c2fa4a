/-
  Claiming is exclusive: whatever the interleaving of workers and enqueuers, and whatever
  happens to the Valkey signals, a job goes from queued to running at most once, is attempted
  at most once, and `claim_one_job` comes back empty-handed only when every due job is locked.

  The two claim paths share the guard of their queries (`Claimable`). Between the query and
  the commit the row lock keeps other workers away; after the commit the status does.

  `claim_at_most_once` is about every run of any number of workers: a job is started once at most,
  its attempts say so, and a claim finds nothing only when every job that is due is locked.
-/
import PgErdCloud.Jobs.Lifecycle

namespace PgErdCloud.Jobs

open Lib

/-! ## Starting a job -/

/-- The status of a job, if it is in the table. -/
def statusOf (s : State) (id : Uuid) : Option Status := (s.db.jobs.get? id).map JobQueue.status

/-- The step from `s` to `t` moves the job from queued to running. -/
def Starts (id : Uuid) (s t : State) : Prop :=
  statusOf s id = some .queued ∧ statusOf t id = some .running

instance (id : Uuid) : DecidableRel (Starts id) :=
  fun _ _ => inferInstanceAs (Decidable (_ ∧ _))

/-- The job has been started. -/
def Started (id : Uuid) (s : State) : Prop :=
  ∃ job, s.db.jobs.get? id = some job ∧ job.status ≠ .queued

theorem started_iff {id : Uuid} {s : State} :
    Started id s ↔ ∃ status, statusOf s id = some status ∧ status ≠ .queued := by
  simp only [Started, statusOf, Option.map_eq_some_iff]
  constructor
  · rintro ⟨job, hjob, hne⟩
    exact ⟨job.status, ⟨job, hjob, rfl⟩, hne⟩
  · rintro ⟨status, ⟨job, hjob, rfl⟩, hne⟩
    exact ⟨job, hjob, hne⟩

/-- The phases of a started job. -/
def Phase.IsStarted : Phase → Prop
  | .absent | .queued | .locked _ => False
  | .held _ | .orphaned | .settled => True

theorem InPhase.isStarted_iff {s : State} {id : Uuid} {p : Phase} (hp : InPhase s id p) :
    p.IsStarted ↔ Started id s := by
  cases hp with
  | absent hjob => simp [Phase.IsStarted, Started, hjob]
  | queued _ hjob hstatus => simp [Phase.IsStarted, Started, hjob, hstatus]
  | locked _ _ _ hjob hstatus => simp [Phase.IsStarted, Started, hjob, hstatus]
  | held _ _ hjob hstatus => simp [Phase.IsStarted, Started, hjob, hstatus]
  | orphaned _ hjob hstatus => simp [Phase.IsStarted, Started, hjob, hstatus]
  | settled _ hjob hstatus =>
      rcases hstatus with hs | hs <;> simp [Phase.IsStarted, Started, hjob, hs]

/-- A started job stays started. -/
theorem started_step {id : Uuid} (s : State) (a : Action) (t : State) (hs : Orderly s)
    (hd : Started id s) (h : step s a = some t) : Started id t := by
  obtain ⟨p, hp⟩ := hs id
  obtain ⟨p', hnext, hp'⟩ := phase_step (effect_of_step h) hp
  have hstarted := hp.isStarted_iff.mpr hd
  apply hp'.isStarted_iff.mp
  cases hnext with
  | stay => exact hstarted
  | settle | lose => trivial
  | enqueue | lock | abort | commit => exact hstarted.elim

theorem starts_at_most_once (id : Uuid) (actions : List Action) :
    countSteps step (Starts id) State.initial actions ≤ 1 := by
  refine countSteps_le_one orderly_step (@started_step id) ?_ ?_ orderly_initial actions
  · intro s t hst hs
    obtain ⟨status, hstatus, hne⟩ := started_iff.mp hs
    rw [hst.1, Option.some.injEq] at hstatus
    exact hne hstatus.symm
  · intro s t hst
    exact started_iff.mpr ⟨.running, hst.2, by decide⟩

theorem InPhase.attemptCount_le {s : State} {id : Uuid} {p : Phase} {job : JobQueue}
    (hp : InPhase s id p) (hjob : s.db.jobs.get? id = some job) : job.attemptCount ≤ 1 := by
  have hrow : ∀ row n, s.db.jobs.get? id = some row → row.attemptCount = n → n ≤ 1 →
      job.attemptCount ≤ 1 := by
    intro row n hr hn hle
    rw [hjob, Option.some.injEq] at hr
    rw [hr, hn]
    exact hle
  cases hp with
  | absent hj => exact absurd (hj.symm.trans hjob) (by simp)
  | queued row hj _ hzero => exact hrow row 0 hj hzero (Nat.zero_le 1)
  | locked _ row _ hj _ hzero => exact hrow row 0 hj hzero (Nat.zero_le 1)
  | held _ row hj _ hone => exact hrow row 1 hj hone (Nat.le_refl 1)
  | orphaned row hj _ hone => exact hrow row 1 hj hone (Nat.le_refl 1)
  | settled row hj _ hone => exact hrow row 1 hj hone (Nat.le_refl 1)

/-! ## Coming back empty-handed -/

/-- In the step from `s` to `t`, `claim_one_job` returns `None` to `w`. -/
def ReturnsNone (w : WorkerId) (s t : State) : Prop :=
  s.workers w ≠ .sleeping ∧ t.workers w = .sleeping

/-- The `now()` of the claim transaction of `w`: the time it began, or the present when it
    has not begun. -/
def claimNow (s : State) (w : WorkerId) : Time :=
  match s.workers w with
  | .scanning txNow => txNow.getD s.db.now
  | _ => s.db.now

theorem not_returnsNone_of_workers_eq {w : WorkerId} {s t : State} (h : t.workers = s.workers) :
    ¬ ReturnsNone w s t := by
  rintro ⟨hs, ht⟩
  rw [h] at ht
  exact hs ht

theorem not_returnsNone_of_update {w w' : WorkerId} {s t : State} {pc : Pc}
    (h : t.workers = Function.update s.workers w' pc) (hpc : pc ≠ .sleeping) :
    ¬ ReturnsNone w s t := by
  rintro ⟨hs, ht⟩
  rw [h] at ht
  by_cases hw : w = w'
  · rw [hw, Function.update_self] at ht
    exact hpc ht
  · rw [Function.update_of_ne hw] at ht
    exact hs ht

/-- A worker is given `None` only by the fallback query. -/
theorem claimDueJob_of_returnsNone {w : WorkerId} {s t : State} {a : Action}
    (h : step s a = some t) (hr : ReturnsNone w s t) :
    ∃ tie, claimDueJob s.db (claimNow s w) tie = none := by
  cases a with
  | start w' =>
      simp only [step] at h
      split at h <;> cases h
      exact absurd hr (not_returnsNone_of_update rfl (by simp))
  | stop w' =>
      simp only [step] at h
      split at h <;> cases h
      exact absurd hr (not_returnsNone_of_update rfl (by simp))
  | createSnapshot snapshotId jobId conn =>
      simp only [step, Option.map_eq_some_iff] at h
      obtain ⟨db, -, rfl⟩ := h
      exact absurd hr (not_returnsNone_of_workers_eq rfl)
  | tick | drift | addConnection | deleteConnection | deleteSnapshot =>
      cases h
      exact absurd hr (not_returnsNone_of_workers_eq rfl)
  | work w' move =>
      simp only [step] at h
      generalize hpc : s.workers w' = pc at h
      fun_cases workerStep s w' pc move
      all_goals simp only [workerStep, *, ↓reduceIte, Option.some.injEq, reduceCtorEq] at h
      all_goals subst h
      case case5 txNow tie hnone =>
        obtain ⟨hs, ht⟩ := hr
        by_cases hw : w = w'
        · refine ⟨tie, ?_⟩
          rw [claimNow, hw, hpc]
          exact hnone
        · rw [State.goto_workers, Function.update_of_ne hw] at ht
          exact absurd ht hs
      all_goals exact absurd hr (not_returnsNone_of_update rfl (by simp))

/-- **At most one claim.** After every run, each job has gone from queued to running at most
    once and has been attempted at most once; and in every step of the run in which
    `claim_one_job` returned `None`, each job due at the `now()` of its transaction was
    locked. -/
theorem claim_at_most_once {actions : List Action} {s : State}
    (h : run step State.initial actions = some s) :
    (∀ id, countSteps step (Starts id) State.initial actions ≤ 1) ∧
    (∀ id job, s.db.jobs.get? id = some job → job.attemptCount ≤ 1) ∧
    EveryStep step (fun u a => ∀ t w, step u a = some t → ReturnsNone w u t →
      ∀ id job, u.db.jobs.get? id = some job → Due (claimNow u w) job → u.db.locks id ≠ none)
      State.initial actions := by
  refine ⟨fun id => starts_at_most_once id actions, ?_, ?_⟩
  · intro id job hjob
    obtain ⟨p, hp⟩ := orderly_of_run h id
    exact hp.attemptCount_le hjob
  · intro _ a _ u _ _ t w ht hr id job hjob hdue hlock
    obtain ⟨tie, hnone⟩ := claimDueJob_of_returnsNone ht hr
    exact claimDueJob_eq_none hnone hjob ⟨hdue, hlock⟩

/-- Two workers and one job: the signal of the job is duplicated, both workers pop it, and
    the second finds the row locked on both claim paths. -/
def twoWorkers : List Action :=
  [.addConnection 7, .createSnapshot 1 2 7, .drift [⟨some 2, 0⟩, ⟨some 2, 0⟩], .start 0, .start 1,
    .work 0 (.pop true), .work 1 (.pop true), .work 0 .claimById, .work 1 .claimById,
    .work 1 (.claimDue 2), .work 0 .commit]

/-- `claim_at_most_once` for the run of two workers. -/
theorem claim_at_most_once_at_twoWorkers :
    ∃ s, run step State.initial twoWorkers = some s ∧
      (∀ id, countSteps step (Starts id) State.initial twoWorkers ≤ 1) ∧
      (∀ id job, s.db.jobs.get? id = some job → job.attemptCount ≤ 1) ∧
      EveryStep step (fun u a => ∀ t w, step u a = some t → ReturnsNone w u t →
        ∀ id job, u.db.jobs.get? id = some job → Due (claimNow u w) job → u.db.locks id ≠ none)
        State.initial twoWorkers := by
  obtain ⟨s, hs⟩ : ∃ s, run step State.initial twoWorkers = some s :=
    Option.isSome_iff_exists.mp (by decide)
  exact ⟨s, hs, claim_at_most_once hs⟩

end PgErdCloud.Jobs
