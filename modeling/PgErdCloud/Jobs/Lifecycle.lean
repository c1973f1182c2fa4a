/-
  The life of one job: absent, queued, locked by a worker that claims it, held by that worker
  while it is processed, then settled, or orphaned when its worker stopped before settling it.

  A step of the system is first reduced to its effect on the queue (`effect_of_step`): which
  worker takes or gives up which job. From the effect follows how the phase of every job
  moves (`phase_step`), and by induction that in every reachable state every job is in one of
  the phases (`phase_of_run`).
-/
import PgErdCloud.Jobs.Worker

namespace PgErdCloud.Jobs

open Lib

/-! ## What a worker has -/

/-- What a worker has to do with a job. -/
inductive Claim
  | idle
  /-- It has locked the job and marked it in an open transaction. -/
  | marked (id : Uuid) (job : JobQueue)
  /-- It has committed the claim and has not settled the job. -/
  | holding (id : Uuid) (job : JobQueue)
  deriving DecidableEq

/-- The job that a worker has taken. -/
def Claim.job? : Claim → Option Uuid
  | .idle => none
  | .marked id _ => some id
  | .holding id _ => some id

/-- What a worker holds at a place of its loop. -/
def Pc.claim : Pc → Claim
  | .stopped | .polling | .signalled _ | .scanning _ | .sleeping => .idle
  | .marked id job => .marked id job
  | .dispatching id job | .preparing id job | .introspecting id job => .holding id job
  | .failing id job _ => .holding id job
  | .saving id job _ => .holding id job
  | .recording id job _ => .holding id job

/-! ## Effects -/

/-- What a step does to the queue: to the job rows, their locks and the workers' claims. -/
inductive Effect (s t : State) : Prop
  | outside (hjobs : t.db.jobs = s.db.jobs) (hlocks : t.db.locks = s.db.locks)
      (hworkers : t.workers = s.workers)
  | enqueue (id : Uuid) (job : JobQueue) (hnew : s.db.jobs.get? id = none)
      (hqueued : job.status = .queued) (hzero : job.attemptCount = 0)
      (htype : job.jobType = "snapshot")
      (hfresh : ∀ id' row, s.db.jobs.get? id' = some row →
        row.schemaSnapshotUuid ≠ job.schemaSnapshotUuid)
      (hjobs : t.db.jobs = s.db.jobs.set id job) (hlocks : t.db.locks = s.db.locks)
      (hworkers : t.workers = s.workers)
  | move (w : WorkerId) (pc : Pc) (hworkers : t.workers = Function.update s.workers w pc)
      (hclaim : pc.claim = (s.workers w).claim) (hjobs : t.db.jobs = s.db.jobs)
      (hlocks : t.db.locks = s.db.locks)
  | mark (w : WorkerId) (id : Uuid) (job : JobQueue) (now : Time)
      (hidle : (s.workers w).claim = .idle) (hmark : IsClaim s.db now id job)
      (hjobs : t.db.jobs = s.db.jobs)
      (hlocks : t.db.locks = Function.update s.db.locks id (some w))
      (hworkers : t.workers = Function.update s.workers w (.marked id job))
  | abort (w : WorkerId) (id : Uuid) (job : JobQueue)
      (hclaim : (s.workers w).claim = .marked id job) (hjobs : t.db.jobs = s.db.jobs)
      (hlocks : t.db.locks = Function.update s.db.locks id none)
      (hworkers : t.workers = Function.update s.workers w .stopped)
  | commit (w : WorkerId) (id : Uuid) (job : JobQueue)
      (hclaim : (s.workers w).claim = .marked id job)
      (hjobs : t.db.jobs = s.db.jobs.set id job)
      (hlocks : t.db.locks = Function.update s.db.locks id none)
      (hworkers : t.workers = Function.update s.workers w (.dispatching id job))
  | settle (w : WorkerId) (id : Uuid) (job : JobQueue) (outcome : Outcome) (now : Time)
      (hclaim : (s.workers w).claim = .holding id job)
      (hjobs : t.db.jobs = s.db.jobs.modify id (settleJob outcome now))
      (hlocks : t.db.locks = s.db.locks)
      (hworkers : t.workers = Function.update s.workers w .polling)
  | lose (w : WorkerId) (id : Uuid) (job : JobQueue)
      (hclaim : (s.workers w).claim = .holding id job) (hjobs : t.db.jobs = s.db.jobs)
      (hlocks : t.db.locks = s.db.locks)
      (hworkers : t.workers = Function.update s.workers w .stopped)

theorem startSnapshot_frame {db db' : Db} {snapshotId : Uuid} {fault : Option Fault}
    (h : startSnapshot db snapshotId fault = .ok db') :
    db'.jobs = db.jobs ∧ db'.locks = db.locks := by
  unfold startSnapshot at h
  split at h
  · cases h
  · cases h
  · split at h
    · split at h <;> cases h
      exact ⟨rfl, rfl⟩
    · cases h

theorem failSnapshot_frame (db : Db) (snapshotId : Uuid) (e : String) (fault : Option Fault) :
    (failSnapshot db snapshotId e fault).1.jobs = db.jobs ∧
      (failSnapshot db snapshotId e fault).1.locks = db.locks := by
  unfold failSnapshot
  split <;> exact ⟨rfl, rfl⟩

theorem finishSnapshot_frame {db db' : Db} {snapshotId : Uuid} {data : String}
    {fault : Option Fault} (h : finishSnapshot db snapshotId data fault = .ok db') :
    db'.jobs = db.jobs ∧ db'.locks = db.locks := by
  unfold finishSnapshot at h
  split at h <;> cases h
  exact ⟨rfl, rfl⟩

theorem createSnapshot_effect {db db' : Db} {snapshotId jobId conn : Uuid}
    (h : createSnapshot db snapshotId jobId conn = some db') :
    ∃ job : JobQueue, db.jobs.get? jobId = none ∧ job.status = .queued ∧ job.attemptCount = 0 ∧
      job.jobType = "snapshot" ∧
      (∀ id row, db.jobs.get? id = some row → row.schemaSnapshotUuid ≠ job.schemaSnapshotUuid) ∧
      db'.jobs = db.jobs.set jobId job ∧ db'.locks = db.locks := by
  unfold createSnapshot at h
  split at h
  · rename_i hnew
    cases h
    refine ⟨_, hnew.2.1, ?_, ?_, ?_, ?_, rfl, rfl⟩ <;> try rfl
    intro id row hrow
    exact hnew.2.2.1 (id, row) (Dict.mem_items_iff.mpr hrow)
  · cases h

/-- A worker that stops loses the job it holds, if it holds one. -/
theorem effect_of_stop {s t : State} {w : WorkerId} (h : step s (.stop w) = some t) :
    Effect s t := by
  simp only [step] at h
  split at h
  · cases h
  · cases h
    cases hpc : s.workers w with
    | stopped | polling | signalled | scanning | sleeping =>
        exact .move w .stopped rfl (congrArg Pc.claim hpc).symm rfl rfl
    | marked id job => exact .abort w id job (congrArg Pc.claim hpc) rfl rfl rfl
    | dispatching id job | preparing id job | introspecting id job | failing id job
    | saving id job | recording id job =>
        exact .lose w id job (congrArg Pc.claim hpc) rfl rfl rfl

theorem effect_of_workerStep {s t : State} {w : WorkerId} {pc : Pc} {move : Move}
    (hpc : s.workers w = pc) (h : workerStep s w pc move = some t) : Effect s t := by
  fun_cases workerStep s w pc move
  all_goals simp only [workerStep, *, ↓reduceIte, Option.some.injEq, reduceCtorEq] at h
  all_goals subst h
  case case4 id job hx =>
    obtain ⟨rfl, hmark⟩ := claimJobById_eq_some hx
    exact .mark w _ job s.db.now (congrArg Pc.claim hpc) hmark rfl rfl rfl
  case case6 txNow tie id job hx =>
    exact .mark w id job _ (congrArg Pc.claim hpc) (claimDueJob_eq_some hx) rfl rfl rfl
  case case7 id job => exact .commit w id job (congrArg Pc.claim hpc) rfl rfl rfl
  case case11 db hx =>
    obtain ⟨hj, hl⟩ := startSnapshot_frame hx
    exact .move w _ rfl (congrArg Pc.claim hpc).symm hj hl
  case case15 id job e fault db e' hx =>
    obtain ⟨hj, hl⟩ := failSnapshot_frame s.db job.schemaSnapshotUuid e fault
    rw [hx] at hj hl
    exact .move w _ rfl (congrArg Pc.claim hpc).symm hj hl
  case case16 db hx =>
    obtain ⟨hj, hl⟩ := finishSnapshot_frame hx
    exact .move w _ rfl (congrArg Pc.claim hpc).symm hj hl
  case case18 id job outcome =>
    exact .settle w id job outcome s.db.now (congrArg Pc.claim hpc) rfl rfl rfl
  case case20 id job _ _ => exact .lose w id job (congrArg Pc.claim hpc) rfl rfl rfl
  all_goals exact .move w _ rfl (congrArg Pc.claim hpc).symm rfl rfl

/-- Every step has one of the effects. -/
theorem effect_of_step {s t : State} {a : Action} (h : step s a = some t) : Effect s t := by
  cases a with
  | start w =>
      simp only [step] at h
      split at h
      · rename_i hpc
        cases h
        exact .move w .polling rfl (congrArg Pc.claim hpc).symm rfl rfl
      · cases h
  | stop w => exact effect_of_stop h
  | work w move => exact effect_of_workerStep rfl h
  | createSnapshot snapshotId jobId conn =>
      simp only [step, Option.map_eq_some_iff] at h
      obtain ⟨db, hdb, rfl⟩ := h
      obtain ⟨job, hnew, hqueued, hzero, htype, hfresh, hjobs, hlocks⟩ :=
        createSnapshot_effect hdb
      exact .enqueue jobId job hnew hqueued hzero htype hfresh hjobs hlocks rfl
  | tick | drift | addConnection | deleteConnection | deleteSnapshot =>
      cases h
      exact .outside rfl rfl rfl

/-! ## Phases -/

/-- No worker has the job. -/
def Free (s : State) (id : Uuid) : Prop := ∀ w, (s.workers w).claim.job? ≠ some id

/-- No worker but `w` has the job. -/
def OnlyBy (s : State) (w : WorkerId) (id : Uuid) : Prop :=
  ∀ w', (s.workers w').claim.job? = some id → w' = w

/-- Where a job is in its life. An orphan is marked as running, and no worker has it. -/
inductive Phase
  | absent
  | queued
  | locked (w : WorkerId)
  | held (w : WorkerId)
  | orphaned
  | settled

/-- The job is in the phase. -/
inductive InPhase (s : State) (id : Uuid) : Phase → Prop
  | absent (hjob : s.db.jobs.get? id = none) (hlock : s.db.locks id = none) (hfree : Free s id) :
      InPhase s id .absent
  | queued (job : JobQueue) (hjob : s.db.jobs.get? id = some job) (hstatus : job.status = .queued)
      (hzero : job.attemptCount = 0) (hlock : s.db.locks id = none) (hfree : Free s id) :
      InPhase s id .queued
  | locked (w : WorkerId) (job : JobQueue) (now : Time) (hjob : s.db.jobs.get? id = some job)
      (hstatus : job.status = .queued) (hzero : job.attemptCount = 0)
      (hlock : s.db.locks id = some w)
      (hclaim : (s.workers w).claim = .marked id (markJobRunning job now))
      (honly : OnlyBy s w id) : InPhase s id (.locked w)
  | held (w : WorkerId) (job : JobQueue) (hjob : s.db.jobs.get? id = some job)
      (hstatus : job.status = .running) (hone : job.attemptCount = 1)
      (hlock : s.db.locks id = none) (hclaim : (s.workers w).claim = .holding id job)
      (honly : OnlyBy s w id) : InPhase s id (.held w)
  | orphaned (job : JobQueue) (hjob : s.db.jobs.get? id = some job)
      (hstatus : job.status = .running) (hone : job.attemptCount = 1)
      (hlock : s.db.locks id = none) (hfree : Free s id) : InPhase s id .orphaned
  | settled (job : JobQueue) (hjob : s.db.jobs.get? id = some job)
      (hstatus : job.status = .succeeded ∨ job.status = .failed) (hone : job.attemptCount = 1)
      (hlock : s.db.locks id = none) (hfree : Free s id) : InPhase s id .settled

/-- How a job moves from phase to phase in a step that ends in `t`. -/
inductive Phase.Next (t : State) : Phase → Phase → Prop
  | stay (p : Phase) : Next t p p
  | enqueue : Next t .absent .queued
  | lock (w : WorkerId) : Next t .queued (.locked w)
  | abort (w : WorkerId) : Next t (.locked w) .queued
  | commit (w : WorkerId) : Next t (.locked w) (.held w)
  | settle (w : WorkerId) (hpc : t.workers w = .polling) : Next t (.held w) .settled
  | lose (w : WorkerId) (hpc : t.workers w = .stopped) : Next t (.held w) .orphaned

theorem Claim.job?_of_eq {c : Claim} {id : Uuid} {job : JobQueue}
    (h : c = .marked id job ∨ c = .holding id job) : c.job? = some id := by
  rcases h with rfl | rfl <;> rfl

/-- A worker that changes its claim to another job leaves `id` free. -/
theorem Free.of_update {s t : State} {id : Uuid} {w : WorkerId} {pc : Pc} (honly : OnlyBy s w id)
    (hworkers : t.workers = Function.update s.workers w pc) (hpc : pc.claim.job? ≠ some id) :
    Free t id := by
  intro w'
  rw [hworkers]
  by_cases h : w' = w
  · rw [h, Function.update_self]
    exact hpc
  · rw [Function.update_of_ne h]
    exact fun hj => h (honly w' hj)

theorem Free.onlyBy {s : State} {id : Uuid} (h : Free s id) (w : WorkerId) : OnlyBy s w id :=
  fun w' hj => absurd hj (h w')

theorem OnlyBy.of_update {s t : State} {id : Uuid} {w : WorkerId} {pc : Pc}
    (honly : OnlyBy s w id) (hworkers : t.workers = Function.update s.workers w pc) :
    OnlyBy t w id := by
  intro w' hj
  by_contra h
  rw [hworkers, Function.update_of_ne h] at hj
  exact h (honly w' hj)

/-- A step that touches neither the row of a job, nor its lock, nor a claim to it, leaves the
    job in its phase. -/
theorem InPhase.frame {s t : State} {id : Uuid} {p : Phase} (hp : InPhase s id p)
    (hjobs : t.db.jobs.get? id = s.db.jobs.get? id) (hlocks : t.db.locks id = s.db.locks id)
    (hclaims : ∀ w, (s.workers w).claim.job? = some id ∨ (t.workers w).claim.job? = some id →
      (t.workers w).claim = (s.workers w).claim) : InPhase t id p := by
  have hfree : Free s id → Free t id := by
    intro hf w hj
    rw [hclaims w (.inr hj)] at hj
    exact hf w hj
  have honly : ∀ w, OnlyBy s w id → OnlyBy t w id := by
    intro w ho w' hj
    rw [hclaims w' (.inr hj)] at hj
    exact ho w' hj
  have hkeep : ∀ w job,
      (s.workers w).claim = .marked id job ∨ (s.workers w).claim = .holding id job →
        (t.workers w).claim = (s.workers w).claim :=
    fun w job h => hclaims w (.inl (Claim.job?_of_eq h))
  cases hp with
  | absent hjob hlock hf => exact .absent (hjobs.trans hjob) (hlocks.trans hlock) (hfree hf)
  | queued job hjob hstatus hzero hlock hf =>
      exact .queued job (hjobs.trans hjob) hstatus hzero (hlocks.trans hlock) (hfree hf)
  | locked w job now hjob hstatus hzero hlock hclaim ho =>
      exact .locked w job now (hjobs.trans hjob) hstatus hzero (hlocks.trans hlock)
        ((hkeep w _ (.inl hclaim)).trans hclaim) (honly w ho)
  | held w job hjob hstatus hone hlock hclaim ho =>
      exact .held w job (hjobs.trans hjob) hstatus hone (hlocks.trans hlock)
        ((hkeep w _ (.inr hclaim)).trans hclaim) (honly w ho)
  | orphaned job hjob hstatus hone hlock hf =>
      exact .orphaned job (hjobs.trans hjob) hstatus hone (hlocks.trans hlock) (hfree hf)
  | settled job hjob hstatus hone hlock hf =>
      exact .settled job (hjobs.trans hjob) hstatus hone (hlocks.trans hlock) (hfree hf)

/-- The claims to a job other than those that `w` gives up and takes stay as they are. -/
theorem claims_of_update {s t : State} {id : Uuid} {w : WorkerId} {pc : Pc}
    (hworkers : t.workers = Function.update s.workers w pc)
    (hs : (s.workers w).claim.job? ≠ some id) (ht : pc.claim.job? ≠ some id) :
    ∀ w', (s.workers w').claim.job? = some id ∨ (t.workers w').claim.job? = some id →
      (t.workers w').claim = (s.workers w').claim := by
  intro w' h
  rw [hworkers] at h ⊢
  by_cases hw : w' = w
  · subst hw
    rw [Function.update_self] at h
    exact absurd h (by simp [hs, ht])
  · rw [Function.update_of_ne hw]

/-- Phases of jobs that a worker has in an open transaction. -/
theorem InPhase.of_marked {s : State} {id : Uuid} {p : Phase} {w : WorkerId} {job : JobQueue}
    (hp : InPhase s id p) (hc : (s.workers w).claim = .marked id job) : p = .locked w := by
  have hj := Claim.job?_of_eq (.inl hc)
  cases hp with
  | absent _ _ hf => exact absurd hj (hf w)
  | queued _ _ _ _ _ hf => exact absurd hj (hf w)
  | orphaned _ _ _ _ _ hf => exact absurd hj (hf w)
  | settled _ _ _ _ _ hf => exact absurd hj (hf w)
  | locked w' _ _ _ _ _ _ _ ho => rw [ho w hj]
  | held w' _ _ _ _ _ hclaim ho =>
      rw [← ho w hj, hc] at hclaim
      exact absurd hclaim (by simp)

/-- Phases of jobs that a worker holds. -/
theorem InPhase.of_holding {s : State} {id : Uuid} {p : Phase} {w : WorkerId} {job : JobQueue}
    (hp : InPhase s id p) (hc : (s.workers w).claim = .holding id job) : p = .held w := by
  have hj := Claim.job?_of_eq (.inr hc)
  cases hp with
  | absent _ _ hf => exact absurd hj (hf w)
  | queued _ _ _ _ _ hf => exact absurd hj (hf w)
  | orphaned _ _ _ _ _ hf => exact absurd hj (hf w)
  | settled _ _ _ _ _ hf => exact absurd hj (hf w)
  | held w' _ _ _ _ _ _ ho => rw [ho w hj]
  | locked w' _ _ _ _ _ _ hclaim ho =>
      rw [← ho w hj, hc] at hclaim
      exact absurd hclaim (by simp)

/-- A job that can be claimed is queued and locked by nobody. -/
theorem InPhase.of_claimable {s : State} {id : Uuid} {p : Phase} {now : Time} {job : JobQueue}
    (hp : InPhase s id p) (hjob : s.db.jobs.get? id = some job) (hc : Claimable s.db now id job) :
    p = .queued := by
  have hrow : ∀ job', s.db.jobs.get? id = some job' → job' = job := by
    intro job' hj
    rw [hjob, Option.some.injEq] at hj
    exact hj.symm
  cases hp with
  | absent hj _ _ => exact absurd (hj.symm.trans hjob) (by simp)
  | queued => rfl
  | locked w _ _ _ _ _ hlock _ _ => exact absurd (hlock.symm.trans hc.2) (by simp)
  | held _ job' hj hstatus _ _ _ _ =>
      rw [hrow job' hj, hc.1.1] at hstatus
      exact absurd hstatus (by decide)
  | orphaned job' hj hstatus _ _ _ =>
      rw [hrow job' hj, hc.1.1] at hstatus
      exact absurd hstatus (by decide)
  | settled job' hj hstatus _ _ _ =>
      rw [hrow job' hj, hc.1.1] at hstatus
      exact absurd hstatus (by decide)

/-- **How the phase of a job moves in one step.** -/
theorem phase_step {s t : State} {id : Uuid} {p : Phase} (he : Effect s t)
    (hp : InPhase s id p) : ∃ p', Phase.Next t p p' ∧ InPhase t id p' := by
  cases he with
  | outside hjobs hlocks hworkers =>
      refine ⟨p, .stay p, hp.frame (by rw [hjobs]) (by rw [hlocks]) ?_⟩
      intro w _
      rw [hworkers]
  | enqueue new job hnew hqueued hzero _ _ hjobs hlocks hworkers =>
      by_cases h : id = new
      · subst h
        cases hp with
        | absent _ hlock hf =>
            refine ⟨.queued, .enqueue, .queued job ?_ hqueued hzero ?_ ?_⟩
            · rw [hjobs, Dict.get?_set_self]
            · rw [hlocks, hlock]
            · intro w
              rw [hworkers]
              exact hf w
        | queued _ hjob | locked _ _ _ hjob | held _ _ hjob | orphaned _ hjob | settled _ hjob =>
            exact absurd (hnew.symm.trans hjob) (by simp)
      · refine ⟨p, .stay p, hp.frame ?_ (by rw [hlocks]) ?_⟩
        · rw [hjobs, Dict.get?_set_ne _ _ h]
        · intro w _
          rw [hworkers]
  | move w pc hworkers hclaim hjobs hlocks =>
      refine ⟨p, .stay p, hp.frame (by rw [hjobs]) (by rw [hlocks]) ?_⟩
      intro w' _
      rw [hworkers]
      by_cases h : w' = w
      · rw [h, Function.update_self, hclaim]
      · rw [Function.update_of_ne h]
  | mark w found job now hidle hmark hjobs hlocks hworkers =>
      by_cases h : id = found
      · subst h
        obtain ⟨row, hrow, hc, rfl⟩ := hmark
        obtain rfl := hp.of_claimable hrow hc
        cases hp with
        | queued row' hjob hstatus hzero hlock hf =>
            refine ⟨.locked w, .lock w, .locked w row' s.db.now ?_ hstatus hzero ?_ ?_ ?_⟩
            · rw [hjobs, hjob]
            · rw [hlocks, Function.update_self]
            · rw [hjob, Option.some.injEq] at hrow
              rw [hworkers, Function.update_self, hrow]
              rfl
            · exact (hf.onlyBy w).of_update hworkers
      · refine ⟨p, .stay p, hp.frame (by rw [hjobs]) ?_ (claims_of_update hworkers ?_ ?_)⟩
        · rw [hlocks, Function.update_of_ne h]
        · rw [hidle]
          simp [Claim.job?]
        · simpa [Pc.claim, Claim.job?] using Ne.symm h
  | abort w found job hclaim hjobs hlocks hworkers =>
      by_cases h : id = found
      · subst h
        obtain rfl := hp.of_marked hclaim
        cases hp with
        | locked _ row now hjob hstatus hzero hlock hclaim' ho =>
            refine ⟨.queued, .abort w, .queued row ?_ hstatus hzero ?_ (.of_update ho hworkers ?_)⟩
            · rw [hjobs, hjob]
            · rw [hlocks, Function.update_self]
            · simp [Pc.claim, Claim.job?]
      · refine ⟨p, .stay p, hp.frame (by rw [hjobs]) ?_ (claims_of_update hworkers ?_ ?_)⟩
        · rw [hlocks, Function.update_of_ne h]
        · rw [hclaim]
          simpa [Claim.job?] using Ne.symm h
        · simp [Pc.claim, Claim.job?]
  | commit w found job hclaim hjobs hlocks hworkers =>
      by_cases h : id = found
      · subst h
        obtain rfl := hp.of_marked hclaim
        cases hp with
        | locked _ row now hjob hstatus hzero hlock hclaim' ho =>
            rw [hclaim, Claim.marked.injEq] at hclaim'
            refine ⟨.held w, .commit w, .held w job ?_ ?_ ?_ ?_ ?_ (ho.of_update hworkers)⟩
            · rw [hjobs, Dict.get?_set_self]
            · rw [hclaim'.2]
              rfl
            · rw [hclaim'.2, markJobRunning, hzero]
            · rw [hlocks, Function.update_self]
            · rw [hworkers, Function.update_self]
              rfl
      · refine ⟨p, .stay p, hp.frame ?_ ?_ (claims_of_update hworkers ?_ ?_)⟩
        · rw [hjobs, Dict.get?_set_ne _ _ h]
        · rw [hlocks, Function.update_of_ne h]
        · rw [hclaim]
          simpa [Claim.job?] using Ne.symm h
        · simpa [Pc.claim, Claim.job?] using Ne.symm h
  | settle w found job outcome now hclaim hjobs hlocks hworkers =>
      by_cases h : id = found
      · subst h
        obtain rfl := hp.of_holding hclaim
        cases hp with
        | held _ row hjob hstatus hone hlock hclaim' ho =>
            refine ⟨.settled, .settle w (by rw [hworkers, Function.update_self]), ?_⟩
            refine .settled (settleJob outcome now row) ?_ ?_ hone ?_ (.of_update ho hworkers ?_)
            · rw [hjobs, Dict.get?_modify, if_pos rfl, hjob]
              rfl
            · cases outcome with
              | succeeded => exact .inl rfl
              | failed e => exact .inr rfl
            · rw [hlocks, hlock]
            · simp [Pc.claim, Claim.job?]
      · refine ⟨p, .stay p, hp.frame ?_ (by rw [hlocks]) (claims_of_update hworkers ?_ ?_)⟩
        · rw [hjobs, Dict.get?_modify, if_neg h]
        · rw [hclaim]
          simpa [Claim.job?] using Ne.symm h
        · simp [Pc.claim, Claim.job?]
  | lose w found job hclaim hjobs hlocks hworkers =>
      by_cases h : id = found
      · subst h
        obtain rfl := hp.of_holding hclaim
        cases hp with
        | held _ row hjob hstatus hone hlock hclaim' ho =>
            refine ⟨.orphaned, .lose w (by rw [hworkers, Function.update_self]), ?_⟩
            refine .orphaned row ?_ hstatus hone ?_ (.of_update ho hworkers ?_)
            · rw [hjobs, hjob]
            · rw [hlocks, hlock]
            · simp [Pc.claim, Claim.job?]
      · refine ⟨p, .stay p, hp.frame (by rw [hjobs]) (by rw [hlocks])
          (claims_of_update hworkers ?_ ?_)⟩
        · rw [hclaim]
          simpa [Claim.job?] using Ne.symm h
        · simp [Pc.claim, Claim.job?]

/-! ## Runs -/

/-- Every job is in a phase. -/
def Orderly (s : State) : Prop := ∀ id, ∃ p, InPhase s id p

theorem orderly_initial : Orderly State.initial :=
  fun _ => ⟨.absent, .absent rfl rfl fun _ => by simp [State.initial, Pc.claim, Claim.job?]⟩

theorem orderly_step (s : State) (a : Action) (t : State) (hs : Orderly s)
    (h : step s a = some t) : Orderly t := by
  intro id
  obtain ⟨p, hp⟩ := hs id
  obtain ⟨p', -, hp'⟩ := phase_step (effect_of_step h) hp
  exact ⟨p', hp'⟩

/-- The job that a worker processes is the row of the table, and is running. -/
theorem Orderly.row_of_holding {s : State} {w : WorkerId} {id : Uuid} {job : JobQueue}
    (hs : Orderly s) (hc : (s.workers w).claim = .holding id job) :
    s.db.jobs.get? id = some job ∧ job.status = .running := by
  obtain ⟨p, hp⟩ := hs id
  obtain rfl := hp.of_holding hc
  cases hp with
  | held _ row hjob hstatus _ _ hclaim =>
      rw [hc, Claim.holding.injEq] at hclaim
      exact hclaim.2 ▸ ⟨hjob, hstatus⟩

/-- No two workers process one job. -/
theorem Orderly.holder_unique {s : State} {w w' : WorkerId} {id : Uuid} {job job' : JobQueue}
    (hs : Orderly s) (hc : (s.workers w).claim = .holding id job)
    (hc' : (s.workers w').claim = .holding id job') : w' = w := by
  obtain ⟨p, hp⟩ := hs id
  obtain rfl := hp.of_holding hc
  cases hp with
  | held _ _ _ _ _ _ _ honly => exact honly w' (Claim.job?_of_eq (.inr hc'))

/-- A row keeps its type and its payload; a new row is a snapshot job with a new payload,
    and the only new one. -/
theorem Orderly.row_of_effect {s t : State} {id : Uuid} {job : JobQueue} (hs : Orderly s)
    (he : Effect s t) (hjob : t.db.jobs.get? id = some job) :
    (∃ row, s.db.jobs.get? id = some row ∧ row.jobType = job.jobType ∧
        row.schemaSnapshotUuid = job.schemaSnapshotUuid) ∨
      (s.db.jobs.get? id = none ∧ job.jobType = "snapshot" ∧
        (∀ id' row, s.db.jobs.get? id' = some row →
          row.schemaSnapshotUuid ≠ job.schemaSnapshotUuid) ∧
        ∀ id' row, t.db.jobs.get? id' = some row → s.db.jobs.get? id' = none → id' = id) := by
  cases he with
  | outside hjobs | move _ _ _ _ hjobs | mark _ _ _ _ _ _ hjobs | abort _ _ _ _ hjobs
  | lose _ _ _ _ hjobs => exact .inl ⟨job, hjobs ▸ hjob, rfl, rfl⟩
  | enqueue new row hnew _ _ htype hfresh hjobs =>
      rw [hjobs, Dict.get?_set] at hjob
      by_cases h : id = new
      · rw [if_pos h, Option.some.injEq] at hjob
        refine .inr ⟨h ▸ hnew, hjob ▸ htype, hjob ▸ hfresh, ?_⟩
        intro id' row' hrow' hnone
        by_contra hne
        rw [hjobs, Dict.get?_set_ne _ _ (h ▸ hne), hnone] at hrow'
        exact absurd hrow' (by simp)
      · rw [if_neg h] at hjob
        exact .inl ⟨job, hjob, rfl, rfl⟩
  | commit w found marked hclaim hjobs =>
      rw [hjobs, Dict.get?_set] at hjob
      by_cases h : id = found
      · rw [if_pos h, Option.some.injEq] at hjob
        subst h hjob
        obtain ⟨p, hp⟩ := hs id
        obtain rfl := hp.of_marked hclaim
        cases hp with
        | locked _ row now hrow _ _ _ hclaim' =>
            rw [hclaim, Claim.marked.injEq] at hclaim'
            exact .inl ⟨row, hrow, by rw [hclaim'.2]; rfl, by rw [hclaim'.2]; rfl⟩
      · rw [if_neg h] at hjob
        exact .inl ⟨job, hjob, rfl, rfl⟩
  | settle w found row outcome now _ hjobs =>
      rw [hjobs, Dict.get?_modify] at hjob
      by_cases h : id = found
      · rw [if_pos h, Option.map_eq_some_iff] at hjob
        obtain ⟨row', hrow', rfl⟩ := hjob
        exact .inl ⟨row', h ▸ hrow', rfl, rfl⟩
      · rw [if_neg h] at hjob
        exact .inl ⟨job, hjob, rfl, rfl⟩

/-- **In every reachable state every job is in a phase.** -/
theorem orderly_of_run {actions : List Action} {s : State}
    (h : run step State.initial actions = some s) : Orderly s :=
  run_invariant orderly_step orderly_initial h

end PgErdCloud.Jobs
