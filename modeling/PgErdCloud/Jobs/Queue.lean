/-
  The job queue: the database rows the worker and the snapshot handler read and write
  (app/models.py), the Valkey sorted set of wake-up signals (app/jobs/valkey_queue.py), and
  the two claim queries with what they do to a job (app/jobs/worker.py).

  Rows carry `xmin`, the transaction that wrote them last, as every PostgreSQL row does. A
  row lock taken by `FOR UPDATE` is an entry of `Db.locks`. Metrics are not modelled.
-/
import PgErdCloud.Lib.Dict
import Mathlib.Data.List.MinMax
import Mathlib.Data.List.Sort
import Mathlib.Logic.Function.Basic

namespace PgErdCloud.Jobs

open Lib

/-- Identifiers, which are only compared. -/
abbrev Uuid := Nat

/-- Microseconds since the epoch. -/
abbrev Time := Int

/-- Numbers of transactions. -/
abbrev TxId := Nat

/-- Numbers of workers. -/
abbrev WorkerId := Nat

/-! ## Rows -/

/-- The values of the `status` columns of `job_queue` and `schema_snapshot`. -/
inductive Status
  | queued
  | running
  | succeeded
  | failed
  deriving DecidableEq, Repr

/-- A row of `job_queue`. Its payload is the JSON object with the one key
    `schema_snapshot_uuid`. -/
structure JobQueue where
  jobType : String
  status : Status
  schemaSnapshotUuid : Uuid
  runAfter : Time
  attemptCount : Nat
  lastError : Option String
  startedAt : Option Time
  finishedAt : Option Time
  deriving DecidableEq, Repr

/-- A row of `schema_snapshot`. -/
structure SchemaSnapshot where
  dbConnectionUuid : Uuid
  status : Status
  startedAt : Option Time
  finishedAt : Option Time
  errorMessage : Option String
  xmin : TxId
  deriving DecidableEq, Repr

/-- A row of `schema_snapshot_data`. -/
structure SchemaSnapshotData where
  snapshotJson : String
  createdAt : Time
  xmin : TxId
  deriving DecidableEq, Repr

/-- The committed database, the row locks on `job_queue` that open transactions hold, the
    clock and the next transaction id. -/
structure Db where
  jobs : Dict Uuid JobQueue
  snapshots : Dict Uuid SchemaSnapshot
  snapshotData : Dict Uuid SchemaSnapshotData
  connections : List Uuid
  locks : Uuid → Option WorkerId
  now : Time
  nextTx : TxId

/-- The tables before anything is inserted. -/
def Db.initial : Db where
  jobs := .empty
  snapshots := .empty
  snapshotData := .empty
  connections := []
  locks := fun _ => none
  now := 0
  nextTx := 0

/-- The worker locks the row. -/
def Db.lock (db : Db) (id : Uuid) (w : WorkerId) : Db :=
  { db with locks := Function.update db.locks id (some w) }

/-- The row is free again. -/
def Db.unlock (db : Db) (id : Uuid) : Db :=
  { db with locks := Function.update db.locks id none }

/-! ## Wake-up signals -/

/-- A member of the sorted set with its score. `none` is a member that is not a UUID. -/
structure Signal where
  member : Option Uuid
  score : Time
  deriving DecidableEq, Repr

/-- `ZADD`: a member already present gets the new score. The set is listed by score. -/
def zadd (queue : List Signal) (signal : Signal) : List Signal :=
  (queue.filter fun other => other.member ≠ signal.member).orderedInsert
    (fun a b => a.score ≤ b.score) signal

/-- The script `_POP_DUE_JOB_SCRIPT`: the first member whose score is due is removed and
    returned. -/
def popDueJobScript (queue : List Signal) (current : Time) : Option Signal × List Signal :=
  match queue.find? fun signal => signal.score ≤ current with
  | none => (none, queue)
  | some signal => (some signal, queue.erase signal)

/-- `None` when Valkey is not configured or the call fails, and for a member that is not a
    UUID (which is removed all the same). -/
def popDueJobSignal (reachable : Bool) (queue : List Signal) (current : Time) :
    Option Uuid × List Signal :=
  if reachable then
    let (popped, queue) := popDueJobScript queue current
    (popped.bind Signal.member, queue)
  else (none, queue)

/-! ## Claiming -/

/-- The `WHERE` clause of both claim queries. -/
def Due (now : Time) (job : JobQueue) : Prop :=
  job.status = .queued ∧ job.runAfter ≤ now

instance (now : Time) (job : JobQueue) : Decidable (Due now job) :=
  inferInstanceAs (Decidable (_ ∧ _))

/-- A row that the query returns under `SKIP LOCKED`: due, and not locked by another
    transaction. -/
def Claimable (db : Db) (now : Time) (id : Uuid) (job : JobQueue) : Prop :=
  Due now job ∧ db.locks id = none

instance (db : Db) (now : Time) (id : Uuid) (job : JobQueue) :
    Decidable (Claimable db now id job) :=
  inferInstanceAs (Decidable (_ ∧ _))

/-- The query of `_claim_job_by_id`. -/
def selectJobById (db : Db) (now : Time) (id : Uuid) : Option Uuid :=
  (db.jobs.get? id).bind fun job => if Claimable db now id job then some id else none

/-- The rows that the query of `claim_one_job` ranges over. -/
def claimableJobs (db : Db) (now : Time) : List (Uuid × JobQueue) :=
  db.jobs.items.filter fun row => Claimable db now row.1 row.2

/-- The rows of the result that `ORDER BY run_after ASC` may put first. -/
def earliestJobs (db : Db) (now : Time) : List Uuid :=
  let rows := claimableJobs db now
  (rows.filter fun row => rows.all fun other => row.2.runAfter ≤ other.2.runAfter).map Prod.fst

/-- The query of `claim_one_job`. Among rows with the same `run_after` the database may put
    any first: `tie` if it is one of them. -/
def selectDueJob (db : Db) (now : Time) (tie : Uuid) : Option Uuid :=
  if tie ∈ earliestJobs db now then some tie else (earliestJobs db now).head?

/-- `_mark_job_running` -/
def markJobRunning (job : JobQueue) (now : Time) : JobQueue :=
  { job with
    status := .running
    startedAt := some now
    attemptCount := job.attemptCount + 1 }

/-- What both claim functions do with the id their query returned: load the row and mark it
    as running, in the session only. -/
def loadAndMark (db : Db) (jobId : Option Uuid) : Option (Uuid × JobQueue) :=
  jobId.bind fun id => (db.jobs.get? id).map fun job => (id, markJobRunning job db.now)

/-- `_claim_job_by_id` in a transaction that began at `now`. -/
def claimJobById (db : Db) (now : Time) (id : Uuid) : Option (Uuid × JobQueue) :=
  loadAndMark db (selectJobById db now id)

/-- The fallback of `claim_one_job` in a transaction that began at `now`. -/
def claimDueJob (db : Db) (now : Time) (tie : Uuid) : Option (Uuid × JobQueue) :=
  loadAndMark db (selectDueJob db now tie)

/-! ## What the queries return -/

theorem mem_claimableJobs {db : Db} {now : Time} {id : Uuid} {job : JobQueue} :
    (id, job) ∈ claimableJobs db now ↔
      db.jobs.get? id = some job ∧ Claimable db now id job := by
  rw [claimableJobs, List.mem_filter, Dict.mem_items_iff, decide_eq_true_eq]

theorem selectJobById_eq_some {db : Db} {now : Time} {id found : Uuid} :
    selectJobById db now id = some found ↔
      found = id ∧ ∃ job, db.jobs.get? id = some job ∧ Claimable db now id job := by
  rw [selectJobById, Option.bind_eq_some_iff]
  constructor
  · rintro ⟨job, hjob, hsel⟩
    by_cases h : Claimable db now id job
    · rw [if_pos h, Option.some.injEq] at hsel
      exact ⟨hsel.symm, job, hjob, h⟩
    · rw [if_neg h] at hsel
      exact absurd hsel (by simp)
  · rintro ⟨rfl, job, hjob, h⟩
    exact ⟨job, hjob, if_pos h⟩

theorem mem_earliestJobs {db : Db} {now : Time} {id : Uuid} (h : id ∈ earliestJobs db now) :
    ∃ job, db.jobs.get? id = some job ∧ Claimable db now id job ∧
      ∀ other job', db.jobs.get? other = some job' → Claimable db now other job' →
        job.runAfter ≤ job'.runAfter := by
  rw [earliestJobs, List.mem_map] at h
  obtain ⟨⟨found, job⟩, hm, rfl⟩ := h
  rw [List.mem_filter, List.all_eq_true] at hm
  obtain ⟨hjob, hc⟩ := mem_claimableJobs.mp hm.1
  refine ⟨job, hjob, hc, ?_⟩
  intro other job' hjob' hc'
  exact of_decide_eq_true (hm.2 (other, job') (mem_claimableJobs.mpr ⟨hjob', hc'⟩))

/-- A list with an entry has one with the least `run_after`. -/
theorem exists_earliest {rows : List (Uuid × JobQueue)} (h : rows ≠ []) :
    ∃ row ∈ rows, ∀ other ∈ rows, row.2.runAfter ≤ other.2.runAfter := by
  let runAfter : Uuid × JobQueue → Time := fun row => row.2.runAfter
  obtain ⟨row, hrow⟩ : ∃ row, rows.argmin runAfter = some row :=
    Option.ne_none_iff_exists'.mp (mt List.argmin_eq_none.mp h)
  have hle : ∀ other ∈ rows, runAfter row ≤ runAfter other :=
    fun other ho => List.le_of_mem_argmin ho hrow
  exact ⟨row, List.argmin_mem hrow, hle⟩

/-- The query of `claim_one_job` returns nothing only when there is no due row that is not
    locked. -/
theorem earliestJobs_eq_nil {db : Db} {now : Time} (h : earliestJobs db now = []) {id : Uuid}
    {job : JobQueue} (hjob : db.jobs.get? id = some job) : ¬ Claimable db now id job := by
  intro hc
  have hne : claimableJobs db now ≠ [] :=
    List.ne_nil_of_mem (mem_claimableJobs.mpr ⟨hjob, hc⟩)
  obtain ⟨row, hm, hrow⟩ := exists_earliest hne
  have hfirst : row.1 ∈ earliestJobs db now := by
    rw [earliestJobs, List.mem_map]
    refine ⟨row, List.mem_filter.mpr ⟨hm, List.all_eq_true.mpr ?_⟩, rfl⟩
    exact fun other ho => decide_eq_true (hrow other ho)
  rw [h] at hfirst
  exact absurd hfirst (List.not_mem_nil)

theorem selectDueJob_eq_some {db : Db} {now : Time} {tie id : Uuid}
    (h : selectDueJob db now tie = some id) :
    ∃ job, db.jobs.get? id = some job ∧ Claimable db now id job ∧
      ∀ other job', db.jobs.get? other = some job' → Claimable db now other job' →
        job.runAfter ≤ job'.runAfter := by
  apply mem_earliestJobs
  rw [selectDueJob] at h
  by_cases ht : tie ∈ earliestJobs db now
  · rw [if_pos ht, Option.some.injEq] at h
    exact h ▸ ht
  · rw [if_neg ht] at h
    exact List.mem_of_mem_head? h

theorem selectDueJob_eq_none {db : Db} {now : Time} {tie : Uuid}
    (h : selectDueJob db now tie = none) {id : Uuid} {job : JobQueue}
    (hjob : db.jobs.get? id = some job) : ¬ Claimable db now id job := by
  rw [selectDueJob] at h
  by_cases ht : tie ∈ earliestJobs db now
  · rw [if_pos ht] at h
    exact absurd h (by simp)
  · rw [if_neg ht, List.head?_eq_none_iff] at h
    exact earliestJobs_eq_nil h hjob

/-- A claimed job was due and not locked, and is marked as running in the session. -/
def IsClaim (db : Db) (now : Time) (id : Uuid) (marked : JobQueue) : Prop :=
  ∃ job, db.jobs.get? id = some job ∧ Claimable db now id job ∧ marked = markJobRunning job db.now

theorem claimJobById_eq_some {db : Db} {now : Time} {id found : Uuid} {marked : JobQueue}
    (h : claimJobById db now id = some (found, marked)) :
    found = id ∧ IsClaim db now id marked := by
  rw [claimJobById, loadAndMark, Option.bind_eq_some_iff] at h
  obtain ⟨jobId, hsel, hload⟩ := h
  obtain ⟨rfl, job, hjob, hc⟩ := selectJobById_eq_some.mp hsel
  rw [hjob, Option.map_some, Option.some.injEq, Prod.mk.injEq] at hload
  exact ⟨hload.1.symm, job, hjob, hc, hload.2.symm⟩

theorem claimDueJob_eq_some {db : Db} {now : Time} {tie found : Uuid} {marked : JobQueue}
    (h : claimDueJob db now tie = some (found, marked)) : IsClaim db now found marked := by
  rw [claimDueJob, loadAndMark, Option.bind_eq_some_iff] at h
  obtain ⟨jobId, hsel, hload⟩ := h
  obtain ⟨job, hjob, hc, -⟩ := selectDueJob_eq_some hsel
  rw [hjob, Option.map_some, Option.some.injEq, Prod.mk.injEq] at hload
  obtain ⟨rfl, rfl⟩ := hload
  exact ⟨job, hjob, hc, rfl⟩

/-- The fallback claims nothing only when no due job is unlocked: the row it selected cannot
    be missing when it is loaded. -/
theorem claimDueJob_eq_none {db : Db} {now : Time} {tie : Uuid}
    (h : claimDueJob db now tie = none) {id : Uuid} {job : JobQueue}
    (hjob : db.jobs.get? id = some job) : ¬ Claimable db now id job := by
  cases hsel : selectDueJob db now tie with
  | none => exact selectDueJob_eq_none hsel hjob
  | some found =>
      obtain ⟨job', hjob', -⟩ := selectDueJob_eq_some hsel
      rw [claimDueJob, loadAndMark, hsel, Option.bind_some, hjob'] at h
      exact absurd h (by simp)

end PgErdCloud.Jobs
