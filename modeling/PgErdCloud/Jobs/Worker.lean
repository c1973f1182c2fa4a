/-
  The worker loop (`run_worker_forever` of app/jobs/worker.py, started and cancelled by the
  application's lifespan in app/main.py), any number of workers on one database.

  Every await at which another task or process can get its turn is a program point of its
  own. The claim transaction spans several: the lock is taken by the query, and the mark is
  visible to others only after the commit. Each other transaction is one step. A worker stops
  when it is cancelled, at any program point, and when an exception leaves the loop (a
  database error in the claim, or in the commit that records a failed job); an open
  transaction is rolled back then. A stopped worker may be started again.
-/
import PgErdCloud.Lib.Machine
import PgErdCloud.Jobs.SnapshotJob

namespace PgErdCloud.Jobs

open Lib

/-- The job types with a handler (`handlers` in the lifespan). -/
def handlers : List String := ["snapshot"]

/-! ## States -/

/-- Where a worker is in its loop, with the local variables that are in use there. -/
inductive Pc
  | stopped
  /-- At the top of the loop. -/
  | polling
  /-- A signal was popped. -/
  | signalled (signal : Uuid)
  /-- Before the fallback query. `txNow` is the `now()` of the transaction, if it has begun. -/
  | scanning (txNow : Option Time)
  /-- The job is locked, and marked as running in the session. -/
  | marked (id : Uuid) (job : JobQueue)
  /-- `claim_one_job` returned `None`. -/
  | sleeping
  | dispatching (id : Uuid) (job : JobQueue)
  /-- The handler before its first transaction. -/
  | preparing (id : Uuid) (job : JobQueue)
  | introspecting (id : Uuid) (job : JobQueue)
  /-- The introspection failed. -/
  | failing (id : Uuid) (job : JobQueue) (errorMessage : String)
  /-- The introspection returned `data`. -/
  | saving (id : Uuid) (job : JobQueue) (data : String)
  /-- The handler has returned or raised. -/
  | recording (id : Uuid) (job : JobQueue) (outcome : Outcome)
  deriving DecidableEq, Repr

/-- The whole system. -/
structure State where
  db : Db
  signals : List Signal
  workers : WorkerId → Pc

/-- No jobs, no signals, and no worker runs. -/
def State.initial : State where
  db := .initial
  signals := []
  workers := fun _ => .stopped

/-- A worker comes to another place. -/
def State.goto (s : State) (w : WorkerId) (pc : Pc) : State :=
  { s with workers := Function.update s.workers w pc }

/-- The tables are written. -/
def State.withDb (s : State) (db : Db) : State := { s with db := db }

@[simp] theorem State.goto_db (s : State) (w : WorkerId) (pc : Pc) : (s.goto w pc).db = s.db := rfl

@[simp] theorem State.goto_workers (s : State) (w : WorkerId) (pc : Pc) :
    (s.goto w pc).workers = Function.update s.workers w pc := rfl

@[simp] theorem State.withDb_db (s : State) (db : Db) : (s.withDb db).db = db := rfl

/-! ## Steps -/

/-- The next thing a worker does, with what comes back from outside. -/
inductive Move
  /-- `pop_due_job_signal` -/
  | pop (reachable : Bool)
  /-- `_claim_job_by_id` -/
  | claimById
  /-- The fallback query of `claim_one_job`; `tie` breaks a tie in `run_after`. -/
  | claimDue (tie : Uuid)
  /-- The claim transaction commits. -/
  | commit
  /-- The sleep is over. -/
  | wake
  /-- The handler is looked up. -/
  | dispatch
  /-- The first transaction of the handler. -/
  | prepare (fault : Option Fault)
  /-- `introspect_database` returns data or raises; the text is redacted. -/
  | introspect (result : Except String String)
  /-- The transaction after a failed introspection. -/
  | fail (fault : Option Fault)
  /-- The last transaction of the handler. -/
  | save (fault : Option Fault)
  /-- The transaction that settles the job; it may fail. -/
  | record (fault : Option Fault)
  deriving DecidableEq

/-- One move of worker `w`; `none` when it is not at the program point of that move. -/
def workerStep (s : State) (w : WorkerId) : Pc → Move → Option State
  | .polling, .pop reachable =>
      let (signal, signals) := popDueJobSignal reachable s.signals s.db.now
      match signal with
      | none => some ({ s with signals := signals }.goto w (.scanning none))
      | some signal => some ({ s with signals := signals }.goto w (.signalled signal))
  | .signalled signal, .claimById =>
      match claimJobById s.db s.db.now signal with
      | none => some (s.goto w (.scanning (some s.db.now)))
      | some (id, job) => some ((s.withDb (s.db.lock id w)).goto w (.marked id job))
  | .scanning txNow, .claimDue tie =>
      match claimDueJob s.db (txNow.getD s.db.now) tie with
      | none => some (s.goto w .sleeping)
      | some (id, job) => some ((s.withDb (s.db.lock id w)).goto w (.marked id job))
  | .marked id job, .commit =>
      some ((s.withDb (commitClaim s.db id job)).goto w (.dispatching id job))
  | .sleeping, .wake => some (s.goto w .polling)
  | .dispatching id job, .dispatch =>
      if job.jobType ∈ handlers then some (s.goto w (.preparing id job))
      else some (s.goto w (.recording id job (.failed s!"Unknown job_type: {job.jobType}")))
  | .preparing id job, .prepare fault =>
      match startSnapshot s.db job.schemaSnapshotUuid fault with
      | .ok db => some ((s.withDb db).goto w (.introspecting id job))
      | .error e => some (s.goto w (.recording id job (.failed e)))
  | .introspecting id job, .introspect result =>
      match result with
      | .ok data => some (s.goto w (.saving id job data))
      | .error e => some (s.goto w (.failing id job e))
  | .failing id job errorMessage, .fail fault =>
      let (db, e) := failSnapshot s.db job.schemaSnapshotUuid errorMessage fault
      some ((s.withDb db).goto w (.recording id job (.failed e)))
  | .saving id job data, .save fault =>
      match finishSnapshot s.db job.schemaSnapshotUuid data fault with
      | .ok db => some ((s.withDb db).goto w (.recording id job .succeeded))
      | .error e => some (s.goto w (.recording id job (.failed e)))
  | .recording id job outcome, .record fault =>
      match fault, outcome with
      | none, outcome => some ((s.withDb (recordOutcome s.db id outcome)).goto w .polling)
      -- the `except` branch settles a job whose success could not be recorded
      | some fault, .succeeded => some (s.goto w (.recording id job (.failed fault.text)))
      | some _, .failed _ => some (s.goto w .stopped)
  | _, _ => none

/-- The database after the open transaction of a worker at `pc` is rolled back. -/
def rollback (db : Db) : Pc → Db
  | .marked id _ => db.unlock id
  | _ => db

/-- What can happen next: a worker is started, stops or moves, or something around the
    workers happens. -/
inductive Action
  | start (w : WorkerId)
  | stop (w : WorkerId)
  | work (w : WorkerId) (move : Move)
  | tick (now : Time)
  /-- Signals are lost, duplicated or left over in any way. -/
  | drift (signals : List Signal)
  | createSnapshot (snapshotId jobId dbConnectionUuid : Uuid)
  | addConnection (dbConnectionUuid : Uuid)
  | deleteConnection (dbConnectionUuid : Uuid)
  | deleteSnapshot (snapshotId : Uuid)

/-- One step of the system: a worker starts, stops (which rolls its transaction back) or works, or
    something happens outside of the workers. -/
def step (s : State) : Action → Option State
  | .start w =>
      if s.workers w = .stopped then some (s.goto w .polling) else none
  | .stop w =>
      if s.workers w = .stopped then none
      else some ((s.withDb (rollback s.db (s.workers w))).goto w .stopped)
  | .work w move => workerStep s w (s.workers w) move
  | .tick now => some (s.withDb { s.db with now := now })
  | .drift signals => some { s with signals := signals }
  | .createSnapshot snapshotId jobId dbConnectionUuid =>
      (createSnapshot s.db snapshotId jobId dbConnectionUuid).map fun db =>
        { s.withDb db with
          signals := zadd s.signals { member := some jobId, score := s.db.now } }
  | .addConnection dbConnectionUuid =>
      some (s.withDb { s.db with connections := dbConnectionUuid :: s.db.connections })
  | .deleteConnection dbConnectionUuid =>
      some (s.withDb (deleteConnection s.db dbConnectionUuid))
  | .deleteSnapshot snapshotId =>
      some (s.withDb (deleteSnapshots s.db fun id _ => id = snapshotId))

end PgErdCloud.Jobs
