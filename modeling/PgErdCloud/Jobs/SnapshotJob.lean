/-
  The handler of snapshot jobs (app/jobs/snapshot_job.py) and the endpoint that enqueues them
  (`create_snapshot` of app/api/snapshots.py), transaction by transaction.

  A transaction either commits all its writes or, when an exception leaves its block, none.
  A `Fault` is the exception of something outside this code that the transaction meets: a
  lookup, the decryption of the DSN, the redaction of the error message, or the flush and
  commit. The rows of deleted projects, connections and snapshots disappear by
  `ON DELETE CASCADE`, so a job may find its snapshot missing.
-/
import PgErdCloud.Jobs.Queue

namespace PgErdCloud.Jobs

open Lib

/-- An exception from outside the handler's code, with its text. -/
inductive Fault
  | lookup (error : String)
  | decrypt (error : String)
  | sanitise (error : String)
  | commit (error : String)
  deriving DecidableEq, Repr

/-- `str(e)` -/
def Fault.text : Fault → String
  | .lookup e | .decrypt e | .sanitise e | .commit e => e

/-- The next transaction id is used up. -/
def Db.advance (db : Db) : Db := { db with nextTx := db.nextTx + 1 }

/-! ## Enqueueing and deleting -/

/-- The rows `create_snapshot` inserts, in one transaction. `uuid.uuid4` gives ids that no
    row, and no payload, has had before. -/
def createSnapshot (db : Db) (snapshotId jobId dbConnectionUuid : Uuid) : Option Db :=
  if db.snapshots.get? snapshotId = none ∧ db.jobs.get? jobId = none ∧
      (∀ row ∈ db.jobs.items, row.2.schemaSnapshotUuid ≠ snapshotId) ∧
      dbConnectionUuid ∈ db.connections then
    some { db.advance with
      snapshots := db.snapshots.set snapshotId {
        dbConnectionUuid := dbConnectionUuid
        status := .queued
        startedAt := none
        finishedAt := none
        errorMessage := none
        xmin := db.nextTx }
      jobs := db.jobs.set jobId {
        jobType := "snapshot"
        status := .queued
        schemaSnapshotUuid := snapshotId
        runAfter := db.now
        attemptCount := 0
        lastError := none
        startedAt := none
        finishedAt := none } }
  else none

/-- The deletion of snapshots cascades to their data. -/
def deleteSnapshots (db : Db) (doomed : Uuid → SchemaSnapshot → Bool) : Db :=
  { db.advance with
    snapshots := db.snapshots.filter fun id snapshot => !doomed id snapshot
    snapshotData := db.snapshotData.filter fun id _ =>
      !((db.snapshots.get? id).any (doomed id)) }

/-- The deletion of a connection cascades to its snapshots. -/
def deleteConnection (db : Db) (dbConnectionUuid : Uuid) : Db :=
  { deleteSnapshots db fun _ snapshot => snapshot.dbConnectionUuid = dbConnectionUuid with
    connections := db.connections.filter (· ≠ dbConnectionUuid) }

/-! ## The transactions of `handle_snapshot_job` -/

/-- The first transaction: the snapshot is set to running, its connection is loaded and the
    DSN decrypted. -/
def startSnapshot (db : Db) (snapshotId : Uuid) (fault : Option Fault) : Except String Db :=
  match fault, db.snapshots.get? snapshotId with
  | some (.lookup e), _ => .error e
  | _, none => .error "snapshot not found"
  | fault, some snapshot =>
      if snapshot.dbConnectionUuid ∈ db.connections then
        match fault with
        | some fault => .error fault.text
        | none => .ok { db.advance with
            snapshots := db.snapshots.set snapshotId { snapshot with
              status := .running
              startedAt := some db.now
              xmin := db.nextTx } }
      else .error "db connection not found"

/-- The transaction after a failed introspection. It leaves with an exception in any case;
    the result is the database after it and the text of that exception. -/
def failSnapshot (db : Db) (snapshotId : Uuid) (errorMessage : String) (fault : Option Fault) :
    Db × String :=
  match fault, db.snapshots.get? snapshotId with
  | some (.sanitise e), _ => (db, e)
  | some (.lookup e), _ => (db, e)
  | _, none => (db, errorMessage)
  | some fault, some _ => (db, fault.text)
  | none, some snapshot =>
      ({ db.advance with
        snapshots := db.snapshots.set snapshotId { snapshot with
          status := .failed
          errorMessage := some errorMessage
          finishedAt := some db.now
          xmin := db.nextTx } }, errorMessage)

/-- The row that the last transaction leaves in `schema_snapshot_data`. -/
def upsertSnapshotData (existing : Option SchemaSnapshotData) (data : String) (now : Time)
    (tx : TxId) : SchemaSnapshotData :=
  match existing with
  | none => { snapshotJson := data, createdAt := now, xmin := tx }
  | some existing => { existing with snapshotJson := data, xmin := tx }

/-- The last transaction: the snapshot is set to succeeded and its data stored. -/
def finishSnapshot (db : Db) (snapshotId : Uuid) (data : String) (fault : Option Fault) :
    Except String Db :=
  match fault, db.snapshots.get? snapshotId with
  | some (.lookup e), _ => .error e
  | _, none => .error "snapshot not found"
  | some fault, some _ => .error fault.text
  | none, some snapshot => .ok { db.advance with
      snapshots := db.snapshots.set snapshotId { snapshot with
        status := .succeeded
        finishedAt := some db.now
        errorMessage := none
        xmin := db.nextTx }
      snapshotData := db.snapshotData.set snapshotId
        (upsertSnapshotData (db.snapshotData.get? snapshotId) data db.now db.nextTx) }

/-! ## The transactions of the worker on its job -/

/-- How the worker settles a job. -/
inductive Outcome
  | succeeded
  | failed (lastError : String)
  deriving DecidableEq, Repr

/-- The status that a job ends with. -/
def Outcome.status : Outcome → Status
  | .succeeded => .succeeded
  | .failed _ => .failed

/-- The text that a job leaves behind. -/
def Outcome.lastError : Outcome → Option String
  | .succeeded => none
  | .failed e => some e

/-- The claim is committed: the marked row replaces the queued one and its lock is released. -/
def commitClaim (db : Db) (id : Uuid) (marked : JobQueue) : Db :=
  { db.advance.unlock id with jobs := db.jobs.set id marked }

/-- The fields of the job that tell how it ended. -/
def settleJob (outcome : Outcome) (now : Time) (job : JobQueue) : JobQueue :=
  { job with
    status := outcome.status
    lastError := outcome.lastError
    finishedAt := some now }

/-- The outcome is committed. -/
def recordOutcome (db : Db) (id : Uuid) (outcome : Outcome) : Db :=
  { db.advance with jobs := db.jobs.modify id (settleJob outcome db.now) }

end PgErdCloud.Jobs
