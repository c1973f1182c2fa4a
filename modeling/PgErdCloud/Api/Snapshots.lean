/-
  The read endpoints of snapshots (app/api/snapshots.py). What they compute from the snapshot
  JSON is given by `Generators`: diffs, SQL, reports, specifications and the drafts of the
  language model. The results about the endpoints hold for any generators.
-/
import PgErdCloud.Api.Store

namespace PgErdCloud.Api

open Lib Lib.PyStr

/-! ## Generators -/

/-- The analyzers whose report is returned as it is. -/
inductive Report
  | wideTables (warnThreshold infoThreshold : Nat)
  | schemaStats
  | fkCycles
  | sensitiveColumns
  | auditColumns
  | constraintInventory
  | indexRedundancy
  | namingLint
  deriving DecidableEq

/-- The three object-relational mappers. -/
inductive Flavor
  | sqlalchemy
  | prisma
  | typeorm
  deriving DecidableEq

/-- Which way a migration goes. -/
inductive Direction
  | up
  | down
  deriving DecidableEq

/-- How a specification is asked for: as a text, as a prompt, or drafted by a model. -/
inductive SpecMode
  | markdown
  | llmPrompt
  | llmDraft
  deriving DecidableEq

/-- The two specifications that a language model can draft. -/
inductive Spec
  | reversing
  | indexDesign
  deriving DecidableEq

/-- The kinds of failure of a draft, which the endpoint tells apart. -/
inductive LlmError
  | configuration
  | provider
  | other
  deriving DecidableEq

/-- The functions of the snapshot JSON that the endpoints call. A result is an error where the
    function raises. -/
structure Generators (Out : Type) where
  inferRelationships : Json → Except HttpError (List Out)
  diffSnapshots : Option Json → Option Json → Except HttpError Out
  analyzeMigrationSafety : Option Json → Option Json → Except HttpError Out
  snapshotDiffToMigrationSql : Option Json → Option Json → Str → Except HttpError Str
  snapshotJsonToSql : Json → Str → Except HttpError Str
  report : Report → Option Json → Except HttpError Out
  ormModels : Flavor → Json → Except HttpError Str
  dataDictionary : Json → List (Str × Str × Str) → Except HttpError Str
  spec : Spec → SpecMode → Json → Except HttpError Str
  llmDraft : Spec → Json → Except LlmError Str

/-! ## Requests and responses -/

/-- The requests about the snapshots of a project. -/
inductive Request
  | getSnapshot (schemaSnapshotUuid : Uuid)
  | inferredRelationships (schemaSnapshotUuid : Uuid)
  | diffSnapshot (schemaSnapshotUuid against : Uuid)
  | migrationSafety (schemaSnapshotUuid against : Uuid)
  | exportMigrationSql (schemaSnapshotUuid against : Uuid) (dialect : Str) (direction : Direction)
  | exportSnapshotSql (schemaSnapshotUuid : Uuid) (dialect : Str)
  | report (kind : Report) (schemaSnapshotUuid : Uuid)
  | exportOrmModels (schemaSnapshotUuid : Uuid) (flavor : Flavor)
  | exportDataDictionary (schemaSnapshotUuid : Uuid)
  | exportSpec (spec : Spec) (schemaSnapshotUuid : Uuid) (mode : SpecMode)

/-- The bodies of the responses. -/
inductive Body (Out : Type)
  | snapshotDetail (schemaSnapshotUuid : Uuid) (status : Str)
      (schemaFilter errorMessage : Option Str) (snapshotJson : Option Json)
  | relationships (items : List Out)
  | comparison (baseSnapshotUuid targetSnapshotUuid : Uuid) (status : Str) (result : Option Out)
  | report (schemaSnapshotUuid : Uuid) (status : Str) (report : Option Out)
  | text (content : Str)

/-! ## Endpoints -/

/-- `_get_authorized_snapshot` -/
def getAuthorizedSnapshot (db : Db) (schemaSnapshotUuid user : Uuid) :
    Except HttpError (Option SchemaSnapshot) :=
  match (db.snapshots.get? schemaSnapshotUuid).map SchemaSnapshot.projectSpaceUuid with
  | none => .ok none
  | some projectSpaceUuid =>
      match requireProjectMember db projectSpaceUuid user none with
      | .error exc => if exc.statusCode = 403 then .ok none else .error exc
      | .ok _ => .ok (db.snapshots.get? schemaSnapshotUuid)

variable {Out : Type} (gen : Generators Out) (db : Db) (user : Uuid)

/-- The response model admits an object or `None` as the snapshot JSON. -/
def getSnapshot (schemaSnapshotUuid : Uuid) : Except HttpError (Body Out) := do
  match ← getAuthorizedSnapshot db schemaSnapshotUuid user with
  | none => pure (.snapshotDetail schemaSnapshotUuid "not_found".toList none
      (some "snapshot not found".toList) none)
  | some snap =>
      let detail snapshotJson : Body Out := .snapshotDetail schemaSnapshotUuid snap.status
        snap.schemaFilter snap.errorMessage snapshotJson
      match db.snapshotData.get? schemaSnapshotUuid with
      | none | some .null => pure (detail none)
      | some (.obj members) => pure (detail (some (.obj members)))
      | some _ => .error internalError

/-- `inferred_relationships`: no relationships where there is no snapshot to see. -/
def inferredRelationships (schemaSnapshotUuid : Uuid) : Except HttpError (Body Out) := do
  match ← getAuthorizedSnapshot db schemaSnapshotUuid user with
  | none => pure (.relationships [])
  | some _ =>
      match db.snapshotData.get? schemaSnapshotUuid with
      | none => pure (.relationships [])
      | some data => return .relationships (← gen.inferRelationships data)

/-- `diff_snapshot` and `migration_safety`. -/
def compareSnapshots (compare : Option Json → Option Json → Except HttpError Out)
    (schemaSnapshotUuid against : Uuid) : Except HttpError (Body Out) := do
  let targetSnap ← getAuthorizedSnapshot db schemaSnapshotUuid user
  let baseSnap ← getAuthorizedSnapshot db against user
  if targetSnap = none ∨ baseSnap = none then
    pure (.comparison against schemaSnapshotUuid "not_found".toList none)
  else
    let result ← compare (db.snapshotData.get? against) (db.snapshotData.get? schemaSnapshotUuid)
    pure (.comparison against schemaSnapshotUuid "ok".toList (some result))

/-- `diff_snapshot` -/
def diffSnapshot (schemaSnapshotUuid against : Uuid) : Except HttpError (Body Out) :=
  compareSnapshots db user gen.diffSnapshots schemaSnapshotUuid against

/-- `migration_safety` -/
def migrationSafety (schemaSnapshotUuid against : Uuid) : Except HttpError (Body Out) :=
  compareSnapshots db user gen.analyzeMigrationSafety schemaSnapshotUuid against

/-- The down migration is the up migration with base and target exchanged. -/
def exportMigrationSql (schemaSnapshotUuid against : Uuid) (dialect : Str)
    (direction : Direction) : Except HttpError (Body Out) := do
  let targetSnap ← getAuthorizedSnapshot db schemaSnapshotUuid user
  let baseSnap ← getAuthorizedSnapshot db against user
  if targetSnap = none ∨ baseSnap = none then pure (.text "-- snapshot not found\n".toList)
  else
    let baseJson := db.snapshotData.get? against
    let targetJson := db.snapshotData.get? schemaSnapshotUuid
    match direction with
    | .up => return .text (← gen.snapshotDiffToMigrationSql baseJson targetJson dialect)
    | .down => return .text (← gen.snapshotDiffToMigrationSql targetJson baseJson dialect)

/-- The endpoints of the analyzers. -/
def reportSnapshot (kind : Report) (schemaSnapshotUuid : Uuid) : Except HttpError (Body Out) := do
  match ← getAuthorizedSnapshot db schemaSnapshotUuid user with
  | none => pure (.report schemaSnapshotUuid "not_found".toList none)
  | some _ =>
      let report ← gen.report kind (db.snapshotData.get? schemaSnapshotUuid)
      pure (.report schemaSnapshotUuid "ok".toList (some report))

/-- A text made from the snapshot and its JSON, with the texts for a missing snapshot and for
    missing data. -/
def exportText (notFound noData : Str) (schemaSnapshotUuid : Uuid)
    (render : SchemaSnapshot → Json → Except HttpError Str) : Except HttpError (Body Out) := do
  match ← getAuthorizedSnapshot db schemaSnapshotUuid user with
  | none => pure (.text notFound)
  | some snap =>
      match db.snapshotData.get? schemaSnapshotUuid with
      | none => pure (.text noData)
      | some data => return .text (← render snap data)

/-- `export_snapshot_sql`: comments instead of an error where there is nothing to export. -/
def exportSnapshotSql (schemaSnapshotUuid : Uuid) (dialect : Str) : Except HttpError (Body Out) :=
  exportText db user "-- snapshot not found\n".toList "-- snapshot data not found\n".toList
    schemaSnapshotUuid fun _ data => gen.snapshotJsonToSql data dialect

/-- `export_orm_models` -/
def exportOrmModels (schemaSnapshotUuid : Uuid) (flavor : Flavor) : Except HttpError (Body Out) :=
  exportText db user "-- snapshot not found\n".toList "-- snapshot data not found\n".toList
    schemaSnapshotUuid fun _ data => gen.ormModels flavor data

/-- The annotations of the project of the snapshot go into its data dictionary. -/
def exportDataDictionary (schemaSnapshotUuid : Uuid) : Except HttpError (Body Out) :=
  exportText db user "-- snapshot not found\n".toList "-- snapshot data not found\n".toList
    schemaSnapshotUuid fun snap data =>
      let rows := db.annotations.filter (·.projectSpaceUuid = snap.projectSpaceUuid)
      gen.dataDictionary data (rows.map fun a => (a.schemaName, a.relationName, a.body))

/-- The HTTP error of a draft that fails. -/
def llmHttpError : LlmError → HttpError
  | .configuration => ⟨503, "LLM configuration error".toList⟩
  | .provider => ⟨502, "LLM provider request failed".toList⟩
  | .other => internalError

/-- A specification, its prompt, or a draft of it. -/
def renderSpec (spec : Spec) (mode : SpecMode) (data : Json) : Except HttpError Str :=
  match mode with
  | .llmDraft => (gen.llmDraft spec data).mapError llmHttpError
  | .markdown | .llmPrompt => gen.spec spec mode data

/-- The heading of a specification. -/
def Spec.title : Spec → Str
  | .reversing => "# DB Reversing Specification".toList
  | .indexDesign => "# ERD Index Design".toList

/-- `export_snapshot_reversing_spec` and `export_snapshot_index_design`. -/
def exportSpec (spec : Spec) (schemaSnapshotUuid : Uuid) (mode : SpecMode) :
    Except HttpError (Body Out) :=
  exportText db user (spec.title ++ "\n\nSnapshot not found.\n".toList)
    (spec.title ++ "\n\nSnapshot data not found.\n".toList) schemaSnapshotUuid fun _ data =>
      renderSpec gen spec mode data

/-- The endpoint of each request. -/
def respond : Request → Except HttpError (Body Out)
  | .getSnapshot id => getSnapshot db user id
  | .inferredRelationships id => inferredRelationships gen db user id
  | .diffSnapshot id against => diffSnapshot gen db user id against
  | .migrationSafety id against => migrationSafety gen db user id against
  | .exportMigrationSql id against dialect direction =>
      exportMigrationSql gen db user id against dialect direction
  | .exportSnapshotSql id dialect => exportSnapshotSql gen db user id dialect
  | .report kind id => reportSnapshot gen db user kind id
  | .exportOrmModels id flavor => exportOrmModels gen db user id flavor
  | .exportDataDictionary id => exportDataDictionary gen db user id
  | .exportSpec spec id mode => exportSpec gen db user spec id mode

end PgErdCloud.Api
