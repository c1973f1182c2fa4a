/-
  What the snapshot and share endpoints read of the database, and the membership check
  (app/permissions.py). A request reads one committed state.
-/
import PgErdCloud.Lib.Dict
import PgErdCloud.Lib.Json

namespace PgErdCloud.Api

open Lib Lib.PyStr

/-- Identifiers, which are only compared. -/
abbrev Uuid := Nat

/-! ## Rows -/

/-- A row of `schema_snapshot`. -/
structure SchemaSnapshot where
  projectSpaceUuid : Uuid
  status : Str
  schemaFilter : Option Str
  errorMessage : Option Str
  deriving DecidableEq

/-- A row of `table_annotation`. -/
structure TableAnnotation where
  projectSpaceUuid : Uuid
  schemaName : Str
  relationName : Str
  body : Str
  deriving DecidableEq

/-- A row of `share_link`. -/
structure ShareLink where
  projectSpaceUuid : Uuid
  permissionKind : Str
  expiresAt : Option Int
  deriving DecidableEq

/-- The tables, by primary key: members by project and user with their role, the snapshots and
    the snapshot JSON by the uuid of the snapshot. -/
structure Db where
  members : Dict (Uuid × Uuid) Str
  snapshots : Dict Uuid SchemaSnapshot
  snapshotData : Dict Uuid Json
  annotations : List TableAnnotation
  shareLinks : Dict Uuid ShareLink

/-! ## Errors -/

/-- An `HTTPException`. -/
structure HttpError where
  statusCode : Nat
  detail : Str
  deriving DecidableEq

/-- The response to an exception that no handler catches. -/
def internalError : HttpError := ⟨500, "Internal Server Error".toList⟩

/-! ## Membership -/

/-- `_ROLE_RANK` -/
def roleRank (role : Str) : Option Int :=
  if role = "viewer".toList then some 0
  else if role = "editor".toList then some 1
  else if role = "owner".toList then some 2
  else none

/-- `require_project_member`: the role of the user, where it is not below the required one. -/
def requireProjectMember (db : Db) (projectSpaceUuid userAccountUuid : Uuid)
    (minimumRole : Option Str) : Except HttpError Str :=
  match db.members.get? (projectSpaceUuid, userAccountUuid) with
  | none => .error ⟨403, "project access denied".toList⟩
  | some role =>
      match minimumRole with
      | none => .ok role
      | some minimum =>
          if (roleRank role).getD (-1) < (roleRank minimum).getD 999 then
            .error ⟨403, "insufficient project role".toList⟩
          else .ok role

end PgErdCloud.Api
