/-
  Creating projects and adding members (`create_project` and `add_project_member` of
  app/api/projects.py), any number of requests on one database.

  A request is one transaction. Each statement is a step of its own and sees what is committed
  at that time and what the transaction itself has written; what it writes is visible to others
  with the commit. A statement that meets a row another transaction has written and not yet
  committed waits, which is to say that it is not enabled. A request may fail at any point and
  is rolled back then.
-/
import PgErdCloud.Lib.Machine
import PgErdCloud.Lib.Reservation
import PgErdCloud.Api.Store

namespace PgErdCloud.Projects

open Lib Lib.PyStr Api

/-! ## Tables -/

/-- The roles in a project. -/
inductive ProjectRole
  | owner
  | editor
  | viewer
  deriving DecidableEq

/-- `Literal["viewer", "editor"]` of `ProjectMemberAddIn`. -/
inductive InviteRole
  | viewer
  | editor
  deriving DecidableEq

/-- The role that an invitation gives, which is never that of an owner. -/
def InviteRole.role : InviteRole → ProjectRole
  | .viewer => .viewer
  | .editor => .editor

/-- A row of `project_space`. -/
structure ProjectSpace where
  projectName : Str
  createdByUserUuid : Uuid
  deriving DecidableEq

/-- The users by their subject, the projects by uuid, the members by project and user. -/
structure Tables where
  users : Dict Str Uuid
  projects : Dict Uuid ProjectSpace
  members : Dict (Uuid × Uuid) ProjectRole

/-! ## Requests -/

/-- The body of a request that adds a member. -/
structure ProjectMemberAddIn where
  memberSubject : Str
  projectRole : InviteRole
  deriving DecidableEq

/-- What the two endpoints answer with. -/
inductive Response
  | project (projectSpaceUuid : Uuid) (projectName : Str)
  | member (userAccountUuid : Uuid) (memberSubject : Str) (projectRole : ProjectRole)
  deriving DecidableEq

/-- A user that `_ensure_user_exists` found, or inserted in this transaction. -/
structure Invited where
  userAccountUuid : Uuid
  subject : Str
  isNew : Bool
  deriving DecidableEq

/-- Where a request is, with what it has written. -/
inductive Pc
  /-- `create_project` before its first statement -/
  | creating (user : Uuid) (projectName : Str)
  /-- The project is inserted. -/
  | flushed (project : Uuid) (space : ProjectSpace)
  /-- `add_project_member` before `_ensure_owner` -/
  | authorizing (project user : Uuid) (body : ProjectMemberAddIn)
  | resolving (project : Uuid) (subject : Str) (role : InviteRole)
  /-- No user has the subject. -/
  | inserting (project : Uuid) (subject : Str) (role : InviteRole)
  | guarding (project : Uuid) (invited : Invited) (role : InviteRole)
  | upserting (project : Uuid) (invited : Invited) (role : InviteRole)
  /-- The membership is written. -/
  | upserted (project : Uuid) (invited : Invited) (role : InviteRole)
  | finished (result : Except HttpError Response)

/-- The project that a transaction has inserted and not committed. -/
def Pc.pendingProject : Pc → Option Uuid
  | .flushed project _ => some project
  | _ => none

/-- The user that it has inserted. -/
def Pc.pendingUser : Pc → Option Invited
  | .guarding _ invited _ | .upserting _ invited _ | .upserted _ invited _ =>
      if invited.isNew then some invited else none
  | _ => none

/-- The membership that it has written. -/
def Pc.pendingMember : Pc → Option (Uuid × Uuid)
  | .upserted project invited _ => some (project, invited.userAccountUuid)
  | _ => none

/-- `str(sanitize_for_storage(text))` -/
def sanitizeForStorage (text : Str) : Str := text.filter (· ≠ '\x00')

/-- The committed tables, and how far each request has come. -/
structure State where
  tables : Tables
  requests : Dict Nat Pc

/-- A start with any users. -/
def State.initial (users : Dict Str Uuid) : State := ⟨⟨users, .empty, .empty⟩, .empty⟩

/-- A request comes to another place. -/
def State.goto (s : State) (r : Nat) (pc : Pc) : State :=
  { s with requests := s.requests.set r pc }

/-- A request ends with an error. -/
def State.fail (s : State) (r : Nat) (error : HttpError) : State :=
  s.goto r (.finished (.error error))

/-! ## Steps -/

/-- The next statement of request `r`, with the uuid that it may generate; `none` while it has
    to wait. -/
def statement (s : State) (r : Nat) (fresh : Uuid) : Pc → Option State
  | .creating user projectName =>
      if blocked s.requests r fun pc => pc.pendingProject = some fresh then none
      else if fresh ∈ s.tables.projects.keys ∨ user ∉ s.tables.users.values then
        some (s.fail r internalError)
      else some (s.goto r (.flushed fresh ⟨sanitizeForStorage projectName, user⟩))
  | .flushed project space =>
      if (project, space.createdByUserUuid) ∈ s.tables.members.keys then
        some (s.fail r internalError)
      else
        let tables := { s.tables with
          projects := s.tables.projects.set project space
          members := s.tables.members.set (project, space.createdByUserUuid) .owner }
        some ({ s with tables := tables }.goto r
          (.finished (.ok (.project project space.projectName))))
  | .authorizing project user body =>
      if s.tables.members.get? (project, user) ≠ some .owner then
        some (s.fail r ⟨403, "owner role required".toList⟩)
      else
        let subject := strip (sanitizeForStorage body.memberSubject)
        if subject = [] then some (s.fail r ⟨400, "member_subject required".toList⟩)
        else some (s.goto r (.resolving project subject body.projectRole))
  | .resolving project subject role =>
      match s.tables.users.get? subject with
      | some user => some (s.goto r (.guarding project ⟨user, subject, false⟩ role))
      | none => some (s.goto r (.inserting project subject role))
  | .inserting project subject role =>
      let same (other : Invited) : Bool :=
        other.subject = subject || other.userAccountUuid = fresh
      if blocked s.requests r fun pc => pc.pendingUser.any same then none
      else if subject ∈ s.tables.users.keys ∨ fresh ∈ s.tables.users.values then
        some (s.fail r internalError)
      else some (s.goto r (.guarding project ⟨fresh, subject, true⟩ role))
  | .guarding project invited role =>
      if s.tables.members.get? (project, invited.userAccountUuid) = some .owner then
        some (s.fail r ⟨400, "cannot change owner role via invite endpoint".toList⟩)
      else some (s.goto r (.upserting project invited role))
  | .upserting project invited role =>
      if blocked s.requests r fun pc =>
          pc.pendingMember = some (project, invited.userAccountUuid) then
        none
      else if project ∉ s.tables.projects.keys ∨
          (invited.isNew = false ∧ invited.userAccountUuid ∉ s.tables.users.values) then
        some (s.fail r internalError)
      else some (s.goto r (.upserted project invited role))
  | .upserted project invited role =>
      let tables := { s.tables with
        users := if invited.isNew then s.tables.users.set invited.subject invited.userAccountUuid
          else s.tables.users
        members := s.tables.members.set (project, invited.userAccountUuid) role.role }
      some ({ s with tables := tables }.goto r
        (.finished (.ok (.member invited.userAccountUuid invited.subject role.role))))
  | .finished _ => none

/-- What can happen next: a request comes in, or one under way goes a step further or breaks off. -/
inductive Action
  | createProject (r : Nat) (user : Uuid) (projectName : Str)
  | addProjectMember (r : Nat) (project user : Uuid) (body : ProjectMemberAddIn)
  | next (r : Nat) (fresh : Uuid)
  /-- An error or a cancellation; the transaction is rolled back. -/
  | abort (r : Nat)

/-- One step of one request. -/
def step (s : State) : Action → Option State
  | .createProject r user projectName =>
      if r ∈ s.requests.keys then none else some (s.goto r (.creating user projectName))
  | .addProjectMember r project user body =>
      if r ∈ s.requests.keys then none else some (s.goto r (.authorizing project user body))
  | .next r fresh => (s.requests.get? r).bind (statement s r fresh)
  | .abort r =>
      match s.requests.get? r with
      | none | some (.finished _) => none
      | some _ => some (s.fail r internalError)

end PgErdCloud.Projects
