/-
  Tenant noninterference. What the read endpoints answer to a user is determined by the user's
  memberships and the rows of the user's projects: every endpoint reads a snapshot through
  `getAuthorizedSnapshot`, and the other rows only for a snapshot that it returned.

  `tenant_noninterference` says so for all generators, users and requests and any two databases
  that agree on the user's memberships and rows; a snapshot that is missing and one of another
  project are answered alike.
-/
import PgErdCloud.Api.Snapshots

namespace PgErdCloud.Api

open Lib Lib.PyStr

/-! ## What a user may see -/

/-- The user has some role in the project. -/
def Db.IsMember (db : Db) (user projectSpaceUuid : Uuid) : Prop :=
  db.members.get? (projectSpaceUuid, user) ≠ none

instance (db : Db) (user : Uuid) : DecidablePred (db.IsMember user) :=
  fun _ => inferInstanceAs (Decidable (_ ≠ _))

/-- The two states agree on the memberships of the user and on the rows of the user's
    projects. -/
structure AgreeFor (user : Uuid) (d d' : Db) : Prop where
  members : ∀ project, d.members.get? (project, user) = d'.members.get? (project, user)
  snapshots : ∀ id snap, d.IsMember user snap.projectSpaceUuid →
    (d.snapshots.get? id = some snap ↔ d'.snapshots.get? id = some snap)
  snapshotData : ∀ id snap, d.IsMember user snap.projectSpaceUuid →
    d.snapshots.get? id = some snap → d.snapshotData.get? id = d'.snapshotData.get? id
  annotations : ∀ project, d.IsMember user project →
    d.annotations.filter (·.projectSpaceUuid = project) =
      d'.annotations.filter (·.projectSpaceUuid = project)

theorem AgreeFor.isMember_iff {user : Uuid} {d d' : Db} (h : AgreeFor user d d') (project : Uuid) :
    d.IsMember user project ↔ d'.IsMember user project := by
  unfold Db.IsMember
  rw [h.members]

/-- The snapshot, if the user is a member of its project. -/
def Db.visible (db : Db) (user id : Uuid) : Option SchemaSnapshot :=
  (db.snapshots.get? id).filter fun snap => db.IsMember user snap.projectSpaceUuid

theorem requireProjectMember_none (db : Db) (project user : Uuid) :
    requireProjectMember db project user none =
      match db.members.get? (project, user) with
      | none => .error ⟨403, "project access denied".toList⟩
      | some role => .ok role := by
  unfold requireProjectMember
  cases db.members.get? (project, user) <;> rfl

/-- A missing snapshot and one of another project have the same result. -/
theorem getAuthorizedSnapshot_eq (db : Db) (id user : Uuid) :
    getAuthorizedSnapshot db id user = .ok (db.visible user id) := by
  unfold getAuthorizedSnapshot Db.visible Db.IsMember
  cases hsnap : db.snapshots.get? id with
  | none => rfl
  | some snap =>
      simp only [Option.map_some, requireProjectMember_none]
      cases hrole : db.members.get? (snap.projectSpaceUuid, user) with
      | none => simp [Option.filter_some, hrole]
      | some role => simp [Option.filter_some, hrole]

theorem visible_eq_some {db : Db} {user id : Uuid} {snap : SchemaSnapshot}
    (h : db.visible user id = some snap) :
    db.snapshots.get? id = some snap ∧ db.IsMember user snap.projectSpaceUuid := by
  unfold Db.visible at h
  rw [Option.filter_eq_some_iff, decide_eq_true_eq] at h
  exact h

/-! ## Two runs -/

section
variable {user : Uuid} {d d' : Db} (h : AgreeFor user d d')
include h

theorem visible_eq (id : Uuid) : d.visible user id = d'.visible user id := by
  apply Option.ext
  intro snap
  unfold Db.visible
  simp only [Option.filter_eq_some_iff, decide_eq_true_eq, ← h.isMember_iff]
  constructor
  · rintro ⟨hget, hm⟩
    exact ⟨(h.snapshots id snap hm).mp hget, hm⟩
  · rintro ⟨hget, hm⟩
    exact ⟨(h.snapshots id snap hm).mpr hget, hm⟩

theorem snapshotData_eq {id : Uuid} {snap : SchemaSnapshot} (hv : d.visible user id = some snap) :
    d.snapshotData.get? id = d'.snapshotData.get? id := by
  obtain ⟨hget, hm⟩ := visible_eq_some hv
  exact h.snapshotData id snap hm hget

variable {Out : Type} (gen : Generators Out)

theorem getSnapshot_agree (id : Uuid) :
    (getSnapshot d user id : Except HttpError (Body Out)) = getSnapshot d' user id := by
  unfold getSnapshot
  simp only [getAuthorizedSnapshot_eq, ← visible_eq h]
  cases hv : d.visible user id with
  | none => rfl
  | some snap => simp only [snapshotData_eq h hv]

theorem inferredRelationships_agree (id : Uuid) :
    inferredRelationships gen d user id = inferredRelationships gen d' user id := by
  unfold inferredRelationships
  simp only [getAuthorizedSnapshot_eq, ← visible_eq h]
  cases hv : d.visible user id with
  | none => rfl
  | some snap => simp only [snapshotData_eq h hv]

theorem compareSnapshots_agree (compare : Option Json → Option Json → Except HttpError Out)
    (id against : Uuid) :
    compareSnapshots d user compare id against = compareSnapshots d' user compare id against := by
  unfold compareSnapshots
  simp only [getAuthorizedSnapshot_eq, ← visible_eq h]
  cases hv : d.visible user id with
  | none => rfl
  | some snap =>
      cases hb : d.visible user against with
      | none => rfl
      | some base => simp only [snapshotData_eq h hv, snapshotData_eq h hb]

theorem exportMigrationSql_agree (id against : Uuid) (dialect : Str) (direction : Direction) :
    exportMigrationSql gen d user id against dialect direction =
      exportMigrationSql gen d' user id against dialect direction := by
  unfold exportMigrationSql
  simp only [getAuthorizedSnapshot_eq, ← visible_eq h]
  cases hv : d.visible user id with
  | none => rfl
  | some snap =>
      cases hb : d.visible user against with
      | none => rfl
      | some base => simp only [snapshotData_eq h hv, snapshotData_eq h hb]

theorem reportSnapshot_agree (kind : Report) (id : Uuid) :
    reportSnapshot gen d user kind id = reportSnapshot gen d' user kind id := by
  unfold reportSnapshot
  simp only [getAuthorizedSnapshot_eq, ← visible_eq h]
  cases hv : d.visible user id with
  | none => rfl
  | some snap => simp only [snapshotData_eq h hv]

/-- Two renderings that agree on the visible snapshot. -/
theorem exportText_agree (notFound noData : Str) (id : Uuid)
    {render render' : SchemaSnapshot → Json → Except HttpError Str}
    (hrender : ∀ snap, d.visible user id = some snap → render snap = render' snap) :
    (exportText d user notFound noData id render : Except HttpError (Body Out)) =
      exportText d' user notFound noData id render' := by
  unfold exportText
  simp only [getAuthorizedSnapshot_eq, ← visible_eq h]
  cases hv : d.visible user id with
  | none => rfl
  | some snap =>
      simp only [bind, Except.bind, snapshotData_eq h hv, hrender snap hv]

theorem exportDataDictionary_agree (id : Uuid) :
    exportDataDictionary gen d user id = exportDataDictionary gen d' user id := by
  unfold exportDataDictionary
  apply exportText_agree h
  intro snap hv
  obtain ⟨-, hm⟩ := visible_eq_some hv
  funext data
  simp only [h.annotations snap.projectSpaceUuid hm]

theorem respond_agree (request : Request) :
    respond gen d user request = respond gen d' user request := by
  cases request with
  | getSnapshot id => exact getSnapshot_agree h id
  | inferredRelationships id => exact inferredRelationships_agree h gen id
  | diffSnapshot id against => exact compareSnapshots_agree h gen.diffSnapshots id against
  | migrationSafety id against =>
      exact compareSnapshots_agree h gen.analyzeMigrationSafety id against
  | exportMigrationSql id against dialect direction =>
      exact exportMigrationSql_agree h gen id against dialect direction
  | exportSnapshotSql id dialect => exact exportText_agree h _ _ id fun _ _ => rfl
  | report kind id => exact reportSnapshot_agree h gen kind id
  | exportOrmModels id flavor => exact exportText_agree h _ _ id fun _ _ => rfl
  | exportDataDictionary id => exact exportDataDictionary_agree h gen id
  | exportSpec spec id mode => exact exportText_agree h _ _ id fun _ _ => rfl

end

/-! ## Snapshots of other tenants -/

/-- The state without a snapshot. -/
def Db.withoutSnapshot (db : Db) (id : Uuid) : Db :=
  { db with
    snapshots := db.snapshots.filter fun k _ => k ≠ id
    snapshotData := db.snapshotData.filter fun k _ => k ≠ id }

theorem visible_of_isMember {db : Db} {user id : Uuid} {snap : SchemaSnapshot}
    (hget : db.snapshots.get? id = some snap) (hm : db.IsMember user snap.projectSpaceUuid) :
    db.visible user id = some snap := by
  unfold Db.visible
  rw [Option.filter_eq_some_iff, decide_eq_true_eq]
  exact ⟨hget, hm⟩

theorem agreeFor_withoutSnapshot {db : Db} {user id : Uuid} (hforeign : db.visible user id = none) :
    AgreeFor user db (db.withoutSnapshot id) where
  members := fun _ => rfl
  snapshots := by
    intro k snap hm
    have hk : db.snapshots.get? k = some snap → k ≠ id := by
      rintro hget rfl
      have hv := visible_of_isMember hget hm
      rw [hforeign] at hv
      exact absurd hv (by simp)
    simp only [Db.withoutSnapshot, Dict.get?_filter, Option.filter_eq_some_iff, decide_eq_true_eq]
    exact ⟨fun hget => ⟨hget, hk hget⟩, fun hget => hget.1⟩
  snapshotData := by
    intro k snap hm hget
    have hk : k ≠ id := by
      rintro rfl
      have hv := visible_of_isMember hget hm
      rw [hforeign] at hv
      exact absurd hv (by simp)
    simp only [Db.withoutSnapshot, Dict.get?_filter]
    cases db.snapshotData.get? k with
    | none => rfl
    | some data => simp [Option.filter_some, hk]
  annotations := fun _ _ => rfl

/-- **Tenant noninterference.** States that agree on a user's memberships and on the rows of
    the user's projects give the user the same responses; and a snapshot that is not in the
    user's projects might as well not exist. -/
theorem tenant_noninterference {Out : Type} (gen : Generators Out) (user : Uuid) :
    (∀ d d' : Db, AgreeFor user d d' → ∀ request,
      respond gen d user request = respond gen d' user request) ∧
    (∀ (d : Db) (id : Uuid), (∀ snap, d.snapshots.get? id = some snap →
        ¬ d.IsMember user snap.projectSpaceUuid) → ∀ request,
      respond gen d user request = respond gen (d.withoutSnapshot id) user request) := by
  refine ⟨fun d d' h request => respond_agree h gen request, fun d id hforeign request => ?_⟩
  have hv : d.visible user id = none := by
    unfold Db.visible
    cases hsnap : d.snapshots.get? id with
    | none => rfl
    | some snap => simp [Option.filter_some, hforeign snap hsnap]
  exact respond_agree (agreeFor_withoutSnapshot hv) gen request

/-- Generators that return nothing of the snapshot. -/
def blankGenerators : Generators Unit where
  inferRelationships _ := .ok []
  diffSnapshots _ _ := .ok ()
  analyzeMigrationSafety _ _ := .ok ()
  snapshotDiffToMigrationSql _ _ _ := .ok "-- No schema changes.\n".toList
  snapshotJsonToSql _ _ := .ok []
  report _ _ := .ok ()
  ormModels _ _ := .ok []
  dataDictionary _ _ := .ok []
  spec _ _ _ := .ok []
  llmDraft _ _ := .error .configuration

/-- User 1 is a member of project 1 with snapshot 10, user 2 of project 2 with snapshot 20. -/
def twoTenants : Db where
  members := (Dict.empty.set (1, 1) "viewer".toList).set (2, 2) "owner".toList
  snapshots := (Dict.empty.set 10 ⟨1, "succeeded".toList, none, none⟩).set 20
    ⟨2, "succeeded".toList, none, none⟩
  snapshotData := (Dict.empty.set 10 (.obj [])).set 20 (.obj [("relations".toList, .arr [])])
  annotations := []
  shareLinks := .empty

/-- `tenant_noninterference` for user 1 and the snapshot of user 2. -/
theorem tenant_noninterference_at_twoTenants : ∀ request,
    respond blankGenerators twoTenants 1 request =
      respond blankGenerators (twoTenants.withoutSnapshot 20) 1 request :=
  (tenant_noninterference blankGenerators 1).2 twoTenants 20 (by
    intro snap hget
    have hsnap : snap = ⟨2, "succeeded".toList, none, none⟩ :=
      Option.some.inj (hget.symm.trans rfl)
    rw [hsnap]
    decide)

end PgErdCloud.Api
