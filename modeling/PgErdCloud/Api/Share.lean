/-
  The public share endpoints (app/api/share.py). They answer without authentication, to whoever
  has the link, and redact the snapshot JSON before anything is computed from it.

  `share_noninterference` says that the answer depends on what is left of the snapshot by the
  redaction: documents that differ in sensitive members only are answered alike, by all four
  endpoints and for any generators.
-/
import PgErdCloud.Api.Noninterference

namespace PgErdCloud.Api

open Lib Lib.PyStr

/-! ## Redaction -/

/-- The keys whose values `_redact_sensitive_snapshot_fields` replaces. -/
def isSensitiveKey (key : Str) : Bool :=
  key ∈ ["comment".toList, "relation_comment".toList, "column_comment".toList,
    "example_value".toList]

/-- `_redact_sensitive_snapshot_fields`: the members with sensitive keys, masked at every depth. -/
def redactSensitiveSnapshotFields (data : Json) : Json :=
  Json.masked isSensitiveKey (.str "***".toList) data

/-- The generators require an object; anything else degrades to an empty one. -/
def redactedSnapshotDict (snapshotJson : Json) : Json :=
  match redactSensitiveSnapshotFields snapshotJson with
  | .obj members => .obj members
  | _ => .obj []

/-! ## Endpoints -/

/-- The requests that come with a share link. -/
inductive ShareRequest
  | getSharedSnapshot
  | exportSharedSnapshotSql (dialect : Str)
  | exportSharedSpec (spec : Spec) (mode : SpecMode)

/-- What they are answered with. -/
inductive ShareBody
  | snapshot (schemaSnapshotUuid : Uuid) (status : Str) (schemaFilter errorMessage : Option Str)
      (snapshotJson : Option Json)
  | text (content : Str)

/-- The checks that the four endpoints begin with. -/
def getSharedSnapshotRow (db : Db) (now : Int) (shareLinkUuid schemaSnapshotUuid : Uuid) :
    Except HttpError SchemaSnapshot :=
  match db.shareLinks.get? shareLinkUuid with
  | none => .error ⟨404, "share link not found".toList⟩
  | some link =>
      if link.expiresAt.any (· ≤ now) then .error ⟨410, "share link expired".toList⟩
      else match db.snapshots.get? schemaSnapshotUuid with
      | none => .error ⟨404, "snapshot not found".toList⟩
      | some snap =>
          if snap.projectSpaceUuid ≠ link.projectSpaceUuid then
            .error ⟨404, "snapshot not found".toList⟩
          else .ok snap

section
variable {Out : Type} (gen : Generators Out) (db : Db) (now : Int)
  (shareLinkUuid schemaSnapshotUuid : Uuid)

/-- `get_shared_snapshot`: the row of the snapshot, with its redacted document. -/
def getSharedSnapshot : Except HttpError ShareBody := do
  let snap ← getSharedSnapshotRow db now shareLinkUuid schemaSnapshotUuid
  return .snapshot schemaSnapshotUuid snap.status snap.schemaFilter snap.errorMessage
    ((db.snapshotData.get? schemaSnapshotUuid).map redactSensitiveSnapshotFields)

/-- A text made from the redacted snapshot, with the text for missing data. -/
def exportSharedText (noData : Str) (render : Json → Except HttpError Str) :
    Except HttpError ShareBody := do
  let _ ← getSharedSnapshotRow db now shareLinkUuid schemaSnapshotUuid
  match db.snapshotData.get? schemaSnapshotUuid with
  | none => return .text noData
  | some data => return .text (← render (redactedSnapshotDict data))

/-- `export_shared_snapshot_sql`, of the redacted document. -/
def exportSharedSnapshotSql (dialect : Str) : Except HttpError ShareBody :=
  exportSharedText db now shareLinkUuid schemaSnapshotUuid "-- snapshot data not found\n".toList
    fun redacted => gen.snapshotJsonToSql redacted dialect

/-- `export_shared_snapshot_reversing_spec` and `export_shared_snapshot_index_design`. -/
def exportSharedSpec (spec : Spec) (mode : SpecMode) : Except HttpError ShareBody :=
  exportSharedText db now shareLinkUuid schemaSnapshotUuid
    (spec.title ++ "\n\nSnapshot data not found.\n".toList) fun redacted =>
      renderSpec gen spec mode redacted

/-- The endpoint of each request. -/
def respondShare : ShareRequest → Except HttpError ShareBody
  | .getSharedSnapshot => getSharedSnapshot db now shareLinkUuid schemaSnapshotUuid
  | .exportSharedSnapshotSql dialect =>
      exportSharedSnapshotSql gen db now shareLinkUuid schemaSnapshotUuid dialect
  | .exportSharedSpec spec mode =>
      exportSharedSpec gen db now shareLinkUuid schemaSnapshotUuid spec mode

end

/-! ## Noninterference -/

/-- Redaction erases what is sensitive and nothing else. -/
theorem redact_eq_iff (a b : Json) :
    redactSensitiveSnapshotFields a = redactSensitiveSnapshotFields b ↔
      Json.AgreeOff isSensitiveKey a b :=
  Json.masked_eq_masked_iff isSensitiveKey _ a b

/-- The same state, up to sensitive values in the snapshot JSON. -/
structure AgreeOffSensitive (d d' : Db) : Prop where
  shareLinks : ∀ id, d.shareLinks.get? id = d'.shareLinks.get? id
  snapshots : ∀ id, d.snapshots.get? id = d'.snapshots.get? id
  snapshotData : ∀ id, Option.Rel (Json.AgreeOff isSensitiveKey) (d.snapshotData.get? id)
    (d'.snapshotData.get? id)

section
variable {d d' : Db} (h : AgreeOffSensitive d d')
include h

theorem getSharedSnapshotRow_agree (now : Int) (linkId id : Uuid) :
    getSharedSnapshotRow d now linkId id = getSharedSnapshotRow d' now linkId id := by
  unfold getSharedSnapshotRow
  rw [h.shareLinks, h.snapshots]

theorem redacted_agree (id : Uuid) :
    (d.snapshotData.get? id).map redactSensitiveSnapshotFields =
      (d'.snapshotData.get? id).map redactSensitiveSnapshotFields := by
  have hrel := h.snapshotData id
  generalize d.snapshotData.get? id = data, d'.snapshotData.get? id = data' at hrel ⊢
  cases hrel with
  | some hab => exact congrArg some ((redact_eq_iff _ _).mpr hab)
  | none => rfl

theorem exportSharedText_agree (now : Int) (linkId id : Uuid) (noData : Str)
    (render : Json → Except HttpError Str) :
    exportSharedText d now linkId id noData render =
      exportSharedText d' now linkId id noData render := by
  unfold exportSharedText
  rw [getSharedSnapshotRow_agree h]
  have hrel := h.snapshotData id
  generalize d.snapshotData.get? id = data, d'.snapshotData.get? id = data' at hrel ⊢
  cases hrel with
  | some hab => simp only [redactedSnapshotDict, (redact_eq_iff _ _).mpr hab]
  | none => rfl

/-- **Share-link noninterference.** Whatever the generators are, the public endpoints answer the
    same for two states that differ in sensitive values of the snapshot JSON only. -/
theorem share_noninterference {Out : Type} (gen : Generators Out) (now : Int) (linkId id : Uuid)
    (request : ShareRequest) :
    respondShare gen d now linkId id request = respondShare gen d' now linkId id request := by
  cases request with
  | getSharedSnapshot =>
      unfold respondShare getSharedSnapshot
      simp only [getSharedSnapshotRow_agree h, redacted_agree h]
  | exportSharedSnapshotSql dialect =>
      unfold respondShare exportSharedSnapshotSql
      exact exportSharedText_agree h now linkId id _ _
  | exportSharedSpec spec mode =>
      unfold respondShare exportSharedSpec
      exact exportSharedText_agree h now linkId id _ _

end

/-- A shared snapshot with one relation, whose comment is given. -/
def shared (comment : Str) : Db where
  members := .empty
  snapshots := Dict.empty.set 10 ⟨1, "succeeded".toList, none, none⟩
  snapshotData := Dict.empty.set 10 (.obj [("relations".toList, .arr [.obj
    [("relation_name".toList, .str "t".toList), ("relation_comment".toList, .str comment)]])])
  annotations := []
  shareLinks := Dict.empty.set 5 ⟨1, "viewer".toList, none⟩

theorem agreeOffSensitive_shared (comment comment' : Str) :
    AgreeOffSensitive (shared comment) (shared comment') where
  shareLinks := fun _ => rfl
  snapshots := fun _ => rfl
  snapshotData := by
    intro id
    simp only [shared, Dict.get?_set, Dict.get?_empty]
    by_cases h : id = 10
    · simp only [h, if_true]
      apply Option.Rel.some
      simp [Json.AgreeOff, Json.ItemsAgreeOff, Json.MembersAgreeOff, isSensitiveKey]
    · simp only [h, if_false]
      exact .none

/-- `share_noninterference` for two comments of a shared relation. -/
theorem share_noninterference_at_shared :
    respondShare blankGenerators
        (shared "internal".toList) 0 5 10 (.exportSharedSpec .reversing .markdown) =
      respondShare blankGenerators (shared "secret".toList) 0 5 10
        (.exportSharedSpec .reversing .markdown) :=
  share_noninterference (agreeOffSensitive_shared _ _) blankGenerators 0 5 10 _

end PgErdCloud.Api
