/-
  The diff in the other direction is the mirror image of the diff. Both directions sort the
  same sets of names, so what they agree on are lists, not only sets.

  `diffSnapshots_antisymmetric` is about all pairs of snapshots: each report is the other one seen
  from the other side.
-/
import PgErdCloud.Diff.SchemaDiff

namespace PgErdCloud.Diff

open Lib Lib.PyStr

/-! ## The mirror image -/

/-- The change seen from the other side. -/
def ColumnChange.swap (change : ColumnChange) : ColumnChange :=
  { change with before := change.after, after := change.before }

/-- The differences seen from the other side. -/
def ColumnDiff.swap (diff : ColumnDiff) : ColumnDiff where
  added := diff.removed
  removed := diff.added
  changed := diff.changed.map ColumnChange.swap

/-- The change of a table seen from the other side. -/
def TableChange.swap (change : TableChange) : TableChange where
  table := change.table
  columns := change.columns.swap
  primaryKey := change.primaryKey.map Prod.swap
  comment := change.comment.map Prod.swap

/-- The numbers seen from the other side. -/
def Summary.swap (summary : Summary) : Summary where
  tablesAdded := summary.tablesRemoved
  tablesRemoved := summary.tablesAdded
  tablesChanged := summary.tablesChanged
  columnsAdded := summary.columnsRemoved
  columnsRemoved := summary.columnsAdded
  columnsChanged := summary.columnsChanged
  fksAdded := summary.fksRemoved
  fksRemoved := summary.fksAdded

/-- The report seen from the other side. -/
def SnapshotDiff.swap (diff : SnapshotDiff) : SnapshotDiff where
  baseTableCount := diff.targetTableCount
  targetTableCount := diff.baseTableCount
  tablesAdded := diff.tablesRemoved
  tablesRemoved := diff.tablesAdded
  tablesChanged := diff.tablesChanged.map TableChange.swap
  fksAdded := diff.fksRemoved
  fksRemoved := diff.fksAdded
  summary := diff.summary.swap

/-! ## Names -/

/-- `sorted` only depends on the set of names. -/
theorem sortedStrs_eq_of_perm {names names' : List Str} (h : names.Perm names') :
    sortedStrs names = sortedStrs names' := by
  have hsorted : ∀ names : List Str, (sortedStrs names).Pairwise (· ≤ ·) := fun names =>
    List.pairwise_insertionSort _ names
  refine List.Perm.eq_of_pairwise (fun a b _ _ hab hba => le_antisymm hab hba) (hsorted names)
    (hsorted names') ?_
  exact (List.perm_insertionSort _ names).trans (h.trans (List.perm_insertionSort _ names').symm)

theorem commonKeys_comm {ν : Type} (xs ys : Dict Str ν) :
    commonKeys xs ys = commonKeys ys xs := by
  unfold commonKeys
  refine sortedStrs_eq_of_perm ?_
  have hxs : xs.keys.Nodup := xs.nodup
  have hys : ys.keys.Nodup := ys.nodup
  rw [List.perm_ext_iff_of_nodup (hxs.filter _) (hys.filter _)]
  intro name
  rw [List.mem_filter, List.mem_filter, decide_eq_true_eq, decide_eq_true_eq, and_comm]

/-! ## Columns and tables -/

theorem columnChange_swap (base target : Dict Str Col) (name : Str) :
    columnChange target base name = (columnChange base target name).map ColumnChange.swap := by
  unfold columnChange
  cases base.get? name with
  | none => cases target.get? name <;> rfl
  | some before =>
      cases target.get? name with
      | none => rfl
      | some after =>
          by_cases heq : before = after
          · simp [heq]
          · simp [heq, Ne.symm heq, ColumnChange.swap]

theorem filterMap_swap {α β : Type} {f g : α → Option β} {swap : β → β}
    (h : ∀ a, f a = (g a).map swap) (xs : List α) :
    xs.filterMap f = (xs.filterMap g).map swap := by
  rw [List.map_filterMap]
  exact List.filterMap_congr fun a _ => h a

theorem diffColumns_swap (base target : Dict Str Col) :
    diffColumns target base = (diffColumns base target).swap := by
  unfold diffColumns ColumnDiff.swap
  rw [commonKeys_comm target base, filterMap_swap (columnChange_swap base target)]

/-- A pair that is reported where its parts differ. -/
theorem changedPair_swap {α : Type} [DecidableEq α] (a b : α) :
    (if b ≠ a then some (b, a) else none) =
      (if a ≠ b then some (a, b) else none).map Prod.swap := by
  by_cases heq : a = b
  · simp [heq]
  · simp [heq, Ne.symm heq]

theorem tableChange_swap (base target : Dict Str Table) (key : Str) :
    tableChange target base key = (tableChange base target key).map TableChange.swap := by
  unfold tableChange
  cases base.get? key with
  | none => cases target.get? key <;> rfl
  | some bt =>
      cases target.get? key with
      | none => rfl
      | some tt =>
          have hcolumns := diffColumns_swap bt.columns tt.columns
          have hchanged : (diffColumns bt.columns tt.columns).swap.changed ≠ [] ↔
              (diffColumns bt.columns tt.columns).changed ≠ [] := by
            simp [ColumnDiff.swap]
          simp only [hcolumns, changedPair_swap bt.pk tt.pk,
            changedPair_swap bt.comment tt.comment]
          generalize diffColumns bt.columns tt.columns = diff at hchanged
          have hiff : (diff.swap.added ≠ [] ∨ diff.swap.removed ≠ [] ∨
              diff.swap.changed ≠ [] ∨ tt.pk ≠ bt.pk ∨ tt.comment ≠ bt.comment) ↔
              (diff.added ≠ [] ∨ diff.removed ≠ [] ∨ diff.changed ≠ [] ∨
                bt.pk ≠ tt.pk ∨ bt.comment ≠ tt.comment) := by
            rw [hchanged, ne_comm (a := tt.pk), ne_comm (a := tt.comment)]
            show (diff.removed ≠ [] ∨ diff.added ≠ [] ∨ _) ↔ _
            tauto
          by_cases hdiffer : diff.added ≠ [] ∨ diff.removed ≠ [] ∨ diff.changed ≠ [] ∨
              bt.pk ≠ tt.pk ∨ bt.comment ≠ tt.comment
          · rw [if_pos hdiffer, if_pos (hiff.mpr hdiffer)]
            rfl
          · rw [if_neg hdiffer, if_neg fun h => hdiffer (hiff.mp h)]
            rfl

/-! ## The whole diff -/

theorem diffIndexes_swap (b t : Index) : diffIndexes t b = (diffIndexes b t).swap := by
  have hchanged : (commonKeys t.tables b.tables).filterMap (tableChange t.tables b.tables) =
      ((commonKeys b.tables t.tables).filterMap (tableChange b.tables t.tables)).map
        TableChange.swap := by
    rw [commonKeys_comm t.tables b.tables, filterMap_swap (tableChange_swap b.tables t.tables)]
  unfold diffIndexes SnapshotDiff.swap Summary.swap
  simp only [hchanged, List.map_map, List.length_map]
  have hcount : ((fun entry : TableChange => entry.columns.changed.length) ∘ TableChange.swap) =
      fun entry => entry.columns.changed.length := by
    funext entry
    exact List.length_map _
  rw [hcount]
  rfl

variable {Oid Oid' : Type} [DecidableEq Oid] [DecidableEq Oid']

/-- **The diff back is the mirror image of the diff.** -/
theorem diffSnapshots_antisymmetric (base : Snapshot Oid) (target : Snapshot Oid') :
    diffSnapshots target base = (diffSnapshots base target).swap :=
  diffIndexes_swap (indexSnapshot base) (indexSnapshot target)

end PgErdCloud.Diff
