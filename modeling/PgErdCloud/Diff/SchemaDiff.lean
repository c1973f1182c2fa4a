/-
  The structured diff of two snapshots (`diff_snapshots` of app/diff/schema_diff.py).
-/
import PgErdCloud.Diff.Snapshot

namespace PgErdCloud.Diff

open Lib Lib.PyStr

/-- `sorted` on strings: by code points. -/
def sortedStrs (names : List Str) : List Str :=
  names.insertionSort fun a b => a ≤ b

/-- A column that both have, and not the same way. -/
structure ColumnChange where
  column : Str
  before : Col
  after : Col
  deriving DecidableEq

/-- What differs in the columns of a table. -/
structure ColumnDiff where
  added : List Str
  removed : List Str
  changed : List ColumnChange
  deriving DecidableEq

/-- An entry of `tables.changed`; the last two fields are `from` and `to` where the entry has
    the key. -/
structure TableChange where
  table : Str
  columns : ColumnDiff
  primaryKey : Option (List Str × List Str)
  comment : Option (Option Str × Option Str)
  deriving DecidableEq

/-- The numbers of the findings. -/
structure Summary where
  tablesAdded : Nat
  tablesRemoved : Nat
  tablesChanged : Nat
  columnsAdded : Nat
  columnsRemoved : Nat
  columnsChanged : Nat
  fksAdded : Nat
  fksRemoved : Nat
  deriving DecidableEq

/-- `has_changes` -/
def Summary.hasChanges (s : Summary) : Bool :=
  [s.tablesAdded, s.tablesRemoved, s.tablesChanged, s.columnsAdded, s.columnsRemoved,
    s.columnsChanged, s.fksAdded, s.fksRemoved].any (· ≠ 0)

/-- What `diff_snapshots` reports. -/
structure SnapshotDiff where
  baseTableCount : Nat
  targetTableCount : Nat
  tablesAdded : List Str
  tablesRemoved : List Str
  tablesChanged : List TableChange
  fksAdded : List Fk
  fksRemoved : List Fk
  summary : Summary
  deriving DecidableEq

/-- `sorted(set(xs) - set(ys))` for the keys of two dictionaries. -/
def keysOnlyIn {ν : Type} (xs ys : Dict Str ν) : List Str :=
  sortedStrs (xs.keys.filter (· ∉ ys.keys))

/-- `sorted(set(xs) & set(ys))` -/
def commonKeys {ν : Type} (xs ys : Dict Str ν) : List Str :=
  sortedStrs (xs.keys.filter (· ∈ ys.keys))

/-- The change of a column that both tables have, if it changes. -/
def columnChange (base target : Dict Str Col) (name : Str) : Option ColumnChange :=
  match base.get? name, target.get? name with
  | some before, some after =>
      if before ≠ after then some ⟨name, before, after⟩ else none
  | _, _ => none

/-- `_diff_columns` -/
def diffColumns (base target : Dict Str Col) : ColumnDiff where
  added := keysOnlyIn target base
  removed := keysOnlyIn base target
  changed := (commonKeys base target).filterMap (columnChange base target)

/-- The entry of a table that both snapshots have, if it changes. -/
def tableChange (base target : Dict Str Table) (key : Str) : Option TableChange :=
  match base.get? key, target.get? key with
  | some bt, some tt =>
      let columns := diffColumns bt.columns tt.columns
      if columns.added ≠ [] ∨ columns.removed ≠ [] ∨ columns.changed ≠ [] ∨ bt.pk ≠ tt.pk ∨
          bt.comment ≠ tt.comment then
        some {
          table := key
          columns := columns
          primaryKey := if bt.pk ≠ tt.pk then some (bt.pk, tt.pk) else none
          comment := if bt.comment ≠ tt.comment then some (bt.comment, tt.comment) else none }
      else none
  | _, _ => none

/-- The diff of two indexes. -/
def diffIndexes (b t : Index) : SnapshotDiff :=
  let tablesAdded := keysOnlyIn t.tables b.tables
  let tablesRemoved := keysOnlyIn b.tables t.tables
  let changed := (commonKeys b.tables t.tables).filterMap (tableChange b.tables t.tables)
  let fksAdded := keysOnlyIn t.fks b.fks
  let fksRemoved := keysOnlyIn b.fks t.fks
  { baseTableCount := b.tables.keys.length
    targetTableCount := t.tables.keys.length
    tablesAdded := tablesAdded
    tablesRemoved := tablesRemoved
    tablesChanged := changed
    fksAdded := fksAdded.filterMap t.fks.get?
    fksRemoved := fksRemoved.filterMap b.fks.get?
    summary := {
      tablesAdded := tablesAdded.length
      tablesRemoved := tablesRemoved.length
      tablesChanged := changed.length
      columnsAdded := (changed.map fun entry => entry.columns.added.length).sum
      columnsRemoved := (changed.map fun entry => entry.columns.removed.length).sum
      columnsChanged := (changed.map fun entry => entry.columns.changed.length).sum
      fksAdded := fksAdded.length
      fksRemoved := fksRemoved.length } }

variable {Oid Oid' : Type} [DecidableEq Oid] [DecidableEq Oid']

/-- `diff_snapshots` -/
def diffSnapshots (base : Snapshot Oid) (target : Snapshot Oid') : SnapshotDiff :=
  diffIndexes (indexSnapshot base) (indexSnapshot target)

end PgErdCloud.Diff
