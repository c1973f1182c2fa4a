/-
  Object ids do not matter. Renaming the relation oids of a snapshot by an injective function,
  and its constraint oids by any function, leaves the index as it is, and so everything that
  is computed from the index: the diff, the migration and the risk report.

  `oid_independent` is about all pairs of snapshots and all renamings of object ids, of which
  those of relations are injective.
-/
import PgErdCloud.Ddl.Migration
import PgErdCloud.Ddl.Safety

namespace PgErdCloud.Diff

open Lib Lib.PyStr

variable {Oid Oid' : Type}

/-! ## Renaming -/

/-- The row under other object ids. -/
def Relation.rename (f : Oid → Oid') (rel : Relation Oid) : Relation Oid' where
  relationOid := rel.relationOid.map f
  schemaName := rel.schemaName
  relationName := rel.relationName
  relationComment := rel.relationComment
  relationKind := rel.relationKind

/-- The row under other object ids. -/
def Column.rename (f : Oid → Oid') (col : Column Oid) : Column Oid' where
  relationOid := col.relationOid.map f
  columnName := col.columnName
  dataType := col.dataType
  isNotNull := col.isNotNull

/-- The row under other object ids. -/
def PkColumn.rename (f : Oid → Oid') (pk : PkColumn Oid) : PkColumn Oid' where
  relationOid := pk.relationOid.map f
  columnName := pk.columnName
  columnOrdinal := pk.columnOrdinal

/-- The row under other object ids, of tables and of constraints. -/
def FkEdge.rename (f g : Oid → Oid') (edge : FkEdge Oid) : FkEdge Oid' where
  fkConstraintOid := edge.fkConstraintOid.map g
  fkConstraintName := edge.fkConstraintName
  childRelationOid := edge.childRelationOid.map f
  parentRelationOid := edge.parentRelationOid.map f
  childColumnName := edge.childColumnName
  parentColumnName := edge.parentColumnName
  columnOrdinal := edge.columnOrdinal

/-- Relation oids renamed by `f`, constraint oids by `g`. -/
def Snapshot.rename (f g : Oid → Oid') (s : Snapshot Oid) : Snapshot Oid' where
  relations := s.relations.map (Relation.rename f)
  columns := s.columns.map (Column.rename f)
  pkColumns := s.pkColumns.map (PkColumn.rename f)
  fkEdges := s.fkEdges.map (FkEdge.rename f g)
  sourceDialect := s.sourceDialect
  databaseDialect := s.databaseDialect
  dialect := s.dialect

/-! ## The index -/

theorem relationTables_rename (f : Oid → Oid') (relations : List (Relation Oid)) :
    relationTables (relations.map (Relation.rename f)) = relationTables relations := by
  rw [relationTables, List.foldl_map]
  rfl

/-- The loops see an object id through `lookup` only. -/
theorem indexRows_rename {f g : Oid → Oid'} {lookup : Option Oid → Option Str}
    {lookup' : Option Oid' → Option Str} (h : ∀ oid, lookup' (oid.map f) = lookup oid)
    (s : Snapshot Oid) : indexRows lookup' (s.rename f g) = indexRows lookup s := by
  have hcol : (fun tables col => indexColumn lookup' tables (Column.rename f col)) =
      indexColumn lookup := by
    funext tables col
    simp only [indexColumn, Column.rename, h]
  have hpk : ∀ tables, (fun pkTmp pk => indexPkColumn lookup' tables pkTmp (PkColumn.rename f pk)) =
      indexPkColumn lookup tables := by
    intro tables
    funext pkTmp pk
    simp only [indexPkColumn, PkColumn.rename, h]
  have hfk : (fun fkParts edge => indexFkEdge lookup' fkParts (FkEdge.rename f g edge)) =
      indexFkEdge lookup := by
    funext fkParts edge
    simp only [indexFkEdge, FkEdge.rename, h]
  unfold indexRows
  simp only [Snapshot.rename, relationTables_rename, List.foldl_map, hcol, hpk, hfk]

variable [DecidableEq Oid] [DecidableEq Oid']

/-- A renamed oid is found where the oid was. -/
theorem get?_oidToTable_rename {f : Oid → Oid'} (hf : Function.Injective f)
    (relations : List (Relation Oid)) (oid : Option Oid) :
    (oidToTable (relations.map (Relation.rename f))).get? (oid.map f) =
      (oidToTable relations).get? oid := by
  have hinj : Function.Injective (Option.map f) := Option.map_injective hf
  have hfold : ∀ (oids : Dict (Option Oid) Str) (oids' : Dict (Option Oid') Str),
      (∀ o, oids'.get? (o.map f) = oids.get? o) → ∀ o,
        (relations.foldl (fun oids' rel => oids'.set (Relation.rename f rel).relationOid
          (Relation.rename f rel).key) oids').get? (o.map f) =
        (relations.foldl (fun oids rel => oids.set rel.relationOid rel.key) oids).get? o := by
    induction relations with
    | nil => exact fun oids oids' h => h
    | cons rel relations ih =>
        intro oids oids' h
        refine ih _ _ fun o => ?_
        rw [Dict.get?_set, Dict.get?_set, h o]
        by_cases ho : o = rel.relationOid
        · rw [if_pos ho, if_pos (by rw [ho]; rfl)]
          rfl
        · have hne : o.map f ≠ (Relation.rename f rel).relationOid := fun he => ho (hinj he)
          rw [if_neg ho, if_neg hne]
  rw [oidToTable, List.foldl_map]
  exact hfold .empty .empty (fun _ => rfl) oid

/-- **The index of a snapshot does not depend on its object ids.** -/
theorem indexSnapshot_rename {f : Oid → Oid'} (hf : Function.Injective f) (g : Oid → Oid')
    (s : Snapshot Oid) : indexSnapshot (s.rename f g) = indexSnapshot s :=
  indexRows_rename (fun oid => get?_oidToTable_rename hf s.relations oid) s

end PgErdCloud.Diff

namespace PgErdCloud.Ddl

open Lib Lib.PyStr Diff

variable {Oid Oid' : Type} [DecidableEq Oid] [DecidableEq Oid']

/-- **Object-id independence.** The diff, the migration and the risk report of two snapshots
    stay the same when the relation oids of each are renamed injectively, independently for
    the two, and the constraint oids in any way. -/
theorem oid_independent (unicode : Unicode) {f f' : Oid → Oid'} (hf : Function.Injective f)
    (hf' : Function.Injective f') (g g' : Oid → Oid') (base target : Snapshot Oid) :
    diffSnapshots (base.rename f g) (target.rename f' g') = diffSnapshots base target ∧
    (∀ dialect, snapshotDiffToMigrationSql unicode (base.rename f g) (target.rename f' g') dialect =
      snapshotDiffToMigrationSql unicode base target dialect) ∧
    analyzeMigrationSafety (base.rename f g) (target.rename f' g') =
      analyzeMigrationSafety base target := by
  refine ⟨?_, fun dialect => ?_, ?_⟩
  · rw [diffSnapshots, indexSnapshot_rename hf, indexSnapshot_rename hf']
    rfl
  · simp only [snapshotDiffToMigrationSql, snapshotDiffStmts, indexSnapshot_rename hf,
      indexSnapshot_rename hf']
    rfl
  · rw [analyzeMigrationSafety, indexSnapshot_rename hf, indexSnapshot_rename hf']
    rfl

/-- One table with one column. -/
def oneTable : Snapshot Nat where
  relations := [⟨some 1, some "s".toList, some "t".toList, none, some "r".toList⟩]
  columns := [⟨some 1, some "id".toList, some "integer".toList, true⟩]
  pkColumns := [⟨some 1, some "id".toList, some 1⟩]
  fkEdges := []
  sourceDialect := none
  databaseDialect := none
  dialect := none

/-- `oid_independent` for two introspections of a database with one table. -/
theorem oid_independent_at_oneTable :
    diffSnapshots (oneTable.rename (· + 1) id) (oneTable.rename (· + 2) id) =
      diffSnapshots oneTable oneTable ∧
    (∀ dialect, snapshotDiffToMigrationSql asciiUnicode (oneTable.rename (· + 1) id)
        (oneTable.rename (· + 2) id) dialect =
      snapshotDiffToMigrationSql asciiUnicode oneTable oneTable dialect) ∧
    analyzeMigrationSafety (oneTable.rename (· + 1) id) (oneTable.rename (· + 2) id) =
      analyzeMigrationSafety oneTable oneTable :=
  oid_independent asciiUnicode (add_left_injective 1) (add_left_injective 2) id id oneTable oneTable

end PgErdCloud.Ddl
