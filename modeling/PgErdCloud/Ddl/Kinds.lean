/-
  The migration and the kinds of relations. A snapshot lists views and materialized views
  among its relations; the generator reads the whole list and looks at no kind, so it treats
  a view as a table. It writes a statement for a relation exactly when something about the
  relation differs: then a view gets one as well.

  `kinds_respected_iff` is about all pairs of snapshots: no statement names a relation that is no
  table exactly when nothing about such relations differs.
-/
import PgErdCloud.Ddl.MigrationFacts
import PgErdCloud.Diff.Logical

namespace PgErdCloud.Ddl

open Lib Lib.PyStr Diff

/-! ## Statements for a relation -/

/-- The relation of a `CREATE TABLE`, a `DROP TABLE` or an `ALTER TABLE`. -/
def Stmt.relation : Stmt → Option TableName
  | .createTable table _ _ | .dropTable table => some table
  | .addColumn table _ | .dropColumn table _ | .alterType table _ _ | .setNotNull table _
  | .dropNotNull table _ => some table
  | .dropConstraint child _ | .addForeignKey child _ _ _ _ => some child
  | .noteUnnamedFk _ _ | .createSchema _ | .notePrimaryKey _ _ | .commentOn _ _ => none

/-- Some relation of this name is neither a table nor a partitioned table. -/
def NonTable {Oid : Type} (s : Snapshot Oid) (table : TableName) : Prop :=
  ∃ rel ∈ s.relations, rel.tableName = table ∧
    rel.relationKind ≠ some "r".toList ∧ rel.relationKind ≠ some "p".toList

/-! ## What differs about a relation -/

section
variable (unicode : Unicode) (source dialect : Dialect) (b t : Index)

/-- Something differs about the relation that a migration from `b` to `t` acts upon. -/
inductive Differs (table : TableName) : Prop
  | new (key : Str) (tt : Table) (ht : t.tables.get? key = some tt) (hb : key ∉ b.tables.keys)
      (name : tableName tt = table)
  | gone (key : Str) (bt : Table) (hb : b.tables.get? key = some bt) (ht : key ∉ t.tables.keys)
      (name : tableName bt = table)
  | column (key : Str) (bt tt : Table) (hb : b.tables.get? key = some bt)
      (ht : t.tables.get? key = some tt) (name : tableName tt = table) (column : Str)
      (differs : Added bt tt column ∨ Added tt bt column ∨
        Retyped unicode source dialect bt tt column ∨
        Tightened bt tt column ∨ Tightened tt bt column)
  | removedFk (signature : Str) (fk : Fk) (hb : b.fks.get? signature = some fk)
      (ht : signature ∉ t.fks.keys) (named : fk.name ≠ none)
      (keeps : dropsWithChild b t fk = false) (parent : TableName)
      (ends : fkEndpoints fk b.tables = some (table, parent))
  | newFk (signature : Str) (fk : Fk) (ht : t.fks.get? signature = some fk)
      (hb : signature ∉ b.fks.keys) (parent : TableName)
      (ends : fkEndpoints fk t.tables = some (table, parent))

variable {unicode source dialect b t}

/-- A column statement comes from a column that differs. -/
theorem column_of_mem {bt tt : Table} {stmt : Stmt} {table : TableName}
    (hm : stmt ∈ alterTableSql unicode source dialect bt tt) (h : stmt.relation = some table) :
    tableName tt = table ∧ ∃ column, Added bt tt column ∨ Added tt bt column ∨
      Retyped unicode source dialect bt tt column ∨
      Tightened bt tt column ∨ Tightened tt bt column := by
  rw [mem_alterTableSql] at hm
  rcases hm with ⟨name, col, hc, hn, rfl⟩ | ⟨name, hc, hn, rfl⟩ | ⟨name, old, col, ho, hc, hm⟩ |
    ⟨-, rfl⟩ | ⟨-, -, rfl⟩
  · exact ⟨Option.some.inj h, name, .inl ⟨Dict.mem_keys_iff.mpr ⟨col, hc⟩, hn⟩⟩
  · exact ⟨Option.some.inj h, name, .inr (.inl ⟨hc, hn⟩)⟩
  · rw [mem_alterColumnSql] at hm
    rcases hm with ⟨hne, rfl⟩ | ⟨hold, hnew, rfl⟩ | ⟨hold, hnew, rfl⟩
    · exact ⟨Option.some.inj h, name, .inr (.inr (.inl ⟨old, col, ho, hc, hne⟩))⟩
    · exact ⟨Option.some.inj h, name, .inr (.inr (.inr (.inl ⟨old, col, ho, hc, hold, hnew⟩)))⟩
    · exact ⟨Option.some.inj h, name, .inr (.inr (.inr (.inr ⟨col, old, hc, ho, hnew, hold⟩)))⟩
  · exact absurd h (by simp [Stmt.relation])
  · exact absurd h (by simp [Stmt.relation, commentSql])

/-- A column that differs has a statement. -/
theorem exists_column_stmt {bt tt : Table} {column : Str}
    (h : Added bt tt column ∨ Added tt bt column ∨
      Retyped unicode source dialect bt tt column ∨
      Tightened bt tt column ∨ Tightened tt bt column) :
    ∃ stmt ∈ alterTableSql unicode source dialect bt tt,
      stmt.phase = .alterTables ∧ stmt.relation = some (tableName tt) := by
  rcases h with ⟨ht, hb⟩ | ⟨hb, ht⟩ | ⟨old, col, ho, hc, hne⟩ | ⟨old, col, ho, hc, hold, hnew⟩ |
    ⟨col, old, hc, ho, hnew, hold⟩
  · obtain ⟨col, hc⟩ := Dict.mem_keys_iff.mp ht
    exact ⟨.addColumn (tableName tt) _,
      (addColumn_mem unicode source dialect).mpr ⟨rfl, column, col, hc, hb, rfl⟩, rfl, rfl⟩
  · exact ⟨.dropColumn (tableName tt) column,
      (dropColumn_mem unicode source dialect).mpr ⟨rfl, hb, ht⟩, rfl, rfl⟩
  · exact ⟨.alterType (tableName tt) column _,
      (alterType_mem unicode source dialect).mpr ⟨rfl, old, col, ho, hc, hne, rfl⟩, rfl, rfl⟩
  · exact ⟨.setNotNull (tableName tt) column,
      (setNotNull_mem unicode source dialect).mpr ⟨rfl, old, col, ho, hc, hold, hnew⟩, rfl, rfl⟩
  · exact ⟨.dropNotNull (tableName tt) column,
      (dropNotNull_mem unicode source dialect).mpr ⟨rfl, old, col, ho, hc, hold, hnew⟩, rfl, rfl⟩

/-- **A relation has a statement** exactly when something about it differs. -/
theorem exists_stmt_iff_differs {table : TableName} :
    (∃ stmt ∈ migrationStmts unicode source dialect b t, stmt.relation = some table) ↔
      Differs unicode source dialect b t table := by
  constructor
  · rintro ⟨stmt, hm, hrel⟩
    cases stmt with
    | createTable name columns pk =>
        obtain ⟨key, tt, ht, hb, hstmt⟩ := (createTable_mem unicode source dialect b t).mp hm
        refine .new key tt ht hb ?_
        rw [createTableSql, Stmt.createTable.injEq] at hstmt
        exact hstmt.1.trans (Option.some.inj hrel)
    | dropTable name =>
        obtain ⟨key, bt, hb, ht, hname⟩ := (dropTable_mem unicode source dialect b t).mp hm
        exact .gone key bt hb ht (hname.trans (Option.some.inj hrel))
    | dropConstraint child name =>
        obtain ⟨signature, fk, hb, ht, hkeeps, hname, parent, hends⟩ :=
          (dropConstraint_mem unicode source dialect b t).mp hm
        have hnamed : fk.name ≠ none := by
          rw [hname]
          exact Option.some_ne_none name
        exact .removedFk signature fk hb ht hnamed hkeeps parent (Option.some.inj hrel ▸ hends)
    | addForeignKey child name childColumns parent parentColumns =>
        obtain ⟨signature, fk, ht, hb, hends, -⟩ :=
          (addForeignKey_mem unicode source dialect b t).mp hm
        exact .newFk signature fk ht hb parent (Option.some.inj hrel ▸ hends)
    | addColumn _ _ | dropColumn _ _ | alterType _ _ _ | setNotNull _ _ | dropNotNull _ _ =>
        obtain ⟨key, bt, tt, hb, ht, hs⟩ := (alterTables_mem unicode source dialect b t rfl).mp hm
        obtain ⟨hname, column, hdiffers⟩ := column_of_mem hs hrel
        exact .column key bt tt hb ht hname column hdiffers
    | noteUnnamedFk _ _ | createSchema _ | notePrimaryKey _ _ | commentOn _ _ =>
        exact absurd hrel (by simp [Stmt.relation])
  · intro h
    cases h with
    | new key tt ht hb name =>
        exact ⟨createTableSql unicode source dialect tt,
          (createTable_mem unicode source dialect b t).mpr ⟨key, tt, ht, hb, rfl⟩,
          congrArg some name⟩
    | gone key bt hb ht name =>
        exact ⟨.dropTable table,
          (dropTable_mem unicode source dialect b t).mpr ⟨key, bt, hb, ht, name⟩, rfl⟩
    | column key bt tt hb ht name column differs =>
        obtain ⟨stmt, hs, hphase, hrel⟩ := exists_column_stmt differs
        exact ⟨stmt, (alterTables_mem unicode source dialect b t hphase).mpr
          ⟨key, bt, tt, hb, ht, hs⟩, hrel.trans (congrArg some name)⟩
    | removedFk signature fk hb ht named keeps parent ends =>
        obtain ⟨name, hname⟩ := Option.ne_none_iff_exists'.mp named
        exact ⟨.dropConstraint table name, (dropConstraint_mem unicode source dialect b t).mpr
          ⟨signature, fk, hb, ht, keeps, hname, parent, ends⟩, rfl⟩
    | newFk signature fk ht hb parent ends =>
        exact ⟨.addForeignKey table fk.name fk.childColumns parent fk.parentColumns,
          (addForeignKey_mem unicode source dialect b t).mpr
            ⟨signature, fk, ht, hb, ends, rfl, rfl, rfl⟩, rfl⟩

end

/-! ## Where the kinds are respected -/

variable {Oid Oid' : Type} [DecidableEq Oid] [DecidableEq Oid']

/-- **The migration respects kinds** exactly where nothing differs about any relation that is
    not a table: it is in both snapshots, with the same columns, types, nullability and
    foreign keys. -/
theorem kinds_respected_iff (unicode : Unicode) (base : Snapshot Oid) (target : Snapshot Oid')
    (dialect : Dialect) :
    (∀ stmt ∈ snapshotDiffStmts unicode base target dialect, ∀ table,
      stmt.relation = some table → ¬ NonTable base table ∧ ¬ NonTable target table) ↔
    ∀ table, NonTable base table ∨ NonTable target table →
      ¬ Differs unicode (snapshotSourceDialect unicode target) dialect (indexSnapshot base)
        (indexSnapshot target) table := by
  unfold snapshotDiffStmts
  constructor
  · intro h table hview hdiffers
    obtain ⟨stmt, hm, hrel⟩ := exists_stmt_iff_differs.mpr hdiffers
    obtain ⟨hbase, htarget⟩ := h stmt hm table hrel
    cases hview with
    | inl hv => exact hbase hv
    | inr hv => exact htarget hv
  · intro h stmt hm table hrel
    have hdiffers := exists_stmt_iff_differs.mp ⟨stmt, hm, hrel⟩
    exact ⟨fun hv => h table (.inl hv) hdiffers, fun hv => h table (.inr hv) hdiffers⟩

/-- A snapshot without relations. -/
def noRelations : Snapshot Nat where
  relations := []
  columns := []
  pkColumns := []
  fkEdges := []
  sourceDialect := none
  databaseDialect := none
  dialect := none

/-- A snapshot of one view. -/
def oneView : Snapshot Nat where
  relations := [⟨some 1, some "public".toList, some "active_member".toList, none,
    some "v".toList⟩]
  columns := [⟨some 1, some "member_id".toList, some "bigint".toList, false⟩]
  pkColumns := []
  fkEdges := []
  sourceDialect := some "postgresql".toList
  databaseDialect := none
  dialect := none

/-- **A view is created as a table:** when it is new in the target. -/
theorem view_created_as_table :
    ¬ ∀ stmt ∈ snapshotDiffStmts asciiUnicode noRelations oneView .postgresql, ∀ table,
      stmt.relation = some table → ¬ NonTable noRelations table ∧ ¬ NonTable oneView table := by
  intro h
  have hstmts : snapshotDiffStmts asciiUnicode noRelations oneView .postgresql =
      [.createSchema "public".toList,
        .createTable ⟨"public".toList, "active_member".toList⟩
          [⟨"member_id".toList, "bigint".toList, false⟩] []] := by decide
  rw [hstmts] at h
  refine (h _ (List.mem_cons_of_mem _ (List.mem_singleton_self _)) _ rfl).2 ?_
  exact ⟨_, List.mem_singleton_self _, rfl, by decide, by decide⟩

end PgErdCloud.Ddl
