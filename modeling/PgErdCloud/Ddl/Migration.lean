/-
  The migration generator (app/ddl/migration.py): the statements that move a database from a
  base to a target snapshot, in their order, and their text. The two lines that are comments
  (a primary key that changed, a foreign key without a name) are statements here as well.
-/
import PgErdCloud.Ddl.Types
import PgErdCloud.Diff.SchemaDiff

namespace PgErdCloud.Ddl

open Lib Lib.PyStr Diff

variable (unicode : Unicode)

/-! ## Statements -/

/-- A column as a statement declares it. -/
structure ColumnClause where
  name : Str
  type : Str
  isNotNull : Bool
  deriving DecidableEq

/-- What the generator emits: statements, and notes on what it cannot do. -/
inductive Stmt
  | dropConstraint (child : TableName) (name : Str)
  | noteUnnamedFk (child : TableName) (childColumns : List Str)
  | dropTable (table : TableName)
  | createSchema (schema : Str)
  | createTable (table : TableName) (columns : List ColumnClause) (pk : List Str)
  | addColumn (table : TableName) (clause : ColumnClause)
  | dropColumn (table : TableName) (column : Str)
  | alterType (table : TableName) (column type : Str)
  | setNotNull (table : TableName) (column : Str)
  | dropNotNull (table : TableName) (column : Str)
  | notePrimaryKey (table : TableName) (pk : List Str)
  | commentOn (table : TableName) (comment : Option Str)
  | addForeignKey (child : TableName) (name : Option Str) (childColumns : List Str)
      (parent : TableName) (parentColumns : List Str)
  deriving DecidableEq

/-! ## Text -/

/-- The name of a table, quoted. -/
def tableText (table : TableName) : Str := qname table.schema table.name

/-- `_column_clause` -/
def ColumnClause.text (clause : ColumnClause) : Str :=
  q clause.name ++ " ".toList ++ clause.type ++
    if clause.isNotNull then " NOT NULL".toList else []

/-- How the statements on a table begin. -/
def alterTable (table : TableName) : Str := "ALTER TABLE ".toList ++ tableText table

/-- `", ".join(_q(c) for c in columns)` -/
def quotedList (columns : List Str) : Str := join ", ".toList (columns.map q)

/-- The text of a statement for the target dialect. -/
def Stmt.text (target : Dialect) : Stmt → Str
  | .dropConstraint child name =>
      alterTable child ++ " DROP CONSTRAINT ".toList ++ q name ++ ";".toList
  | .noteUnnamedFk child childColumns =>
      "-- FOREIGN KEY on ".toList ++ tableText child ++ " (".toList ++ quotedList childColumns ++
        ") was removed but has no constraint name; drop it manually.".toList
  | .dropTable table => "DROP TABLE IF EXISTS ".toList ++ tableText table ++ ";".toList
  | .createSchema schema => "CREATE SCHEMA IF NOT EXISTS ".toList ++ q schema ++ ";".toList
  | .createTable table columns pk =>
      let lines := columns.map (fun clause => "  ".toList ++ clause.text) ++
        if pk ≠ [] then ["  PRIMARY KEY (".toList ++ quotedList pk ++ ")".toList] else []
      "CREATE TABLE ".toList ++ tableText table ++ " (\n".toList ++ join ",\n".toList lines ++
        "\n);".toList
  | .addColumn table clause =>
      alterTable table ++ " ADD COLUMN ".toList ++ clause.text ++ ";".toList
  | .dropColumn table column =>
      alterTable table ++ " DROP COLUMN ".toList ++ q column ++ ";".toList
  | .alterType table column type =>
      let action := match target with
        | .snowflake => " SET DATA TYPE ".toList
        | .postgresql => " TYPE ".toList
      alterTable table ++ " ALTER COLUMN ".toList ++ q column ++ action ++ type ++ ";".toList
  | .setNotNull table column =>
      alterTable table ++ " ALTER COLUMN ".toList ++ q column ++ " SET NOT NULL;".toList
  | .dropNotNull table column =>
      alterTable table ++ " ALTER COLUMN ".toList ++ q column ++ " DROP NOT NULL;".toList
  | .notePrimaryKey table pk =>
      "-- PRIMARY KEY of ".toList ++ tableText table ++ " changed to (".toList ++
        join ", ".toList pk ++ "); review before applying.".toList
  | .commentOn table comment =>
      "COMMENT ON TABLE ".toList ++ tableText table ++ match comment with
        | some text => " IS '".toList ++ replaceChar '\'' "''".toList text ++ "';".toList
        | none => " IS NULL;".toList
  | .addForeignKey child name childColumns parent parentColumns =>
      let constraint := match name with
        | some name => "CONSTRAINT ".toList ++ q name ++ " ".toList
        | none => []
      alterTable child ++ " ADD ".toList ++ constraint ++ "FOREIGN KEY (".toList ++
        quotedList childColumns ++ ") REFERENCES ".toList ++ tableText parent ++ " (".toList ++
        quotedList parentColumns ++ ");".toList

/-! ## Generation -/

/-- The name that the target or the base has for a table. -/
def tableName (tbl : Table) : TableName := ⟨tbl.schemaName, tbl.relationName⟩

section
variable (source target : Dialect)

/-- `_col_type`; only the text of the type is passed on. -/
def colType (col : Col) : Str :=
  mappedDataType unicode ⟨col.dataType, none, false⟩ source target

/-- The declaration of a column in the target dialect. -/
def columnClause (name : Str) (col : Col) : ColumnClause :=
  ⟨name, colType unicode source target col, col.isNotNull⟩

/-- `_create_table_sql` -/
def createTableSql (tbl : Table) : Stmt :=
  .createTable (tableName tbl)
    (tbl.columns.items.map fun e => columnClause unicode source target e.1 e.2) tbl.pk

/-- The statements for a column that both tables have. -/
def alterColumnSql (table : TableName) (name : Str) (old col : Col) : List Stmt :=
  (if colType unicode source target old ≠ colType unicode source target col then
    [.alterType table name (colType unicode source target col)] else []) ++
  if old.isNotNull ≠ col.isNotNull then
    [if col.isNotNull then .setNotNull table name else .dropNotNull table name] else []

/-- The new comment; an empty one is removed. -/
def commentSql (table : TableName) (comment : Option Str) : Stmt :=
  .commentOn table (comment.filter (· ≠ []))

/-- `_alter_table_sql`: columns that come, columns that go, types and nullability that change, and a
    note on the key. -/
def alterTableSql (baseTbl targetTbl : Table) : List Stmt :=
  let table := tableName targetTbl
  let baseCols := baseTbl.columns
  let targetCols := targetTbl.columns
  (targetCols.items.filter fun e => e.1 ∉ baseCols.keys).map (fun e =>
    Stmt.addColumn table (columnClause unicode source target e.1 e.2)) ++
  (baseCols.keys.filter fun name => name ∉ targetCols.keys).map (Stmt.dropColumn table) ++
  targetCols.items.flatMap (fun e =>
    match baseCols.get? e.1 with
    | none => []
    | some old => alterColumnSql unicode source target table e.1 old e.2) ++
  (if baseTbl.pk ≠ targetTbl.pk then [.notePrimaryKey table targetTbl.pk] else []) ++
  if baseTbl.comment ≠ targetTbl.comment ∧ target = .postgresql then
    [commentSql table targetTbl.comment] else []

end

/-- `_fk_endpoints` -/
def fkEndpoints (fk : Fk) (tables : Dict Str Table) : Option (TableName × TableName) :=
  match tables.get? fk.childTable, tables.get? fk.parentTable with
  | some child, some parent => some (tableName child, tableName parent)
  | _, _ => none

/-- `_add_fk_sql` -/
def addFkSql (fk : Fk) (tables : Dict Str Table) : Option Stmt :=
  (fkEndpoints fk tables).map fun ends =>
    .addForeignKey ends.1 fk.name fk.childColumns ends.2 fk.parentColumns

/-- `_drop_fk_sql` -/
def dropFkSql (fk : Fk) (tables : Dict Str Table) : Option Stmt :=
  (fkEndpoints fk tables).map fun ends =>
    match fk.name with
    | some name => .dropConstraint ends.1 name
    | none => .noteUnnamedFk ends.1 fk.childColumns

/-- `_create_missing_schema_sql` -/
def createMissingSchemaSql (baseTables targetTables : Dict Str Table) : List Stmt :=
  let baseSchemas := (baseTables.values.map Table.schemaName).filter (· ≠ [])
  let added := (targetTables.items.filter fun e => e.1 ∉ baseTables.keys).map fun e =>
    e.2.schemaName
  let missing := added.filter fun schema => schema ≠ [] ∧ schema ∉ baseSchemas
  (sortedStrs missing.dedup).map .createSchema

/-- A dropped child table takes its foreign keys with it, unless the parent is dropped too. -/
def dropsWithChild (b t : Index) (fk : Fk) : Bool :=
  fk.childTable ∈ b.tables.keys && fk.childTable ∉ t.tables.keys &&
    !(fk.parentTable ∈ b.tables.keys && fk.parentTable ∉ t.tables.keys)

/-- Foreign keys that go, without those that go with their table. -/
def dropFkStmts (b t : Index) : List Stmt :=
  (b.fks.items.filter fun e => e.1 ∉ t.fks.keys && !dropsWithChild b t e.2).filterMap fun e =>
    dropFkSql e.2 b.tables

/-- Tables that go. -/
def dropTableStmts (b t : Index) : List Stmt :=
  (b.tables.items.filter fun e => e.1 ∉ t.tables.keys).map fun e => .dropTable (tableName e.2)

/-- Tables that come. -/
def createTableStmts (source target : Dialect) (b t : Index) : List Stmt :=
  (t.tables.items.filter fun e => e.1 ∉ b.tables.keys).map fun e =>
    createTableSql unicode source target e.2

/-- Tables that stay. -/
def alterTableStmts (source target : Dialect) (b t : Index) : List Stmt :=
  t.tables.items.flatMap fun e =>
    match b.tables.get? e.1 with
    | none => []
    | some baseTbl => alterTableSql unicode source target baseTbl e.2

/-- Foreign keys that come. -/
def addFkStmts (b t : Index) : List Stmt :=
  (t.fks.items.filter fun e => e.1 ∉ b.fks.keys).filterMap fun e => addFkSql e.2 t.tables

/-- The statements for two indexes, in their order. -/
def migrationStmts (source target : Dialect) (b t : Index) : List Stmt :=
  dropFkStmts b t ++ dropTableStmts b t ++ createMissingSchemaSql b.tables t.tables ++
    createTableStmts unicode source target b t ++ alterTableStmts unicode source target b t ++
    addFkStmts b t

variable {Oid Oid' : Type} [DecidableEq Oid] [DecidableEq Oid']

/-- The statements of a migration to the dialect `target`. -/
def snapshotDiffStmts (base : Snapshot Oid) (target : Snapshot Oid') (dialect : Dialect) :
    List Stmt :=
  migrationStmts unicode (snapshotSourceDialect unicode target) dialect (indexSnapshot base)
    (indexSnapshot target)

/-- `snapshot_diff_to_migration_sql` -/
def snapshotDiffToMigrationSql (base : Snapshot Oid) (target : Snapshot Oid')
    (targetDialect : Str) : Except Str Str := do
  let dialect ← normalizeDialect unicode targetDialect
  let stmts := snapshotDiffStmts unicode base target dialect
  if stmts = [] then pure "-- No schema changes.\n".toList
  else pure ("-- Migration (".toList ++ dialect.text ++ "): base -> target\n".toList ++
    join "\n".toList (stmts.map (Stmt.text dialect)) ++ "\n".toList)

end PgErdCloud.Ddl
