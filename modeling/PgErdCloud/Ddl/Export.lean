/-
  The DDL exporter (app/ddl/export.py): a captured snapshot as a script for PostgreSQL or
  Snowflake. A script is a list of statements; a statement is written as a list of pieces,
  which keep apart what the exporter writes itself, the names it quotes, and the fragments
  of SQL that it takes from the snapshot as they are.
-/
import PgErdCloud.Ddl.Migration

namespace PgErdCloud.Ddl

open Lib Lib.PyStr Diff

variable (unicode : Unicode)

/-! ## Rows

A key that is missing or holds a value of another type is `none`. -/

/-- A row of `relations`. -/
structure ExportRelation where
  schemaName : Option Str
  relationName : Option Str
  relationOid : Option Int
  relationKind : Option Str
  tablespaceName : Option Str
  partitionKey : Option Str
  partitionBound : Option Str
  partitionParentSchema : Option Str
  partitionParentName : Option Str
  isPartition : Bool
  deriving DecidableEq

/-- A row of `columns`. -/
structure ExportColumn where
  relationOid : Option Int
  columnPosition : Option Int
  columnName : Option Str
  type : ColumnType
  hasDefault : Bool
  defaultExpr : Option Str
  isNotNull : Bool

/-- `constrainedAttnums`: the elements that are no integers are `none`. -/
structure ExportConstraint where
  relationOid : Option Int
  schemaName : Option Str
  relationName : Option Str
  constraintName : Option Str
  constraintType : Option Str
  constraintDef : Option Str
  constrainedAttnums : Option (List (Option Int))
  deriving DecidableEq

/-- A row of `indexes`. -/
structure ExportIndex where
  indexName : Option Str
  tableSchemaName : Option Str
  tableName : Option Str
  indexTablespaceName : Option Str
  indexDef : Option Str
  deriving DecidableEq

/-- The rows that the exporter reads. -/
structure ExportSnapshot where
  relations : List ExportRelation
  columns : List ExportColumn
  constraints : List ExportConstraint
  indexes : List ExportIndex
  sourceDialect : Option Str
  databaseDialect : Option Str
  dialect : Option Str

/-- `_snapshot_source_dialect`: the first dialect that is named and known. -/
def ExportSnapshot.dialectOf (s : ExportSnapshot) : Dialect :=
  let named := [s.sourceDialect, s.databaseDialect, s.dialect].filterMap fun value =>
    value.bind fun text => (normalizeDialect unicode text).toOption
  named.headD .postgresql

/-! ## Pieces -/

/-- A part of a statement. Only the parts that are no text of the exporter depend on the database.
    -/
inductive Piece
  /-- text of the exporter -/
  | sql (text : Str)
  /-- a name, quoted -/
  | name (ident : Str)
  /-- a name as it is -/
  | bare (ident : Str)
  /-- SQL of the snapshot -/
  | fragment (text : Str)
  /-- a string literal, with its quotes doubled -/
  | literal (text : Str)
  deriving DecidableEq

/-- The text of a part: a name is quoted, a literal has its quotes doubled. -/
def Piece.text : Piece → Str
  | .sql text | .fragment text | .bare text => text
  | .name ident => q ident
  | .literal text => "'".toList ++ replaceChar '\'' "''".toList text ++ "'".toList

/-- The text of some parts. -/
def piecesText (pieces : List Piece) : Str := pieces.flatMap Piece.text

/-- A text of the exporter. -/
def sql (text : String) : Piece := .sql text.toList

/-- `_qname` -/
def tablePieces (table : TableName) : List Piece :=
  [.name table.schema, sql ".", .name table.name]

/-- `", ".join(_q(name) for name in names)` -/
def namePieces (names : List Str) : List Piece :=
  [sql ", "].intercalate (names.map fun name => [.name name])

/-- `_tablespace_clause` -/
def tablespaceClause : Option Str → List Piece
  | some tablespace => [sql " TABLESPACE ", .name tablespace]
  | none => []

/-! ## Statements -/

/-- A line between the parentheses of a `CREATE TABLE`. -/
inductive TableDef
  | column (name type : Str) (default : Option Str) (isNotNull : Bool)
  | constraint (name definition : Str)
  | keyConstraint (name : Str) (isPrimary : Bool) (columns : List Str)
  deriving DecidableEq

/-- What is written for a column or a constraint. -/
def TableDef.pieces : TableDef → List Piece
  | .column name type default isNotNull =>
      [.name name, sql " ", .fragment type] ++
        (match default with
          | some expr => [sql " DEFAULT ", .fragment expr]
          | none => []) ++
        if isNotNull then [sql " NOT NULL"] else []
  | .constraint name definition => [sql "CONSTRAINT ", .name name, sql " ", .fragment definition]
  | .keyConstraint name isPrimary columns =>
      [sql "CONSTRAINT ", .name name, sql (if isPrimary then " PRIMARY KEY (" else " UNIQUE (")] ++
        namePieces columns ++ [sql ")"]

/-- What the exporter emits: statements, notes and headings. -/
inductive ExportStmt
  | header (target : Dialect)
  | blank
  | createSchema (schema : Str)
  | notePartitioned (table : TableName)
  | createTable (table : TableName) (defs : List TableDef) (partitionKey tablespace : Option Str)
  | createPartition (table parent : TableName) (bound : Str) (partitionKey tablespace : Option Str)
  | foreignKeysHeading
  | addConstraint (table : TableName) (name definition : Str)
  | indexesHeading (target : Dialect)
  /-- `table` is the one the row names; the text has its own. -/
  | createIndex (table : Option TableName) (name : Option Str) (definition : Str)
      (tablespace : Option Str)
  | noteSkippedCheck (constraint : Str) (table : TableName)
  | noteSkippedTablespace (tablespace : Str) (table : TableName)
  | noteSkippedPartition (table : TableName)
  | noteIndex (index : Str) (table : TableName)
  | noteIndexMetadata
  deriving DecidableEq

/-- `PARTITION BY` of a partitioned table. -/
def partitionClause : Option Str → List Piece
  | some key => [sql " PARTITION BY ", .fragment key]
  | none => []

/-- The lines between the parentheses, each with its line break before it. -/
def defsPieces (defs : List TableDef) : List Piece :=
  [sql ","].intercalate (defs.map fun d => sql "\n  " :: d.pieces)

/-- What is written for a statement, a note or a heading. -/
def ExportStmt.pieces : ExportStmt → List Piece
  | .header .postgresql => [sql "-- Generated by pg-erd-cloud (MVP)\n"]
  | .header .snowflake => [sql "-- Generated by pg-erd-cloud (MVP) for Snowflake\n"]
  | .blank => []
  | .createSchema schema => [sql "CREATE SCHEMA IF NOT EXISTS ", .name schema, sql ";"]
  | .notePartitioned table =>
      sql "-- NOTE: " :: tablePieces table ++
        [sql " is partitioned; partition definition not included in MVP export"]
  | .createTable table defs partitionKey tablespace =>
      sql "CREATE TABLE IF NOT EXISTS " :: tablePieces table ++ [sql " ("] ++ defsPieces defs ++
        [sql "\n)"] ++ partitionClause partitionKey ++ tablespaceClause tablespace ++ [sql ";"]
  | .createPartition table parent bound partitionKey tablespace =>
      sql "CREATE TABLE IF NOT EXISTS " :: tablePieces table ++ [sql " PARTITION OF "] ++
        tablePieces parent ++ [sql " ", .fragment bound] ++ partitionClause partitionKey ++
        tablespaceClause tablespace ++ [sql ";"]
  | .foreignKeysHeading => [sql "-- Foreign keys"]
  | .addConstraint table name definition =>
      sql "ALTER TABLE " :: tablePieces table ++
        [sql " ADD CONSTRAINT ", .name name, sql " ", .fragment definition, sql ";"]
  | .indexesHeading .postgresql =>
      [sql "-- Indexes (CONCURRENTLY; run outside a transaction)"]
  | .indexesHeading .snowflake => [sql "-- Indexes"]
  | .createIndex _ _ definition tablespace =>
      .fragment definition :: tablespaceClause tablespace ++ [sql ";"]
  | .noteSkippedCheck constraint table =>
      [sql "-- NOTE: skipped PostgreSQL CHECK constraint ", .name constraint, sql " on "] ++
        tablePieces table ++ [sql " for Snowflake export."]
  | .noteSkippedTablespace tablespace table =>
      [sql "-- NOTE: skipped PostgreSQL TABLESPACE ", .name tablespace, sql " on "] ++
        tablePieces table ++ [sql " for Snowflake export."]
  | .noteSkippedPartition table =>
      sql "-- NOTE: skipped PostgreSQL partition metadata on " :: tablePieces table ++
        [sql " for Snowflake export."]
  | .noteIndex index table =>
      [sql "-- NOTE: PostgreSQL index ", .name index, sql " on "] ++ tablePieces table ++
        [sql (" is not emitted for Snowflake; consider clustering/search optimization as " ++
          "needed.")]
  | .noteIndexMetadata => [sql "-- NOTE: PostgreSQL index metadata is not emitted for Snowflake."]

/-- The text of a statement, a note or a heading. -/
def ExportStmt.text (stmt : ExportStmt) : Str := piecesText stmt.pieces

/-! ## Shared parts -/

/-- `_snapshot_tables` -/
def snapshotTables (s : ExportSnapshot) : List ExportRelation :=
  s.relations.filter fun rel =>
    rel.relationKind = some "r".toList ∨ rel.relationKind = some "p".toList

/-- The group of an object id in `_group_by_relation`. -/
def groupByRelation {Row : Type} (oidOf : Row → Option Int) (rows : List Row) (oid : Int) :
    List Row :=
  rows.filter fun row => oidOf row = some oid

/-- `_render_schemas` -/
def renderSchemas (tables : List ExportRelation) : List ExportStmt :=
  let schemas := (tables.filterMap ExportRelation.schemaName).dedup
  (sortedStrs schemas).map .createSchema ++ if schemas ≠ [] then [.blank] else []

/-- The columns in the order of their positions. -/
def sortedColumns (columns : List ExportColumn) : List ExportColumn :=
  columns.insertionSort fun a b => a.columnPosition.getD 0 ≤ b.columnPosition.getD 0

/-- `[-+]?\d+(?:\.\d+)?` -/
def isNumberLiteral (expr : Str) : Bool :=
  let unsigned := match expr with
    | '-' :: rest | '+' :: rest => rest
    | _ => expr
  match takeDigits unicode unsigned with
  | some (_, []) => true
  | some (_, '.' :: rest) =>
      match takeDigits unicode rest with
      | some (_, []) => true
      | _ => false
  | _ => false

/-- `(?:''|[^'])*'` -/
def isLiteralRest : Str → Bool
  | [] => false
  | ['\''] => true
  | '\'' :: '\'' :: rest => isLiteralRest rest
  | '\'' :: _ => false
  | _ :: rest => isLiteralRest rest

/-- A single literal in quotes, with those within doubled. -/
def isStringLiteral : Str → Bool
  | '\'' :: rest => isLiteralRest rest
  | _ => false

/-- The functions that have a counterpart in Snowflake. -/
def snowflakeFunctions : List (Str × Str) :=
  [("NOW()", "CURRENT_TIMESTAMP()"), ("CURRENT_TIMESTAMP", "CURRENT_TIMESTAMP()"),
    ("CURRENT_TIMESTAMP()", "CURRENT_TIMESTAMP()"), ("CURRENT_DATE", "CURRENT_DATE()"),
    ("CURRENT_DATE()", "CURRENT_DATE()"), ("CURRENT_TIME", "CURRENT_TIME()"),
    ("CURRENT_TIME()", "CURRENT_TIME()"), ("GEN_RANDOM_UUID()", "UUID_STRING()"),
    ("UUID_GENERATE_V4()", "UUID_STRING()")].map fun e => (e.1.toList, e.2.toList)

/-- What follows `DEFAULT`. -/
def columnDefaultClause (defaultExpr : Option Str) (target : Dialect) : Option Str :=
  match defaultExpr.map strip with
  | none => none
  | some expr =>
      if expr = [] then none
      else match target with
        | .postgresql => some expr
        | .snowflake =>
            let upper := unicode.upper expr
            if contains "::".toList expr || contains "NEXTVAL(".toList upper then none
            else if isNumberLiteral unicode expr || isStringLiteral expr then some expr
            else if upper ∈ ["TRUE".toList, "FALSE".toList] then some upper
            else snowflakeFunctions.lookup upper

/-- The columns of a table that have a name. -/
def renderTableColumns (s : ExportSnapshot) (oid : Int) (target : Dialect) : List TableDef :=
  (sortedColumns (groupByRelation ExportColumn.relationOid s.columns oid)).filterMap fun col =>
    col.columnName.map fun name =>
      .column name (mappedDataType unicode col.type (s.dialectOf unicode) target)
        (if col.hasDefault then columnDefaultClause unicode col.defaultExpr target else none)
        col.isNotNull

/-- The name and the definition of a constraint that has both. -/
def ExportConstraint.defined (con : ExportConstraint) : Option (Str × Str) :=
  match con.constraintName, con.constraintDef with
  | some name, some definition => some (name, definition)
  | _, _ => none

/-- The table of a row with schema and name. -/
def tableOfRow : Option Str → Option Str → Option TableName
  | some schema, some name => some ⟨schema, name⟩
  | _, _ => none

/-- `_render_foreign_keys` -/
def renderForeignKeys (constraints : List ExportConstraint) : List ExportStmt :=
  let fkCons := constraints.filter fun con => con.constraintType = some "f".toList
  let stmts := fkCons.filterMap fun con =>
    match tableOfRow con.schemaName con.relationName, con.defined with
    | some table, some (name, definition) => some (.addConstraint table name definition)
    | _, _ => none
  if fkCons = [] then [] else .foreignKeysHeading :: stmts ++ [.blank]

/-! ## PostgreSQL -/

/-- A word without regard to case at the front, and the rest. -/
def dropWord (word s : Str) : Option Str :=
  if (s.take word.length).map Char.toUpper = word then some (s.drop word.length) else none

/-- `\s+`, all of it. -/
def dropSpaces (s : Str) : Option Str :=
  match s with
  | c :: _ => if isSpace c then some (s.dropWhile isSpace) else none
  | [] => none

/-- `\b` after a word. -/
def atBoundary (s : Str) : Bool :=
  match s with
  | c :: _ => !(unicode.isAlnum c || c = '_')
  | [] => true

/-- `\s+(?!CONCURRENTLY\b)`: where the word follows, one blank is given back if there are two. -/
def dropSpacesUnlessConcurrently (s : Str) : Option Str :=
  match dropSpaces s with
  | none => none
  | some rest =>
      match dropWord "CONCURRENTLY".toList rest with
      | some after =>
          if atBoundary unicode after then
            let blanks := s.takeWhile isSpace
            if blanks.length < 2 then none else some (blanks.drop (blanks.length - 1) ++ rest)
          else some rest
      | none => some rest

/-- `(UNIQUE\s+)?`: the matched text and the rest. -/
def takeUnique (s : Str) : Str × Str :=
  match (dropWord "UNIQUE".toList s).bind dropSpaces with
  | some rest => (s.take (s.length - rest.length), rest)
  | none => ([], s)

/-- Add `CONCURRENTLY` to a `CREATE INDEX`. -/
def indexDefWithConcurrently (indexDef : Str) : Str :=
  match (dropWord "CREATE".toList indexDef).bind dropSpaces with
  | none => indexDef
  | some rest =>
      let (unique, rest) := takeUnique rest
      match (dropWord "INDEX".toList rest).bind (dropSpacesUnlessConcurrently unicode) with
      | some rest => "CREATE ".toList ++ unique ++ "INDEX CONCURRENTLY ".toList ++ rest
      | none => indexDef

/-- The statement of an index, with its tablespace where the definition names none. -/
def renderIndexPg (ix : ExportIndex) : Option ExportStmt :=
  ix.indexDef.map fun indexDef =>
    let definition := indexDefWithConcurrently unicode (rstripChars ";".toList (strip indexDef))
    let tablespace := if contains " TABLESPACE ".toList (unicode.upper definition) then none
      else ix.indexTablespaceName
    .createIndex (tableOfRow ix.tableSchemaName ix.tableName) ix.indexName definition tablespace

/-- `_render_indexes_pg` -/
def renderIndexesPg (indexes : List ExportIndex) : List ExportStmt :=
  (if indexes = [] then [] else [.indexesHeading .postgresql]) ++
    indexes.filterMap (renderIndexPg unicode)

/-- `_render_table_constraints_pg`: keys and checks, as the database defines them. -/
def renderTableConstraintsPg (constraints : List ExportConstraint) (oid : Int) : List TableDef :=
  (groupByRelation ExportConstraint.relationOid constraints oid).filterMap fun con =>
    if con.constraintType ∈ [some "p".toList, some "u".toList, some "c".toList] then
      con.defined.map fun (name, definition) => .constraint name definition
    else none

/-- The parent and the bound of a partition that has both. -/
def ExportRelation.partitionOf (rel : ExportRelation) : Option (TableName × Str) :=
  if rel.isPartition then
    match tableOfRow rel.partitionParentSchema rel.partitionParentName, rel.partitionBound with
    | some parent, some bound => some (parent, bound)
    | _, _ => none
  else none

/-- `_render_table_pg` -/
def renderTablePg (s : ExportSnapshot) (rel : ExportRelation) : List ExportStmt :=
  match tableOfRow rel.schemaName rel.relationName, rel.relationOid with
  | some table, some oid =>
      match rel.partitionOf with
      | some (parent, bound) =>
          [.createPartition table parent bound rel.partitionKey rel.tablespaceName, .blank]
      | none =>
          let isParent := rel.relationKind = some "p".toList
          (if isParent ∧ rel.partitionKey = none then [.notePartitioned table] else []) ++
            [.createTable table
                (renderTableColumns unicode s oid .postgresql ++
                  renderTableConstraintsPg s.constraints oid)
                (if isParent then rel.partitionKey else none) rel.tablespaceName,
              .blank]
  | _, _ => []

/-- The statements of `_snapshot_json_to_postgresql_sql`. -/
def postgresqlStmts (s : ExportSnapshot) : List ExportStmt :=
  [.header .postgresql] ++ renderSchemas (snapshotTables s) ++
    (snapshotTables s).flatMap (renderTablePg unicode s) ++ renderForeignKeys s.constraints ++
    renderIndexesPg unicode s.indexes ++ [.blank]

/-! ## Snowflake -/

/-- The names of the constrained columns, or none if one of them is not found. -/
def constraintColumnNames (columns : List ExportColumn) (con : ExportConstraint) : List Str :=
  match con.relationOid, con.constrainedAttnums with
  | some oid, some attnums =>
      let colsByAttnum := (groupByRelation ExportColumn.relationOid columns oid).foldl
        (fun (names : Dict Int Str) col => match col.columnPosition, col.columnName with
          | some position, some name => names.set position name
          | _, _ => names) .empty
      (attnums.mapM fun (attnum : Option Int) => attnum.bind colsByAttnum.get?).getD []
  | _, _ => []

/-- A key of a table, written out from its columns. -/
def renderTableConstraintSnowflake (columns : List ExportColumn) (con : ExportConstraint) :
    Option TableDef :=
  con.defined.bind fun (name, definition) =>
    let isPrimary := con.constraintType = some "p".toList
    if isPrimary ∨ con.constraintType = some "u".toList then
      match constraintColumnNames columns con with
      | [] => some (.constraint name definition)
      | names => some (.keyConstraint name isPrimary names)
    else none

/-- The names of the checks that Snowflake does not get. -/
def skippedChecks (constraints : List ExportConstraint) : List Str :=
  constraints.filterMap fun con =>
    if con.constraintType = some "c".toList then con.defined.map Prod.fst else none

/-- A table and the notes on what Snowflake has not. -/
def renderTableSnowflake (s : ExportSnapshot) (rel : ExportRelation) : List ExportStmt :=
  match tableOfRow rel.schemaName rel.relationName, rel.relationOid with
  | some table, some oid =>
      let constraints := groupByRelation ExportConstraint.relationOid s.constraints oid
      [.createTable table
          (renderTableColumns unicode s oid .snowflake ++
            constraints.filterMap (renderTableConstraintSnowflake s.columns))
          none none] ++
        (skippedChecks constraints).map (.noteSkippedCheck · table) ++
        (rel.tablespaceName.map (.noteSkippedTablespace · table)).toList ++
        (if rel.relationKind = some "p".toList ∨ rel.isPartition then
          [.noteSkippedPartition table] else []) ++
        [.blank]
  | _, _ => []

/-- The note on an index. -/
def renderIndexSnowflake (ix : ExportIndex) : ExportStmt :=
  match ix.indexName, tableOfRow ix.tableSchemaName ix.tableName with
  | some name, some table => .noteIndex name table
  | _, _ => .noteIndexMetadata

/-- `_render_indexes_snowflake` -/
def renderIndexesSnowflake (indexes : List ExportIndex) : List ExportStmt :=
  (if indexes = [] then [] else [.indexesHeading .snowflake]) ++
    indexes.map renderIndexSnowflake

/-- The statements of `_snapshot_json_to_snowflake_sql`. -/
def snowflakeStmts (s : ExportSnapshot) : List ExportStmt :=
  [.header .snowflake] ++ renderSchemas (snapshotTables s) ++
    (snapshotTables s).flatMap (renderTableSnowflake unicode s) ++
    renderForeignKeys s.constraints ++ renderIndexesSnowflake s.indexes ++ [.blank]

/-- What is emitted for a dialect. -/
def exportStmts (s : ExportSnapshot) : Dialect → List ExportStmt
  | .postgresql => postgresqlStmts unicode s
  | .snowflake => snowflakeStmts unicode s

/-- The lines of a script, joined. -/
def exportText (stmts : List ExportStmt) : Str := join "\n".toList (stmts.map ExportStmt.text)

/-- `snapshot_json_to_sql` -/
def snapshotJsonToSql (s : ExportSnapshot) (targetDialect : Str) : Except Str Str := do
  let target ← normalizeDialect unicode targetDialect
  pure (exportText (exportStmts unicode s target))

end PgErdCloud.Ddl
