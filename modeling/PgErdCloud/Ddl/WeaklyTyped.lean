/-
  The DDL exporter on a snapshot as it is stored: an object of JSON with anything in it. A value
  of another type than the exporter expects is passed over, except for the positions by which it
  sorts the columns of a table, which it converts.

  `snapshotJsonToSql_succeeds_iff` is about every JSON object and every known dialect: there is a
  text exactly when the positions of the columns that are written can be sorted.
-/
import PgErdCloud.Ddl.Export
import PgErdCloud.Lib.Fallible
import PgErdCloud.Lib.PyValue

namespace PgErdCloud.Ddl.WeaklyTyped

open Lib Lib.PyStr Diff

variable (unicode : Unicode) (decimal : Char → Option Nat)

/-! ## Reading rows -/

/-- A dictionary with text keys, as JSON has it. -/
abbrev Row := List (Str × PyValue)

/-- `_rows` -/
def rows (snapshot : Row) (key : String) : List Row :=
  (((PyValue.get snapshot key).asList?).getD []).filterMap PyValue.asDict?

/-- A member that is a text. -/
def strOf (row : Row) (key : String) : Option Str := (PyValue.get row key).asStr?

/-- A member that is a number. -/
def intOf (row : Row) (key : String) : Option Int := (PyValue.get row key).asInt?

/-- A row of `relations`, of any dictionary. -/
def readRelation (row : Row) : ExportRelation where
  schemaName := strOf row "schema_name"
  relationName := strOf row "relation_name"
  relationOid := intOf row "relation_oid"
  relationKind := strOf row "relation_kind"
  tablespaceName := strOf row "tablespace_name"
  partitionKey := strOf row "partition_key"
  partitionBound := strOf row "partition_bound"
  partitionParentSchema := strOf row "partition_parent_schema"
  partitionParentName := strOf row "partition_parent_name"
  isPartition := (PyValue.get row "is_partition").isTrue

/-- A row of `columns`, with the position as it stands there. -/
structure RawColumn where
  position : PyValue
  column : ExportColumn

/-- A row of `columns`, whose position may be anything. -/
def readColumn (row : Row) : RawColumn where
  position := PyValue.get row "column_position"
  column :=
    { relationOid := intOf row "relation_oid"
      columnPosition := intOf row "column_position"
      columnName := strOf row "column_name"
      type :=
        { dataType := strOf row "data_type"
          domainBaseType := strOf row "domain_base_type"
          hasArrayDimensions := (PyValue.get row "array_dimensions").truthy }
      hasDefault := (PyValue.get row "has_default").truthy
      defaultExpr := strOf row "default_expr"
      isNotNull := (PyValue.get row "is_not_null").isTrue }

/-- A row of `constraints`, of any dictionary. -/
def readConstraint (row : Row) : ExportConstraint where
  relationOid := intOf row "relation_oid"
  schemaName := strOf row "schema_name"
  relationName := strOf row "relation_name"
  constraintName := strOf row "constraint_name"
  constraintType := strOf row "constraint_type"
  constraintDef := strOf row "constraint_def"
  constrainedAttnums :=
    ((PyValue.get row "constrained_attnums").asList?).map fun attnums => attnums.map PyValue.asInt?

/-- A row of `indexes`, of any dictionary. -/
def readIndex (row : Row) : ExportIndex where
  indexName := strOf row "index_name"
  tableSchemaName := strOf row "table_schema_name"
  tableName := strOf row "table_name"
  indexTablespaceName := strOf row "index_tablespace_name"
  indexDef := strOf row "index_def"

/-- The rows of `columns`. -/
def readColumns (snapshot : Row) : List RawColumn := (rows snapshot "columns").map readColumn

/-- What the checks of the exporter let through. -/
def readSnapshot (snapshot : Row) : ExportSnapshot where
  relations := (rows snapshot "relations").map readRelation
  columns := (readColumns snapshot).map RawColumn.column
  constraints := (rows snapshot "constraints").map readConstraint
  indexes := (rows snapshot "indexes").map readIndex
  sourceDialect := strOf snapshot "source_dialect"
  databaseDialect := strOf snapshot "database_dialect"
  dialect := strOf snapshot "dialect"

/-! ## Columns -/

/-- `int(x.get("column_position") or 0)` -/
def sortKey (position : PyValue) : Except PyError Int :=
  if position.truthy then position.toInt decimal else .ok 0

/-- `sorted(columns, key=…)` -/
def sortedByPosition (columns : List RawColumn) : Except PyError (List ExportColumn) := do
  let keyed ← columns.mapM fun col => (sortKey decimal col.position).map fun key =>
    (key, col.column)
  pure ((keyed.insertionSort fun a b => a.1 ≤ b.1).map Prod.snd)

/-- The declaration of a column that has a name. -/
def renderColumn (source target : Dialect) (col : ExportColumn) : Option TableDef :=
  col.columnName.map fun name =>
    .column name (mappedDataType unicode col.type source target)
      (if col.hasDefault then columnDefaultClause unicode col.defaultExpr target else none)
      col.isNotNull

/-- The columns of a table by position; to sort them, the code takes `int` of each. -/
def renderTableColumns (columns : List RawColumn) (oid : Int) (source target : Dialect) :
    Except PyError (List TableDef) := do
  let sorted ← sortedByPosition decimal
    (groupByRelation (fun col => col.column.relationOid) columns oid)
  pure (sorted.filterMap (renderColumn unicode source target))

/-! ## Tables -/

section

variable (s : ExportSnapshot) (columns : List RawColumn)

/-- `_render_table_pg`, where sorting the columns may raise. -/
def renderTablePg (rel : ExportRelation) : Except PyError (List ExportStmt) :=
  match tableOfRow rel.schemaName rel.relationName, rel.relationOid with
  | some table, some oid =>
      match rel.partitionOf with
      | some (parent, bound) =>
          .ok [.createPartition table parent bound rel.partitionKey rel.tablespaceName, .blank]
      | none => do
          let isParent := rel.relationKind = some "p".toList
          let columnDefs ← renderTableColumns unicode decimal columns oid (s.dialectOf unicode)
            .postgresql
          pure ((if isParent ∧ rel.partitionKey = none then [.notePartitioned table] else []) ++
            [.createTable table (columnDefs ++ renderTableConstraintsPg s.constraints oid)
                (if isParent then rel.partitionKey else none) rel.tablespaceName,
              .blank])
  | _, _ => .ok []

/-- A table for Snowflake, where sorting the columns may raise. -/
def renderTableSnowflake (rel : ExportRelation) : Except PyError (List ExportStmt) :=
  match tableOfRow rel.schemaName rel.relationName, rel.relationOid with
  | some table, some oid => do
      let constraints := groupByRelation ExportConstraint.relationOid s.constraints oid
      let columnDefs ← renderTableColumns unicode decimal columns oid (s.dialectOf unicode)
        .snowflake
      pure ([.createTable table
          (columnDefs ++ constraints.filterMap (renderTableConstraintSnowflake s.columns))
          none none] ++
        (skippedChecks constraints).map (.noteSkippedCheck · table) ++
        (rel.tablespaceName.map (.noteSkippedTablespace · table)).toList ++
        (if rel.relationKind = some "p".toList ∨ rel.isPartition then
          [.noteSkippedPartition table] else []) ++
        [.blank])
  | _, _ => .ok []

/-- The statements of `_snapshot_json_to_postgresql_sql`. -/
def postgresqlStmts : Except PyError (List ExportStmt) := do
  let tables ← (snapshotTables s).mapM (renderTablePg unicode decimal s columns)
  pure ([.header .postgresql] ++ renderSchemas (snapshotTables s) ++ tables.flatten ++
    renderForeignKeys s.constraints ++ renderIndexesPg unicode s.indexes ++ [.blank])

/-- The statements of `_snapshot_json_to_snowflake_sql`. -/
def snowflakeStmts : Except PyError (List ExportStmt) := do
  let tables ← (snapshotTables s).mapM (renderTableSnowflake unicode decimal s columns)
  pure ([.header .snowflake] ++ renderSchemas (snapshotTables s) ++ tables.flatten ++
    renderForeignKeys s.constraints ++ renderIndexesSnowflake s.indexes ++ [.blank])

/-- What is emitted for a dialect, or the error of the first table that has one. -/
def exportStmts : Dialect → Except PyError (List ExportStmt)
  | .postgresql => postgresqlStmts unicode decimal s columns
  | .snowflake => snowflakeStmts unicode decimal s columns

end

/-- Why there is no text: the dialect is refused, or Python raises. -/
inductive ExportError
  | unsupportedDialect (message : Str)
  | raised (error : PyError)

/-- `snapshot_json_to_sql` of any dictionary. -/
def snapshotJsonToSql (snapshot : Row) (targetDialect : Str) : Except ExportError Str := do
  let target ← (normalizeDialect unicode targetDialect).mapError .unsupportedDialect
  let stmts ← (exportStmts unicode decimal (readSnapshot snapshot) (readColumns snapshot)
    target).mapError .raised
  pure (exportText stmts)

/-! ## Where it succeeds -/

section Fallible

open Fallible

variable {ε α β : Type}

theorem exists_mapM_iff {f : α → Except ε β} {xs : List α} :
    (∃ ys, xs.mapM f = .ok ys) ↔ ∀ x ∈ xs, ∃ y, f x = .ok y := by
  constructor
  · rintro ⟨ys, h⟩ x hx
    obtain ⟨y, -, hy⟩ := exists_output_of_mapM h hx
    exact ⟨y, hy⟩
  · exact exists_mapM_eq_ok

theorem exists_bind_pure_iff {x : Except ε α} {f : α → β} :
    (∃ b, (x >>= fun a => pure (f a)) = .ok b) ↔ ∃ a, x = .ok a := by
  cases x with
  | error e => exact iff_of_false (fun ⟨_, h⟩ => by cases h) (fun ⟨_, h⟩ => by cases h)
  | ok a => exact ⟨fun _ => ⟨a, rfl⟩, fun _ => ⟨f a, rfl⟩⟩

theorem exists_map_iff {x : Except ε α} {f : α → β} :
    (∃ b, x.map f = .ok b) ↔ ∃ a, x = .ok a := exists_bind_pure_iff

end Fallible

/-- The position is missing, false or empty, or it is a number or the text of one. -/
def isPosition : PyValue → Bool
  | .none | .bool _ | .int _ | .float (.finite _) => true
  | .float _ => false
  | .str s => s = [] || (PyInt.parseInt decimal s).isSome
  | .list items => items.isEmpty
  | .dict members => members.isEmpty

theorem exists_sortKey_iff (position : PyValue) :
    (∃ key, sortKey decimal position = .ok key) ↔ isPosition decimal position = true := by
  rw [sortKey]
  cases position with
  | none => simp [PyValue.truthy, isPosition]
  | bool b => cases b <;> simp [PyValue.truthy, PyValue.toInt, isPosition]
  | int n => by_cases hn : n = 0 <;> simp [PyValue.truthy, PyValue.toInt, isPosition, hn]
  | float x =>
      cases x with
      | finite value =>
          by_cases hvalue : value = 0 <;> simp [PyValue.truthy, PyValue.toInt, isPosition, hvalue]
      | infinity negative => simp [PyValue.truthy, PyValue.toInt, isPosition]
      | nan => simp [PyValue.truthy, PyValue.toInt, isPosition]
  | str s =>
      by_cases hs : s = []
      · simp [PyValue.truthy, isPosition, hs]
      · cases hparse : PyInt.parseInt decimal s <;>
          simp [PyValue.truthy, PyValue.toInt, isPosition, hs, hparse]
  | list items => cases items <;> simp [PyValue.truthy, PyValue.toInt, isPosition]
  | dict members => cases members <;> simp [PyValue.truthy, PyValue.toInt, isPosition]

/-- The columns of a table whose positions are all converted. -/
def PositionsOk (columns : List RawColumn) (oid : Int) : Prop :=
  ∀ col ∈ columns, col.column.relationOid = some oid → isPosition decimal col.position = true

theorem exists_renderTableColumns_iff (columns : List RawColumn) (oid : Int)
    (source target : Dialect) :
    (∃ defs, renderTableColumns unicode decimal columns oid source target = .ok defs) ↔
      PositionsOk decimal columns oid := by
  have hgroup (col : RawColumn) :
      col ∈ groupByRelation (fun col : RawColumn => col.column.relationOid) columns oid ↔
        col ∈ columns ∧ col.column.relationOid = some oid := by
    rw [groupByRelation, List.mem_filter, decide_eq_true_iff]
  rw [renderTableColumns, exists_bind_pure_iff, sortedByPosition, exists_bind_pure_iff,
    exists_mapM_iff]
  simp only [exists_map_iff, exists_sortKey_iff, hgroup, and_imp]
  rfl

/-- The exporter writes the columns of the table with this object id. A partition of PostgreSQL
    has none of its own. -/
def WritesColumns (target : Dialect) (rel : ExportRelation) (oid : Int) : Prop :=
  rel.schemaName.isSome ∧ rel.relationName.isSome ∧ rel.relationOid = some oid ∧
    (target = .postgresql → rel.partitionOf = none)

section

variable (s : ExportSnapshot) (columns : List RawColumn) (rel : ExportRelation)

theorem exists_renderTablePg_iff :
    (∃ stmts, renderTablePg unicode decimal s columns rel = .ok stmts) ↔
      ∀ oid, WritesColumns .postgresql rel oid → PositionsOk decimal columns oid := by
  rw [renderTablePg]
  cases hschema : rel.schemaName with
  | none => simp [WritesColumns, tableOfRow, hschema]
  | some schema =>
      cases hname : rel.relationName with
      | none => simp [WritesColumns, tableOfRow, hname]
      | some name =>
          cases hoid : rel.relationOid with
          | none => simp [WritesColumns, tableOfRow, hoid]
          | some oid =>
              cases hpartition : rel.partitionOf with
              | some parent => simp [WritesColumns, tableOfRow, hpartition]
              | none =>
                  simp only [tableOfRow, exists_bind_pure_iff, exists_renderTableColumns_iff]
                  simp [WritesColumns, hschema, hname, hoid, hpartition]

theorem exists_renderTableSnowflake_iff :
    (∃ stmts, renderTableSnowflake unicode decimal s columns rel = .ok stmts) ↔
      ∀ oid, WritesColumns .snowflake rel oid → PositionsOk decimal columns oid := by
  rw [renderTableSnowflake]
  cases hschema : rel.schemaName with
  | none => simp [WritesColumns, tableOfRow, hschema]
  | some schema =>
      cases hname : rel.relationName with
      | none => simp [WritesColumns, tableOfRow, hname]
      | some name =>
          cases hoid : rel.relationOid with
          | none => simp [WritesColumns, tableOfRow, hoid]
          | some oid =>
              simp only [tableOfRow, exists_bind_pure_iff, exists_renderTableColumns_iff]
              simp [WritesColumns, hschema, hname, hoid]

theorem exists_exportStmts_iff (target : Dialect) :
    (∃ stmts, exportStmts unicode decimal s columns target = .ok stmts) ↔
      ∀ rel ∈ snapshotTables s, ∀ oid, WritesColumns target rel oid →
        PositionsOk decimal columns oid := by
  cases target with
  | postgresql =>
      rw [exportStmts, postgresqlStmts, exists_bind_pure_iff, exists_mapM_iff]
      simp only [exists_renderTablePg_iff]
  | snowflake =>
      rw [exportStmts, snowflakeStmts, exists_bind_pure_iff, exists_mapM_iff]
      simp only [exists_renderTableSnowflake_iff]

end

/-- **The export returns a text exactly where the positions it sorts by are positions.** -/
theorem snapshotJsonToSql_succeeds_iff (snapshot : Row) {targetDialect : Str} {target : Dialect}
    (htarget : normalizeDialect unicode targetDialect = .ok target) :
    (∃ text, snapshotJsonToSql unicode decimal snapshot targetDialect = .ok text) ↔
      ∀ rel ∈ snapshotTables (readSnapshot snapshot), ∀ oid, WritesColumns target rel oid →
        PositionsOk decimal (readColumns snapshot) oid := by
  have htext (stmts : Except PyError (List ExportStmt)) :
      (∃ text, (stmts.mapError ExportError.raised >>= fun stmts => pure (exportText stmts)) =
        .ok text) ↔ ∃ list, stmts = .ok list := by
    rw [exists_bind_pure_iff]
    cases stmts with
    | error e => exact iff_of_false (fun ⟨_, h⟩ => by cases h) (fun ⟨_, h⟩ => by cases h)
    | ok list => exact ⟨fun _ => ⟨list, rfl⟩, fun _ => ⟨list, rfl⟩⟩
  rw [← exists_exportStmts_iff unicode, snapshotJsonToSql, htarget]
  exact htext _

/-- A table with one column, at a given position. -/
def oneColumn (position : PyValue) : Row :=
  [("relations".toList, .list [.dict [("relation_kind".toList, .str "r".toList),
      ("schema_name".toList, .str "public".toList), ("relation_name".toList, .str "t".toList),
      ("relation_oid".toList, .int 1)]]),
    ("columns".toList, .list [.dict [("relation_oid".toList, .int 1),
      ("column_name".toList, .str "c".toList), ("column_position".toList, position)]])]

theorem snapshotJsonToSql_oneColumn_succeeds :
    (∃ text, snapshotJsonToSql asciiUnicode (fun _ => none) (oneColumn (.str " 1_0 ".toList))
      "pg".toList = .ok text) ↔
      ∀ rel ∈ snapshotTables (readSnapshot (oneColumn (.str " 1_0 ".toList))), ∀ oid,
        WritesColumns .postgresql rel oid →
          PositionsOk (fun _ => none) (readColumns (oneColumn (.str " 1_0 ".toList))) oid :=
  snapshotJsonToSql_succeeds_iff asciiUnicode (fun _ => none) _ (by decide +kernel)

/-- A position that is a word. -/
theorem snapshotJsonToSql_raises :
    snapshotJsonToSql asciiUnicode (fun _ => none) (oneColumn (.str "first".toList))
      "postgresql".toList = .error (.raised .valueError) ∧
    snapshotJsonToSql asciiUnicode (fun _ => none) (oneColumn (.list [.int 1]))
      "snowflake".toList = .error (.raised .typeError) := by
  constructor
  · with_unfolding_all rfl
  · with_unfolding_all rfl

/-! ## Snapshots with the types that are expected -/

/-- The position is missing, false or empty, or it is an integer. -/
def IsPlainPosition (position : PyValue) : Prop :=
  position.truthy = false ∨ position.asInt?.isSome = true

theorem sortKey_of_isPlainPosition {position : PyValue} (h : IsPlainPosition position) :
    sortKey decimal position = .ok (position.asInt?.getD 0) := by
  rw [sortKey]
  cases position with
  | bool b => cases b <;> rfl
  | int n => by_cases hn : n = 0 <;> simp [PyValue.truthy, PyValue.toInt, PyValue.asInt?, hn]
  | none => rfl
  | float x => simp_all [IsPlainPosition, PyValue.asInt?]
  | str s => simp_all [IsPlainPosition, PyValue.asInt?]
  | list items => simp_all [IsPlainPosition, PyValue.asInt?]
  | dict members => simp_all [IsPlainPosition, PyValue.asInt?]

section

variable {columns : List RawColumn} {s : ExportSnapshot}

theorem sortedByPosition_eq
    (h : ∀ col ∈ columns, sortKey decimal col.position =
      .ok (col.column.columnPosition.getD 0)) :
    sortedByPosition decimal columns =
      .ok (sortedColumns (columns.map RawColumn.column)) := by
  let pair (col : ExportColumn) : Int × ExportColumn := (col.columnPosition.getD 0, col)
  have hkeyed : columns.mapM (fun col => (sortKey decimal col.position).map fun key =>
      (key, col.column)) = .ok ((columns.map RawColumn.column).map pair) := by
    rw [List.map_map]
    exact Fallible.mapM_eq_ok_map fun col hcol => by rw [h col hcol]; rfl
  have hsort : (sortedColumns (columns.map RawColumn.column)).map pair =
      ((columns.map RawColumn.column).map pair).insertionSort fun a b => a.1 ≤ b.1 :=
    List.map_insertionSort _ _ pair _ fun a _ b _ => Iff.rfl
  have hsnd (cols : List ExportColumn) : (cols.map pair).map Prod.snd = cols := by
    rw [List.map_map]
    exact List.map_id _
  rw [sortedByPosition, hkeyed]
  exact congrArg Except.ok (by rw [← hsort, hsnd])

theorem renderTableColumns_eq (hcolumns : s.columns = columns.map RawColumn.column)
    (h : ∀ col ∈ columns, sortKey decimal col.position =
      .ok (col.column.columnPosition.getD 0)) (oid : Int) (target : Dialect) :
    renderTableColumns unicode decimal columns oid (s.dialectOf unicode) target =
      .ok (Ddl.renderTableColumns unicode s oid target) := by
  have hgroup : (groupByRelation (fun col : RawColumn => col.column.relationOid) columns oid).map
      RawColumn.column = groupByRelation ExportColumn.relationOid s.columns oid := by
    rw [groupByRelation, groupByRelation, hcolumns, List.filter_map]
    rfl
  have hsorted : sortedByPosition decimal
      (groupByRelation (fun col : RawColumn => col.column.relationOid) columns oid) =
        .ok (sortedColumns (groupByRelation ExportColumn.relationOid s.columns oid)) := by
    rw [← hgroup]
    exact sortedByPosition_eq decimal fun col hcol => h col (List.mem_of_mem_filter hcol)
  rw [renderTableColumns, hsorted]
  rfl

theorem exportStmts_eq (hcolumns : s.columns = columns.map RawColumn.column)
    (h : ∀ col ∈ columns, sortKey decimal col.position =
      .ok (col.column.columnPosition.getD 0)) (target : Dialect) :
    exportStmts unicode decimal s columns target = .ok (Ddl.exportStmts unicode s target) := by
  cases target with
  | postgresql =>
      have htable (rel : ExportRelation) : renderTablePg unicode decimal s columns rel =
          .ok (Ddl.renderTablePg unicode s rel) := by
        rw [renderTablePg, Ddl.renderTablePg]
        cases tableOfRow rel.schemaName rel.relationName with
        | none => rfl
        | some table =>
            cases rel.relationOid with
            | none => rfl
            | some oid =>
                cases rel.partitionOf with
                | some parent => rfl
                | none =>
                    simp only [renderTableColumns_eq unicode decimal hcolumns h]
                    rfl
      rw [exportStmts, postgresqlStmts, Fallible.mapM_eq_ok_map fun rel _ => htable rel,
        Ddl.exportStmts, Ddl.postgresqlStmts, List.flatMap_def]
      rfl
  | snowflake =>
      have htable (rel : ExportRelation) : renderTableSnowflake unicode decimal s columns rel =
          .ok (Ddl.renderTableSnowflake unicode s rel) := by
        rw [renderTableSnowflake, Ddl.renderTableSnowflake]
        cases tableOfRow rel.schemaName rel.relationName with
        | none => rfl
        | some table =>
            cases rel.relationOid with
            | none => rfl
            | some oid =>
                simp only [renderTableColumns_eq unicode decimal hcolumns h]
                rfl
      rw [exportStmts, snowflakeStmts, Fallible.mapM_eq_ok_map fun rel _ => htable rel,
        Ddl.exportStmts, Ddl.snowflakeStmts, List.flatMap_def]
      rfl

end

/-- **On a snapshot whose positions are integers** the exporter writes what it writes for its
    rows. -/
theorem snapshotJsonToSql_eq (snapshot : Row) (targetDialect : Str)
    (h : ∀ col ∈ readColumns snapshot, IsPlainPosition col.position) :
    snapshotJsonToSql unicode decimal snapshot targetDialect =
      (Ddl.snapshotJsonToSql unicode (readSnapshot snapshot) targetDialect).mapError
        .unsupportedDialect := by
  have hkeys : ∀ col ∈ readColumns snapshot, sortKey decimal col.position =
      .ok (col.column.columnPosition.getD 0) := by
    intro col hcol
    have hplain := sortKey_of_isPlainPosition decimal (h col hcol)
    obtain ⟨row, -, rfl⟩ := List.mem_map.mp hcol
    exact hplain
  have hstmts (target : Dialect) := exportStmts_eq unicode decimal
    (show (readSnapshot snapshot).columns = (readColumns snapshot).map RawColumn.column from rfl)
    hkeys target
  rw [snapshotJsonToSql, Ddl.snapshotJsonToSql]
  cases normalizeDialect unicode targetDialect with
  | error message => rfl
  | ok target =>
      have hrest : ((exportStmts unicode decimal (readSnapshot snapshot) (readColumns snapshot)
          target).mapError ExportError.raised >>= fun stmts => pure (exportText stmts)) =
            .ok (exportText (Ddl.exportStmts unicode (readSnapshot snapshot) target)) := by
        rw [hstmts]
        rfl
      exact hrest

end PgErdCloud.Ddl.WeaklyTyped
