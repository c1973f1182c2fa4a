/-
  The data dictionary of a snapshot in Markdown (app/spec/data_dictionary.py): a section for
  each table, with a table of its columns.

  A field of a row is `none` where the row has null there.
-/
import PgErdCloud.Lib.Dict
import PgErdCloud.Lib.Markdown
import Mathlib.Data.Prod.Lex

namespace PgErdCloud.Spec.Report

open Lib Lib.PyStr

/-! ## Rows -/

/-- A row of `relations`. -/
structure Relation where
  relationOid : Option Int
  schemaName : Option Str
  relationName : Option Str
  relationKind : Option Str
  relationComment : Option Str

/-- A row of `columns`. -/
structure ColumnRow where
  relationOid : Option Int
  columnName : Option Str
  columnPosition : Option Int
  dataType : Option Str
  isNotNull : Bool
  hasDefault : Bool
  defaultExpr : Option Str
  columnComment : Option Str
  exampleValue : Option Str

/-- A row of `pk_columns`. -/
structure PkRow where
  relationOid : Option Int
  columnName : Option Str

/-- A row of `fk_edges`. -/
structure FkEdge where
  fkConstraintName : Option Str
  childRelationOid : Option Int
  childSchemaName : Option Str
  childRelationName : Option Str
  childColumnName : Option Str
  parentRelationOid : Option Int
  parentSchemaName : Option Str
  parentRelationName : Option Str
  parentColumnName : Option Str

/-- A row of `constraints`. -/
structure ConstraintRow where
  relationOid : Option Int
  constraintName : Option Str
  constraintType : Option Str
  constraintDef : Option Str

/-- A row of `indexes`. -/
structure IndexRow where
  relationOid : Option Int
  indexName : Option Str
  isUnique : Bool
  isPrimary : Bool
  accessMethod : Option Str
  predicateExpr : Option Str

/-- What the two documents read of a snapshot. -/
structure Snapshot where
  sourceDialect : Option Str
  databaseDialect : Option Str
  serverVersion : Option Str
  capturedAt : Option Str
  schemaFilter : Option Str
  relations : List Relation
  columns : List ColumnRow
  pkColumns : List PkRow
  fkEdges : List FkEdge
  constraints : List ConstraintRow
  indexes : List IndexRow

/-- A note on a table, from the project and not from the database. -/
structure Annotation where
  schemaName : Option Str
  relationName : Option Str
  body : Option Str

/-! ## Cells -/

/-- `_cell` -/
def cell (value : Option Str) : Str := value.elim [] fun text => strip (Markdown.escapePipes text)

example : cell (some " a|b\n".toList) = "a\\|b".toList := by decide

/-- `_relation_kind_label` -/
def relationKindLabel (kind : Option Str) : Str :=
  if kind = some "v".toList then "view".toList
  else if kind = some "m".toList then "materialized view".toList
  else if kind = some "p".toList then "partitioned table".toList
  else if kind = some "f".toList then "foreign table".toList
  else "table".toList

/-- `_annotation_map` -/
def annotationMap (annotations : List Annotation) : Dict (Str × Str) Str :=
  annotations.foldl (fun result ann =>
    match ann.body with
    | none | some [] => result
    | some body => result.set (ann.schemaName.getD [], ann.relationName.getD []) body) .empty

/-- `edge.get(key, "?")` -/
def colOrQ (value : Option Str) : Str := value.getD "?".toList

/-- A value that is printed within a text. -/
def printed (value : Option Str) : Str := value.getD "None".toList

/-! ## Maps -/

/-- The rows of a relation, of the map that groups them. -/
def rowsOf {α : Type} (relationOid : α → Option Int) (rows : List α) (oid : Option Int) : List α :=
  ((rows.foldl (Dict.groupAt (fun row => some (relationOid row)) id) .empty).get? oid).getD []

variable (s : Snapshot)

/-- `cols_by_oid.get(oid, [])`, in the order of their positions. -/
def columnsOf (oid : Option Int) : List ColumnRow :=
  (rowsOf ColumnRow.relationOid s.columns oid).insertionSort fun a b =>
    a.columnPosition.getD 0 ≤ b.columnPosition.getD 0

/-- `pk_by_oid.get(oid, set())` -/
def pksOf (oid : Option Int) : List Str :=
  (s.pkColumns.filter fun pk => pk.relationOid = oid).filterMap PkRow.columnName

/-- `fk_child_cols.get(oid, set())` -/
def fkColumnsOf (oid : Option Int) : List Str :=
  (s.fkEdges.filter fun edge => edge.childRelationOid = oid).filterMap FkEdge.childColumnName

/-- `oid_to_rel.get(oid)`: of two rows with one object id the later. -/
def oidToRel (oid : Option Int) : Option Relation :=
  s.relations.reverse.find? fun rel => rel.relationOid = oid

/-- The tables in the order of the sections. -/
def sortedRelations : List Relation :=
  let key (rel : Relation) := toLex (rel.schemaName.getD [], rel.relationName.getD [])
  s.relations.insertionSort fun a b => key a ≤ key b

/-! ## Lines -/

/-- The header of a table of columns. -/
def columnHeader : Str :=
  "| # | Column | Type | Null | Default | Key | Comment | Example |".toList

/-- The line below the header. -/
def columnDelimiter : Str :=
  "|---|--------|------|------|---------|-----|---------|---------|".toList

/-- The cells of a column, the `i`-th of its table. -/
def columnCells (oid : Option Int) (i : Nat) (col : ColumnRow) : List Str :=
  let colName := col.columnName.getD []
  let keyMarks := (if colName ∈ pksOf s oid then ["PK".toList] else []) ++
    if colName ∈ fkColumnsOf s oid then ["FK".toList] else []
  let default := if col.hasDefault then col.defaultExpr else some []
  [Nat.toDigits 10 i, cell (some colName), cell col.dataType,
    if col.isNotNull then "NOT NULL".toList else [], cell default, join " ".toList keyMarks,
    cell col.columnComment, cell col.exampleValue]

/-- The row of a column. -/
def columnLine (oid : Option Int) (i : Nat) (col : ColumnRow) : Str :=
  "| ".toList ++ join " | ".toList (columnCells s oid i col) ++ " |".toList

/-- The rows of a table. -/
def columnLines (oid : Option Int) : List Str :=
  (columnsOf s oid).mapIdx fun i col => columnLine s oid (i + 1) col

/-- The line of a foreign key. -/
def foreignKeyLine (edge : FkEdge) : Str :=
  let parentName := (oidToRel s edge.parentRelationOid).elim "?".toList fun parent =>
    printed parent.schemaName ++ ".".toList ++ printed parent.relationName
  "- `".toList ++ colOrQ edge.childColumnName ++ "` → `".toList ++ parentName ++ ".".toList ++
    colOrQ edge.parentColumnName ++ "`".toList ++
    match edge.fkConstraintName with
    | none | some [] => []
    | some name => " (".toList ++ name ++ ")".toList

/-- The line of an index. -/
def indexLine (idx : IndexRow) : Str :=
  "- ".toList ++ (if idx.isUnique then "UNIQUE ".toList else []) ++ "`".toList ++
    printed idx.indexName ++ "`".toList

/-- The lines under a heading, with an empty one behind them. -/
def listLines {α : Type} (heading : Str) (line : α → Str) (rows : List α) : List Str :=
  if rows = [] then [] else heading :: (rows.map line ++ [[]])

/-- What is `some` of a text that is not empty. -/
def truthy (value : Option Str) : Option Str := value.filter (· ≠ [])

/-- The section of a table. -/
def relationLines (annByTable : Dict (Str × Str) Str) (rel : Relation) : List Str :=
  let schema := rel.schemaName.getD []
  let name := rel.relationName.getD []
  let kind := relationKindLabel rel.relationKind
  ["## ".toList ++ schema ++ ".".toList ++ name] ++
    (if kind = "table".toList then [] else ["_".toList ++ kind ++ "_".toList]) ++
    (truthy rel.relationComment).toList ++
    (truthy (annByTable.get? (schema, name))).toList.map ("> 📝 ".toList ++ ·) ++
    [[], columnHeader, columnDelimiter] ++ columnLines s rel.relationOid ++ [[]] ++
    listLines "**Foreign keys:**".toList (foreignKeyLine s)
      (rowsOf FkEdge.childRelationOid s.fkEdges rel.relationOid) ++
    listLines "**Indexes:**".toList indexLine
      ((rowsOf IndexRow.relationOid s.indexes rel.relationOid).filter fun idx => !idx.isPrimary)

/-- The lines of the document. -/
def documentLines (annotations : List Annotation) : List Str :=
  let metaParts := (truthy s.capturedAt).toList.map ("Captured: ".toList ++ ·) ++
    (truthy s.serverVersion).toList.map ("Server: ".toList ++ ·)
  ["# Data Dictionary".toList, []] ++
    (if metaParts = [] then []
      else ["_".toList ++ join " · ".toList metaParts ++ "_".toList, []]) ++
    if s.relations = [] then ["_No tables in this snapshot._".toList]
    else (sortedRelations s).flatMap (relationLines s (annotationMap annotations))

/-- `snapshot_to_data_dictionary_md` -/
def snapshotToDataDictionaryMd (annotations : List Annotation) : Str :=
  let text := join "\n".toList (documentLines s annotations)
  if s.relations = [] then text ++ "\n".toList
  else (lstrip text.reverse).reverse ++ "\n".toList

/-- The rows of the tables of columns. -/
def dictionaryRows : List Str :=
  (sortedRelations s).flatMap fun rel => columnLines s rel.relationOid

end PgErdCloud.Spec.Report
