/-
  `_build_snapshot` of app/snowflake_introspect/introspect.py: the rows of Snowflake's
  information schema as a snapshot.

  A text field of a row is `none` where it is null.
  The fields of a snapshot that are the same in every row, the capture time, the version and the
  column examples are left out.
-/
import PgErdCloud.Ddl.Migration
import PgErdCloud.Lib.Dict
import PgErdCloud.Lib.PyInt
import PgErdCloud.Mysql.Introspect

namespace PgErdCloud.Snowflake

open Lib Lib.PyStr Ddl
open Mysql (stripNul sortedBy tupleLe)

/-! ## Rows -/

/-- A numeric field, which can come as a number or as a text. -/
inductive Numeric
  | null
  | int (n : Int)
  | text (s : Str)
  deriving DecidableEq

/-- A row of the query for schemas. -/
structure SchemaRow where
  schemaName : Option Str

/-- A row of the query for tables. -/
structure TableRow where
  tableSchema : Option Str
  tableName : Option Str
  tableType : Option Str
  comment : Option Str

/-- A row of the query for columns. -/
structure ColumnRow where
  tableSchema : Option Str
  tableName : Option Str
  ordinalPosition : Numeric
  columnName : Option Str
  dataType : Option Str
  characterMaximumLength : Numeric
  numericPrecision : Numeric
  numericScale : Numeric
  datetimePrecision : Numeric
  isNullable : Option Str
  columnDefault : Option Str
  comment : Option Str

/-- One column of a constraint; a constraint without columns has a row without column. -/
structure ConstraintRow where
  constraintSchema : Option Str
  constraintName : Option Str
  constraintType : Option Str
  tableSchema : Option Str
  tableName : Option Str
  columnName : Option Str
  ordinalPosition : Numeric
  referencedTableSchema : Option Str
  referencedTableName : Option Str
  referencedColumnName : Option Str
  deriving DecidableEq

/-! ## Snapshots -/

/-- A row of `schemas`. -/
structure Schema where
  schemaOid : Nat
  schemaName : Str
  deriving DecidableEq

/-- A row of `relations`. -/
structure Relation where
  schemaName : Str
  relationOid : Nat
  relationName : Str
  relationKind : Str
  relationComment : Option Str
  deriving DecidableEq

/-- A row of `columns`. -/
structure Column where
  schemaName : Str
  relationOid : Nat
  relationName : Str
  columnPosition : Int
  columnName : Str
  dataType : Str
  typeName : Str
  isNotNull : Bool
  hasDefault : Bool
  defaultExpr : Option Str
  columnComment : Option Str
  deriving DecidableEq

/-- A row of `constraints`. -/
structure Constraint where
  constraintOid : Nat
  constraintName : Str
  constraintType : Str
  schemaName : Str
  relationOid : Nat
  relationName : Str
  foreignRelationOid : Option Nat
  foreignSchemaName : Option Str
  foreignRelationName : Option Str
  constrainedAttnums : List Int
  constraintDef : Str
  deriving DecidableEq

/-- A row of `pk_columns`. -/
structure PkColumn where
  constraintOid : Nat
  constraintName : Str
  schemaName : Str
  relationOid : Nat
  relationName : Str
  columnOrdinal : Nat
  columnName : Str
  deriving DecidableEq

/-- A row of `fk_edges`. -/
structure FkEdge where
  fkConstraintOid : Nat
  fkConstraintName : Str
  childSchemaName : Str
  childRelationOid : Nat
  childRelationName : Str
  parentSchemaName : Str
  parentRelationOid : Option Nat
  parentRelationName : Str
  columnOrdinal : Nat
  childColumnName : Str
  parentColumnName : Str
  deriving DecidableEq

/-- What introspection stores. -/
structure Snapshot where
  schemas : List Schema
  relations : List Relation
  columns : List Column
  constraints : List Constraint
  pkColumns : List PkColumn
  fkEdges : List FkEdge
  deriving DecidableEq

/-! ## Python values

What can raise a `ValueError` has the result `none` then. -/

/-- The digits of Unicode: `str.isdigit()` of a character, and the values of the decimal ones. -/
structure Digits where
  isDigit : Char → Bool
  decimal : Char → Option Nat

/-- The digits of ASCII. -/
def asciiDigits : Digits := ⟨Char.isDigit, fun _ => none⟩

variable (unicode : Unicode) (digits : Digits)

/-- `int(s)` -/
def intOfText (s : Str) : Option Int := PyInt.parseInt digits.decimal s

/-- `_int_or_none`; a text of digits may be too long for `int`. -/
def intOrNone : Numeric → Option (Option Int)
  | .null => some none
  | .int n => some (some n)
  | .text s =>
      if s ≠ [] ∧ s.all digits.isDigit = true then (intOfText digits s).map some else some none

/-- `int(value or 0)` -/
def intOrZero : Numeric → Option Int
  | .null => some 0
  | .int n => some n
  | .text s => if s = [] then some 0 else intOfText digits s

/-- `_str_or_none` -/
def strOrNone (value : Option Str) : Option Str := value.filter (· ≠ [])

/-- `str(value or other)` -/
def strOr (value : Option Str) (other : Str) : Str := (strOrNone value).getD other

/-! ## Tables and columns -/

/-- A schema and a table in it. -/
abbrev TableKey := Str × Str

/-- `_table_key` -/
def tableKey (tableSchema tableName : Option Str) : TableKey :=
  (strOr tableSchema [], strOr tableName [])

/-- The table of a row. -/
def TableRow.key (row : TableRow) : TableKey := tableKey row.tableSchema row.tableName

/-- The table of a row. -/
def ColumnRow.key (row : ColumnRow) : TableKey := tableKey row.tableSchema row.tableName

/-- The tables in the order of their names, each once. -/
def relationKeys (tableRows : List TableRow) : List TableKey :=
  sortedBy (tupleLe fun a b => decide (a ≤ b)) (tableRows.map TableRow.key).dedup

/-- The number of each table. -/
def relationIds (relationKeys : List TableKey) : Dict TableKey Nat :=
  (relationKeys.zipIdx 1).foldl (fun ids key => ids.set key.1 key.2) .empty

/-- `_snowflake_relation_kind` -/
def snowflakeRelationKind (tableType : Option Str) : Str :=
  let normalized := unicode.upper (strOr tableType [])
  if contains "VIEW".toList normalized then
    if contains "MATERIALIZED".toList normalized then "m".toList else "v".toList
  else "r".toList

/-- `_build_schemas` -/
def buildSchemas (schemaRows : List SchemaRow) : List Schema :=
  (schemaRows.zipIdx 1).filterMap fun row =>
    row.1.schemaName.map fun name => ⟨row.2, name⟩

/-- `_build_relations`: of two rows of one table the later counts. -/
def buildRelations (tableRows : List TableRow) (relationKeys : List TableKey) : List Relation :=
  (relationKeys.zipIdx 1).map fun key =>
    let row := tableRows.reverse.find? fun row => row.key = key.1
    { schemaName := key.1.1
      relationOid := key.2
      relationName := key.1.2
      relationKind := snowflakeRelationKind unicode (row.bind TableRow.tableType)
      relationComment := row.bind TableRow.comment }

/-- `_format_snowflake_data_type` -/
def formatSnowflakeDataType (row : ColumnRow) : Option Str := do
  let dataType := unicode.upper (strOr row.dataType "VARCHAR".toList)
  let precision ← intOrNone digits row.numericPrecision
  let scale ← intOrNone digits row.numericScale
  let charLength ← intOrNone digits row.characterMaximumLength
  let datetimePrecision ← intOrNone digits row.datetimePrecision
  let withNumbers (numbers : List Int) : Option Str := do
    return dataType ++ "(".toList ++ join ",".toList (← numbers.mapM PyInt.strInt) ++ ")".toList
  if dataType ∈ ["NUMBER", "NUMERIC", "DECIMAL"].map String.toList ∧ precision ≠ none then
    withNumbers [precision.getD 0, scale.getD 0]
  else if dataType ∈ ["VARCHAR", "CHAR", "CHARACTER", "STRING", "TEXT"].map String.toList then
    match charLength with
    | some n => if 0 < n then withNumbers [n] else some dataType
    | none => some dataType
  else
    match datetimePrecision with
    | some n => if startsWith dataType "TIMESTAMP".toList then withNumbers [n] else some dataType
    | none => some dataType

/-- The column of a row: of a known table, with a name and a position. -/
def newColumn (relationIds : Dict TableKey Nat) (row : ColumnRow) :
    Option (Option Column) :=
  match relationIds.get? row.key with
  | none => some none
  | some relationOid => do
      match strOrNone row.columnName, ← intOrNone digits row.ordinalPosition with
      | some columnName, some position =>
          return some {
            schemaName := row.key.1
            relationOid := relationOid
            relationName := row.key.2
            columnPosition := position
            columnName := columnName
            dataType := ← formatSnowflakeDataType unicode digits row
            typeName := strOr row.dataType []
            isNotNull := unicode.upper (strOr row.isNullable []) = "NO".toList
            hasDefault := row.columnDefault.isSome
            defaultExpr := row.columnDefault
            columnComment := row.comment }
      | _, _ => return none

/-- `_build_columns` -/
def buildColumns (relationIds : Dict TableKey Nat) (columnRows : List ColumnRow) :
    Option (List Column) := do
  return (← columnRows.mapM (newColumn unicode digits relationIds)).reduceOption

/-- The table of a column. -/
def Column.key (col : Column) : TableKey := (col.schemaName, col.relationName)

/-- `column_positions`, which the loop over the columns fills. -/
def columnPositions (columns : List Column) : Dict TableKey (Dict Str Int) :=
  columns.foldl
    (Dict.upsertAt (fun col => some col.key) .empty fun col positions =>
      positions.set col.columnName col.columnPosition)
    .empty

/-! ## Constraints -/

/-- `_constraint_type` -/
def constraintType (value : Option Str) : Option Str :=
  let normalized := unicode.upper (strOr value [])
  if normalized = "PRIMARY KEY".toList then some "p".toList
  else if normalized = "UNIQUE".toList then some "u".toList
  else if normalized = "FOREIGN KEY".toList then some "f".toList
  else none

/-- `_constraint_def` -/
def constraintDef (constraintType : Str) (columns : List Str)
    (referencedSchema referencedTable : Option Str) (referencedColumns : List Str) : Str :=
  if constraintType = "p".toList then
    "PRIMARY KEY (".toList ++ quotedList columns ++ ")".toList
  else if constraintType = "u".toList then
    "UNIQUE (".toList ++ quotedList columns ++ ")".toList
  else
    let foreignKey := "FOREIGN KEY (".toList ++ quotedList columns ++ ")".toList
    match strOrNone referencedSchema, strOrNone referencedTable with
    | some schema, some table =>
        if referencedColumns ≠ [] then
          foreignKey ++ " REFERENCES ".toList ++ q schema ++ ".".toList ++ q table ++
            " (".toList ++ quotedList referencedColumns ++ ")".toList
        else foreignKey
    | _, _ => foreignKey

/-- Schema and name of a constraint, and its table. -/
structure GroupKey where
  constraintSchema : Str
  name : Str
  table : TableKey
  deriving DecidableEq

/-- The group of a row, if nothing that names it is missing. -/
def ConstraintRow.groupKey (row : ConstraintRow) : Option GroupKey := do
  let _ ← Snowflake.constraintType unicode row.constraintType
  let schema ← strOrNone row.tableSchema
  let table ← strOrNone row.tableName
  let name ← strOrNone row.constraintName
  return ⟨(strOrNone row.constraintSchema).getD schema, name, (schema, table)⟩

/-- The rows of each constraint. -/
def groupConstraintRows (rows : List ConstraintRow) : Dict GroupKey (List ConstraintRow) :=
  rows.foldl (Dict.groupAt (ConstraintRow.groupKey unicode) id) .empty

/-- The rows of a group in the order of their positions. -/
def sortedRows (groupRows : List ConstraintRow) : Option (List ConstraintRow) := do
  let keyed ← groupRows.mapM fun row => do return (← intOrZero digits row.ordinalPosition, row)
  return (sortedBy (fun a b => decide (a.1 ≤ b.1)) keyed).map Prod.snd

/-- What a constraint of any type has. -/
def newConstraint (group : GroupKey) (relationOid : Nat) (ctype : Str)
    (constrainedAttnums : List Int) (constraintOid : Nat) (constraintDef : Str) : Constraint where
  constraintOid := constraintOid
  constraintName := group.name
  constraintType := ctype
  schemaName := group.table.1
  relationOid := relationOid
  relationName := group.table.2
  foreignRelationOid := none
  foreignSchemaName := none
  foreignRelationName := none
  constrainedAttnums := constrainedAttnums
  constraintDef := constraintDef

/-- The constraint of a primary key and the rows of its columns. -/
def buildPrimaryKey (group : GroupKey) (relationOid : Nat) (columns : List Str)
    (constrainedAttnums : List Int) (constraintOid : Nat) : Constraint × List PkColumn :=
  (newConstraint group relationOid "p".toList constrainedAttnums constraintOid
      (constraintDef "p".toList columns none none []),
    (columns.zipIdx 1).map fun column =>
      ⟨constraintOid, group.name, group.table.1, relationOid, group.table.2, column.2, column.1⟩)

/-- The constraint of a unique key. -/
def buildUniqueConstraint (group : GroupKey) (relationOid : Nat) (columns : List Str)
    (constrainedAttnums : List Int) (constraintOid : Nat) : Constraint :=
  newConstraint group relationOid "u".toList constrainedAttnums constraintOid
    (constraintDef "u".toList columns none none [])

/-- The constraint of a foreign key and the rows of its columns. -/
def buildForeignKey (group : GroupKey) (relationOid : Nat) (columns : List Str)
    (constrainedAttnums : List Int) (constraintOid : Nat)
    (referencedSchema referencedTable : Option Str) (referencedColumns : List Str)
    (foreignRelationOid : Option Nat) (sortedRows : List ConstraintRow) :
    Constraint × List FkEdge :=
  ({ newConstraint group relationOid "f".toList constrainedAttnums constraintOid
        (constraintDef "f".toList columns referencedSchema referencedTable referencedColumns) with
      foreignRelationOid := foreignRelationOid
      foreignSchemaName := referencedSchema
      foreignRelationName := referencedTable },
    match strOrNone referencedSchema, strOrNone referencedTable with
    | some parentSchema, some parentTable =>
        (sortedRows.zipIdx 1).filterMap fun row =>
          match strOrNone row.1.columnName, strOrNone row.1.referencedColumnName with
          | some childColumn, some parentColumn =>
              some ⟨constraintOid, group.name, group.table.1, relationOid, group.table.2,
                parentSchema, foreignRelationOid, parentTable, row.2, childColumn, parentColumn⟩
          | _, _ => none
    | _, _ => [])

/-- What a group of rows becomes. A group has a row; its type is that of the first. -/
def processConstraintGroup (group : GroupKey) (groupRows : List ConstraintRow)
    (relationIds : Dict TableKey Nat) (columnPositions : Dict TableKey (Dict Str Int))
    (constraintOid : Nat) : Option (Option Constraint × List PkColumn × List FkEdge) := do
  let rows ← sortedRows digits groupRows
  let ctype := rows.head?.bind fun row => constraintType unicode row.constraintType
  match relationIds.get? group.table with
  | none => return (none, [], [])
  | some relationOid =>
      let columns := rows.filterMap ConstraintRow.columnName
      let positions := (columnPositions.get? group.table).getD .empty
      let constrainedAttnums := columns.filterMap positions.get?
      let referencedSchema := rows.head?.bind fun row => strOrNone row.referencedTableSchema
      let referencedTable := rows.head?.bind fun row => strOrNone row.referencedTableName
      let referencedColumns := rows.filterMap ConstraintRow.referencedColumnName
      let foreignRelationOid := match referencedSchema, referencedTable with
        | some schema, some table => relationIds.get? (schema, table)
        | _, _ => none
      if ctype = some "p".toList then
        let (con, pkColumns) :=
          buildPrimaryKey group relationOid columns constrainedAttnums constraintOid
        return (some con, pkColumns, [])
      else if ctype = some "u".toList then
        return (some (buildUniqueConstraint group relationOid columns constrainedAttnums
          constraintOid), [], [])
      else if ctype = some "f".toList then
        let (con, fkEdges) := buildForeignKey group relationOid columns constrainedAttnums
          constraintOid referencedSchema referencedTable referencedColumns foreignRelationOid rows
        return (some con, [], fkEdges)
      else return (none, [], [])

/-- What the loop over the groups collects. -/
structure Keys where
  constraints : List Constraint
  pkColumns : List PkColumn
  fkEdges : List FkEdge

/-- One round of the loop over the groups. -/
def addGroup (relationIds : Dict TableKey Nat) (columnPositions : Dict TableKey (Dict Str Int))
    (keys : Keys) (group : GroupKey × List ConstraintRow) : Option Keys := do
  match ← processConstraintGroup unicode digits group.1 group.2 relationIds columnPositions
      (keys.constraints.length + 1) with
  | (some con, pkColumns, fkEdges) =>
      return ⟨keys.constraints ++ [con], keys.pkColumns ++ pkColumns, keys.fkEdges ++ fkEdges⟩
  | (none, _, _) => return keys

/-- `_build_constraints` -/
def buildConstraints (rows : List ConstraintRow) (relationIds : Dict TableKey Nat)
    (columnPositions : Dict TableKey (Dict Str Int)) : Option Keys :=
  (groupConstraintRows unicode rows).items.foldlM
    (addGroup unicode digits relationIds columnPositions) ⟨[], [], []⟩

/-! ## The snapshot -/

/-- The row as it is stored, without NUL characters. -/
def Relation.sanitize (rel : Relation) : Relation :=
  { rel with
    schemaName := stripNul rel.schemaName
    relationName := stripNul rel.relationName
    relationKind := stripNul rel.relationKind
    relationComment := rel.relationComment.map stripNul }

/-- The row as it is stored, without NUL characters. -/
def Column.sanitize (col : Column) : Column :=
  { col with
    schemaName := stripNul col.schemaName
    relationName := stripNul col.relationName
    columnName := stripNul col.columnName
    dataType := stripNul col.dataType
    typeName := stripNul col.typeName
    defaultExpr := col.defaultExpr.map stripNul
    columnComment := col.columnComment.map stripNul }

/-- The row as it is stored, without NUL characters. -/
def Constraint.sanitize (con : Constraint) : Constraint :=
  { con with
    constraintName := stripNul con.constraintName
    constraintType := stripNul con.constraintType
    schemaName := stripNul con.schemaName
    relationName := stripNul con.relationName
    foreignSchemaName := con.foreignSchemaName.map stripNul
    foreignRelationName := con.foreignRelationName.map stripNul
    constraintDef := stripNul con.constraintDef }

/-- The row as it is stored, without NUL characters. -/
def PkColumn.sanitize (pk : PkColumn) : PkColumn :=
  { pk with
    constraintName := stripNul pk.constraintName
    schemaName := stripNul pk.schemaName
    relationName := stripNul pk.relationName
    columnName := stripNul pk.columnName }

/-- The row as it is stored, without NUL characters. -/
def FkEdge.sanitize (edge : FkEdge) : FkEdge :=
  { edge with
    fkConstraintName := stripNul edge.fkConstraintName
    childSchemaName := stripNul edge.childSchemaName
    childRelationName := stripNul edge.childRelationName
    parentSchemaName := stripNul edge.parentSchemaName
    parentRelationName := stripNul edge.parentRelationName
    childColumnName := stripNul edge.childColumnName
    parentColumnName := stripNul edge.parentColumnName }

/-- `sanitize_for_storage` on a snapshot. -/
def Snapshot.sanitize (s : Snapshot) : Snapshot where
  schemas := s.schemas.map fun schema => { schema with schemaName := stripNul schema.schemaName }
  relations := s.relations.map Relation.sanitize
  columns := s.columns.map Column.sanitize
  constraints := s.constraints.map Constraint.sanitize
  pkColumns := s.pkColumns.map PkColumn.sanitize
  fkEdges := s.fkEdges.map FkEdge.sanitize

/-- The snapshot of the four queries, before it is sanitised. -/
def buildSnapshot (schemaRows : List SchemaRow) (tableRows : List TableRow)
    (columnRows : List ColumnRow) (constraintRows : List ConstraintRow) :
    Option Snapshot := do
  let keys := relationKeys tableRows
  let ids := relationIds keys
  let columns ← buildColumns unicode digits ids columnRows
  let built ← buildConstraints unicode digits constraintRows ids (columnPositions columns)
  let snapshot : Snapshot := {
    schemas := buildSchemas schemaRows
    relations := buildRelations unicode tableRows keys
    columns := columns
    constraints := built.constraints
    pkColumns := built.pkColumns
    fkEdges := built.fkEdges }
  return snapshot.sanitize

end PgErdCloud.Snowflake
