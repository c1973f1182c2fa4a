/-
  `rows_to_snapshot` of app/mysql_introspect/introspect.py: the rows of MySQL's
  information_schema as a snapshot. The definitions of constraints and indexes are texts that
  the introspector composes; here a definition is a list of pieces, which keep apart its own
  SQL, the names that it puts between quotes and the names that it writes as they are.

  A row field that can be null is an `Option`; the other fields went through `str`. The parts
  of a snapshot that hold no name (the capture time, the version, the column examples) are left
  out.
-/
import PgErdCloud.Lib.Dict
import PgErdCloud.Lib.PyStr

namespace PgErdCloud.Mysql

open Lib Lib.PyStr

/-! ## Rows -/

/-- A row of `information_schema.tables`. -/
structure TableRow where
  tableSchema : Str
  tableName : Str
  tableType : Option Str
  tableComment : Option Str

/-- A row of `information_schema.columns`. -/
structure ColumnRow where
  tableSchema : Str
  tableName : Str
  columnName : Str
  ordinalPosition : Int
  columnType : Option Str
  dataType : Option Str
  isNullable : Option Str
  columnDefault : Option Str
  columnComment : Option Str

/-- A row of `KEY_COLUMN_USAGE`: one column of a primary, unique or foreign key. -/
structure KeyUsageRow where
  constraintName : Option Str
  tableSchema : Str
  tableName : Str
  columnName : Str
  ordinalPosition : Option Int
  referencedTableSchema : Option Str
  referencedTableName : Option Str
  referencedColumnName : Option Str

/-- A row of `STATISTICS`: one column of an index. -/
structure StatisticsRow where
  tableSchema : Str
  tableName : Str
  indexName : Str
  nonUnique : Option Int
  seqInIndex : Option Int
  columnName : Option Str

/-! ## Snapshots -/

/-- A row of `relations`. -/
structure Relation where
  relationOid : Nat
  relationKind : Str
  schemaName : Str
  relationName : Str
  relationComment : Option Str
  deriving DecidableEq

/-- A row of `columns`. -/
structure Column where
  relationOid : Nat
  columnName : Str
  columnPosition : Int
  dataType : Str
  isNotNull : Bool
  defaultExpr : Option Str
  columnComment : Option Str
  deriving DecidableEq

/-- A row of `pk_columns`. -/
structure PkColumn where
  relationOid : Nat
  columnName : Str
  columnOrdinal : Int
  deriving DecidableEq

/-- One column pair of a foreign key. -/
structure FkEdge where
  fkConstraintOid : Nat
  fkConstraintName : Str
  childRelationOid : Nat
  parentRelationOid : Nat
  childColumnName : Str
  parentColumnName : Str
  columnOrdinal : Int
  deriving DecidableEq

/-- A row of `constraints`. -/
structure Constraint where
  constraintOid : Nat
  constraintName : Str
  constraintType : Str
  schemaName : Str
  relationOid : Nat
  relationName : Str
  constrainedAttnums : List Int
  constraintDef : Str
  deriving DecidableEq

/-- A row of `indexes`. -/
structure IndexEntry where
  relationOid : Nat
  indexName : Str
  isUnique : Bool
  isPrimary : Bool
  indexDef : Str
  deriving DecidableEq

/-- What introspection stores. -/
structure Snapshot where
  relations : List Relation
  columns : List Column
  constraints : List Constraint
  indexes : List IndexEntry
  pkColumns : List PkColumn
  fkEdges : List FkEdge
  deriving DecidableEq

/-! ## Python values -/

/-- `str(value)` -/
def strOf : Option Str → Str
  | some text => text
  | none => "None".toList

/-- `value or other` -/
def orText (value : Option Str) (other : Str) : Str := (value.filter (· ≠ [])).getD other

/-- `value or other`, for numbers -/
def orInt (value : Option Int) (other : Int) : Int := (value.filter (· ≠ 0)).getD other

/-- `str(value or "") or None` -/
def textOrNone (value : Option Str) : Option Str := value.filter (· ≠ [])

/-- The order of tuples by their first components, then by the rest. -/
def tupleLe {α β : Type} [DecidableEq α] [LT α] [DecidableLT α] (le : β → β → Bool) (a b : α × β) :
    Bool :=
  decide (a.1 < b.1) || (decide (a.1 = b.1) && le a.2 b.2)

/-- `sorted(items, key=…)` -/
def sortedBy {α : Type} (le : α → α → Bool) (items : List α) : List α :=
  items.insertionSort fun a b => le a b

/-- `strip_nul` -/
def stripNul (value : Str) : Str := value.filter (· ≠ '\x00')

theorem stripNul_eq_iff {value : Str} : stripNul value = value ↔ '\x00' ∉ value := by
  unfold stripNul
  rw [List.filter_eq_self]
  constructor
  · intro h hm
    exact absurd rfl (of_decide_eq_true (h _ hm))
  · intro h ch hm
    exact decide_eq_true fun he => h (he ▸ hm)

theorem nul_not_mem_stripNul (value : Str) : '\x00' ∉ stripNul value := by
  intro hm
  exact absurd rfl (of_decide_eq_true (List.mem_filter.mp hm).2)

/-! ## Definitions -/

/-- A part of a definition. Only the parts that are no text of the introspector depend on the
    database. -/
inductive Piece
  /-- text of the introspector -/
  | sql (text : Str)
  /-- a name between quotes, as it is -/
  | quoted (name : Str)
  /-- a name as it is -/
  | bare (name : Str)
  deriving DecidableEq

/-- The text of a part; the quotes within a quoted name are not doubled. -/
def Piece.text : Piece → Str
  | .sql text | .bare text => text
  | .quoted name => '"' :: (name ++ ['"'])

/-- The text of some parts. -/
def piecesText (pieces : List Piece) : Str := pieces.flatMap Piece.text

/-- The names with `, ` between them. -/
def listPieces (piece : Str → Piece) (names : List Str) : List Piece :=
  [.sql ", ".toList].intercalate (names.map fun name => [piece name])

/-- `PRIMARY KEY ("a", "b")` -/
def primaryKeyPieces (columns : List Str) : List Piece :=
  .sql "PRIMARY KEY (".toList :: (listPieces .quoted columns ++ [.sql ")".toList])

/-- `FOREIGN KEY ("a") REFERENCES "s"."t" ("b")` -/
def foreignKeyPieces (columns : List Str) (parentSchema parentName : Str)
    (parentColumns : List Str) : List Piece :=
  .sql "FOREIGN KEY (".toList :: (listPieces .quoted columns ++
    [.sql ") REFERENCES ".toList, .quoted parentSchema, .sql ".".toList, .quoted parentName,
      .sql " (".toList] ++ listPieces .quoted parentColumns ++ [.sql ")".toList])

/-- `CREATE UNIQUE INDEX i ON s.t (a, b)` -/
def indexPieces (unique : Bool) (name schema table : Str) (columns : List Str) : List Piece :=
  [.sql (if unique then "CREATE UNIQUE INDEX ".toList else "CREATE INDEX ".toList), .bare name,
    .sql " ON ".toList, .bare schema, .sql ".".toList, .bare table, .sql " (".toList] ++
    listPieces .bare columns ++ [.sql ")".toList]

/-! ## Tables and columns -/

variable (unicode : Unicode)

/-- The schema and the name of a table. -/
def TableRow.key (row : TableRow) : Str × Str := (row.tableSchema, row.tableName)

/-- `oid_by_table` -/
def oidByTable (tables : List TableRow) : Dict (Str × Str) Nat :=
  (tables.zipIdx 1).foldl (fun oids row => oids.set row.1.key row.2) .empty

/-- The row of a table under its number. -/
def newRelation (row : TableRow × Nat) : Relation where
  relationOid := row.2
  relationKind :=
    if unicode.upper (strOf row.1.tableType) = "VIEW".toList then "v".toList else "r".toList
  schemaName := row.1.tableSchema
  relationName := row.1.tableName
  relationComment := textOrNone row.1.tableComment

/-- The rows of the tables, numbered from 1. -/
def newRelations (tables : List TableRow) : List Relation :=
  (tables.zipIdx 1).map (newRelation unicode)

/-- The row of a column. -/
def newColumn (oid : Nat) (row : ColumnRow) : Column where
  relationOid := oid
  columnName := row.columnName
  columnPosition := row.ordinalPosition
  dataType := orText row.columnType (orText row.dataType [])
  isNotNull := unicode.upper (strOf row.isNullable) = "NO".toList
  defaultExpr := row.columnDefault
  columnComment := textOrNone row.columnComment

/-- The rows of the columns of known tables. -/
def outColumns (oids : Dict (Str × Str) Nat) (columns : List ColumnRow) : List Column :=
  columns.filterMap fun row =>
    (oids.get? (row.tableSchema, row.tableName)).map fun oid => newColumn unicode oid row

/-- `pos_by_oid_col` -/
def posByOidCol (columns : List Column) : Dict (Nat × Str) Int :=
  columns.foldl (fun pos col => pos.set (col.relationOid, col.columnName) col.columnPosition) .empty

/-! ## Keys -/

/-- What the loop over the key usage collects. -/
structure KeyUsage where
  pkColumns : List PkColumn
  fkEdges : List FkEdge
  pkColsByOid : Dict Nat (List Str)

/-- The referenced table of a row of a foreign key. -/
def KeyUsageRow.parentKey (row : KeyUsageRow) : Option (Str × Str) :=
  (row.referencedTableName.filter (· ≠ [])).map fun name =>
    (orText row.referencedTableSchema row.tableSchema, name)

/-- The row of a foreign key, under its number. -/
def newEdge (row : KeyUsageRow) (edgeId child parent : Nat) : FkEdge where
  fkConstraintOid := 100000 + edgeId
  fkConstraintName := orText row.constraintName ("fk_".toList ++ (toString edgeId).toList)
  childRelationOid := child
  parentRelationOid := parent
  childColumnName := row.columnName
  parentColumnName := strOf row.referencedColumnName
  columnOrdinal := orInt row.ordinalPosition 1

/-- One round of the loop over `key_usage`. -/
def addKeyUsage (oids : Dict (Str × Str) Nat) (keys : KeyUsage) (row : KeyUsageRow) : KeyUsage :=
  match oids.get? (row.tableSchema, row.tableName) with
  | none => keys
  | some oid =>
      if strOf row.constraintName = "PRIMARY".toList then
        { keys with
          pkColumns := keys.pkColumns ++
            [⟨oid, row.columnName, orInt row.ordinalPosition 1⟩]
          pkColsByOid := keys.pkColsByOid.set oid
            ((keys.pkColsByOid.get? oid).getD [] ++ [row.columnName]) }
      else match row.parentKey.bind oids.get? with
        | none => keys
        | some parent =>
            { keys with
              fkEdges := keys.fkEdges ++ [newEdge row (keys.fkEdges.length + 1) oid parent] }

/-- The loop over the rows of key usage. -/
def readKeyUsage (oids : Dict (Str × Str) Nat) (keyUsage : List KeyUsageRow) : KeyUsage :=
  keyUsage.foldl (addKeyUsage oids) ⟨[], [], .empty⟩

/-! ## Constraints -/

/-- `KeyError`: a table that is referred to is not in the snapshot. -/
structure KeyError where
  key : Nat
  deriving DecidableEq

/-- `rel_by_oid[oid]` -/
def relByOid (relations : List Relation) (oid : Nat) : Except KeyError Relation :=
  match relations.reverse.find? (·.relationOid = oid) with
  | some rel => .ok rel
  | none => .error ⟨oid⟩

/-- The constraint of a primary key. -/
def pkConstraint (relations : List Relation) (pos : Dict (Nat × Str) Int)
    (entry : Nat × List Str) : Except KeyError Constraint := do
  let rel ← relByOid relations entry.1
  return {
    constraintOid := 200000 + entry.1
    constraintName := "pk_".toList ++ rel.relationName
    constraintType := "p".toList
    schemaName := rel.schemaName
    relationOid := entry.1
    relationName := rel.relationName
    constrainedAttnums := entry.2.zipIdx.map fun c => (pos.get? (entry.1, c.1)).getD (c.2 + 1)
    constraintDef := piecesText (primaryKeyPieces entry.2) }

/-- The constraint of one row of a foreign key. -/
def fkConstraint (relations : List Relation) (pos : Dict (Nat × Str) Int) (edge : FkEdge) :
    Except KeyError Constraint := do
  let child ← relByOid relations edge.childRelationOid
  let parent ← relByOid relations edge.parentRelationOid
  return {
    constraintOid := 300000 + edge.fkConstraintOid
    constraintName := edge.fkConstraintName
    constraintType := "f".toList
    schemaName := child.schemaName
    relationOid := edge.childRelationOid
    relationName := child.relationName
    constrainedAttnums := [(pos.get? (edge.childRelationOid, edge.childColumnName)).getD 1]
    constraintDef := piecesText (foreignKeyPieces [edge.childColumnName] parent.schemaName
      parent.relationName [edge.parentColumnName]) }

/-! ## Indexes -/

/-- The index of a row. -/
def StatisticsRow.key (row : StatisticsRow) : Str × Str × Str :=
  (row.tableSchema, row.tableName, row.indexName)

/-- Position, column, uniqueness. -/
def StatisticsRow.entry (row : StatisticsRow) : Int × Str × Bool :=
  (orInt row.seqInIndex 1, strOf row.columnName, decide (row.nonUnique.getD 0 = 0))

/-- `grouped` -/
def groupIndexes (indexes : List StatisticsRow) :
    Dict (Str × Str × Str) (List (Int × Str × Bool)) :=
  indexes.foldl (fun grouped row =>
    grouped.set row.key ((grouped.get? row.key).getD [] ++ [row.entry])) .empty

/-- The columns of an index by their positions. -/
def orderedColumns (columns : List (Int × Str × Bool)) : List Str :=
  (sortedBy (tupleLe (tupleLe fun a b => !a || b)) columns).map fun c => c.2.1

/-- The row of an index; it is unique where its first column says so. -/
def newIndex (oid : Nat) (schema table name : Str) (columns : List (Int × Str × Bool)) :
    IndexEntry :=
  let unique := (columns.head?.map fun c => c.2.2).getD false
  { relationOid := oid
    indexName := name
    isUnique := unique
    isPrimary := name = "PRIMARY".toList
    indexDef := piecesText (indexPieces unique name schema table (orderedColumns columns)) }

/-- The rows of the indexes of known tables. -/
def outIndexes (oids : Dict (Str × Str) Nat) (indexes : List StatisticsRow) : List IndexEntry :=
  let entries := sortedBy (fun a b => tupleLe (tupleLe fun x y => decide (x ≤ y)) a.1 b.1)
    (groupIndexes indexes).items
  entries.filterMap fun e =>
    (oids.get? (e.1.1, e.1.2.1)).map fun oid => newIndex oid e.1.1 e.1.2.1 e.1.2.2 e.2

/-! ## The snapshot -/

/-- `sanitize_for_storage` on a snapshot. -/
def Snapshot.sanitize (s : Snapshot) : Snapshot where
  relations := s.relations.map fun rel => { rel with
    relationKind := stripNul rel.relationKind
    schemaName := stripNul rel.schemaName
    relationName := stripNul rel.relationName
    relationComment := rel.relationComment.map stripNul }
  columns := s.columns.map fun col => { col with
    columnName := stripNul col.columnName
    dataType := stripNul col.dataType
    defaultExpr := col.defaultExpr.map stripNul
    columnComment := col.columnComment.map stripNul }
  constraints := s.constraints.map fun con => { con with
    constraintName := stripNul con.constraintName
    constraintType := stripNul con.constraintType
    schemaName := stripNul con.schemaName
    relationName := stripNul con.relationName
    constraintDef := stripNul con.constraintDef }
  indexes := s.indexes.map fun ix => { ix with
    indexName := stripNul ix.indexName
    indexDef := stripNul ix.indexDef }
  pkColumns := s.pkColumns.map fun pk => { pk with columnName := stripNul pk.columnName }
  fkEdges := s.fkEdges.map fun edge => { edge with
    fkConstraintName := stripNul edge.fkConstraintName
    childColumnName := stripNul edge.childColumnName
    parentColumnName := stripNul edge.parentColumnName }

/-- `rows_to_snapshot` -/
def rowsToSnapshot (tables : List TableRow) (columns : List ColumnRow)
    (keyUsage : List KeyUsageRow) (indexes : List StatisticsRow) : Except KeyError Snapshot := do
  let oids := oidByTable tables
  let relations := newRelations unicode tables
  let cols := outColumns unicode oids columns
  let pos := posByOidCol cols
  let keys := readKeyUsage oids keyUsage
  let pkConstraints ← keys.pkColsByOid.items.mapM (pkConstraint relations pos)
  let fkConstraints ← keys.fkEdges.mapM (fkConstraint relations pos)
  let snapshot : Snapshot := {
    relations := relations
    columns := cols
    constraints := pkConstraints ++ fkConstraints
    indexes := outIndexes oids indexes
    pkColumns := keys.pkColumns
    fkEdges := keys.fkEdges }
  return snapshot.sanitize

end PgErdCloud.Mysql
