/-
  Schema snapshots and their index by name (`_index_snapshot` of app/diff/schema_diff.py).

  A snapshot is the JSON that introspection stores: lists of rows tied together by object ids.
  A field is `none` where the row has no such key or null there. The index resolves the object
  ids: tables by key, foreign keys by signature. An absent snapshot (`None`) is indexed as
  one without rows.
-/
import PgErdCloud.Lib.Dict
import PgErdCloud.Lib.PyStr
import Mathlib.Data.List.Sort

namespace PgErdCloud.Diff

open Lib Lib.PyStr

/-! ## Rows -/

variable {Oid : Type}

/-- A row of `relations`. -/
structure Relation (Oid : Type) where
  relationOid : Option Oid
  schemaName : Option Str
  relationName : Option Str
  relationComment : Option Str
  relationKind : Option Str

/-- A row of `columns`. -/
structure Column (Oid : Type) where
  relationOid : Option Oid
  columnName : Option Str
  dataType : Option Str
  isNotNull : Bool

/-- A row of `pk_columns`. -/
structure PkColumn (Oid : Type) where
  relationOid : Option Oid
  columnName : Option Str
  columnOrdinal : Option Int

/-- One column pair of a foreign key constraint. -/
structure FkEdge (Oid : Type) where
  fkConstraintOid : Option Oid
  fkConstraintName : Option Str
  childRelationOid : Option Oid
  parentRelationOid : Option Oid
  childColumnName : Option Str
  parentColumnName : Option Str
  columnOrdinal : Option Int

/-- A snapshot. The last three fields are the keys under which a snapshot may name the dialect
    of its database. -/
structure Snapshot (Oid : Type) where
  relations : List (Relation Oid)
  columns : List (Column Oid)
  pkColumns : List (PkColumn Oid)
  fkEdges : List (FkEdge Oid)
  sourceDialect : Option Str
  databaseDialect : Option Str
  dialect : Option Str

/-! ## The index -/

/-- The description of a column. -/
structure Col where
  dataType : Option Str
  isNotNull : Bool
  deriving DecidableEq

/-- What is known of a table under its key. -/
structure Table where
  schemaName : Str
  relationName : Str
  comment : Option Str
  kind : Option Str
  columns : Dict Str Col
  pk : List Str
  deriving DecidableEq

/-- What is known of a foreign key under its signature. -/
structure Fk where
  name : Option Str
  childTable : Str
  childColumns : List Str
  parentTable : Str
  parentColumns : List Str
  deriving DecidableEq

/-- `_index_snapshot`: tables under their keys, and foreign keys under their signatures. -/
structure Index where
  tables : Dict Str Table
  fks : Dict Str Fk

/-- `_table_key` -/
def tableKey (schemaName relationName : Option Str) : Str :=
  let schema := schemaName.getD []
  let name := relationName.getD []
  if schema ≠ [] then schema ++ ".".toList ++ name else name

/-- Schema and name of a table. -/
structure TableName where
  schema : Str
  name : Str
  deriving DecidableEq

/-- The key of a table. -/
def TableName.key (table : TableName) : Str := tableKey (some table.schema) (some table.name)

/-- The key of a row. -/
def Relation.key (rel : Relation Oid) : Str := tableKey rel.schemaName rel.relationName

/-- The entry of a relation before its columns are read. -/
def newTable (rel : Relation Oid) : Table where
  schemaName := rel.schemaName.getD []
  relationName := rel.relationName.getD []
  comment := rel.relationComment
  kind := rel.relationKind
  columns := .empty
  pk := []

/-- Sorted by the first component, entries with the same one in their order. -/
def sortByOrdinal {α : Type} (items : List (Int × α)) : List (Int × α) :=
  items.insertionSort fun a b => a.1 ≤ b.1

section
variable [DecidableEq Oid]

/-- `oid_to_table` -/
def oidToTable (relations : List (Relation Oid)) : Dict (Option Oid) Str :=
  relations.foldl (fun oids rel => oids.set rel.relationOid rel.key) .empty

end

/-- The tables of the relations, without columns and keys. -/
def relationTables (relations : List (Relation Oid)) : Dict Str Table :=
  relations.foldl (fun tables rel => tables.set rel.key (newTable rel)) .empty

/-! The loops over the other rows see the object ids through `lookup` only. -/

section
variable (lookup : Option Oid → Option Str)

/-- The loop over columns: a column of a known table is put under its name. -/
def indexColumn (tables : Dict Str Table) (col : Column Oid) : Dict Str Table :=
  match lookup col.relationOid, col.columnName with
  | some table, some name => tables.modify table fun t =>
      { t with columns := t.columns.set name ⟨col.dataType, col.isNotNull⟩ }
  | _, _ => tables

/-- One round of the loop that fills `pk_tmp`. -/
def indexPkColumn (tables : Dict Str Table) (pkTmp : Dict Str (List (Int × Str)))
    (pk : PkColumn Oid) : Dict Str (List (Int × Str)) :=
  match lookup pk.relationOid, pk.columnName with
  | some table, some name =>
      if table ∈ tables.keys then
        let items := (pkTmp.get? table).getD []
        pkTmp.set table (items ++ [(pk.columnOrdinal.getD items.length, name)])
      else pkTmp
  | _, _ => pkTmp

/-- One round of the loop that fills `fk_parts`. -/
def indexFkEdge (fkParts : Dict (Str × Str × Str) (List (Int × Str × Str))) (edge : FkEdge Oid) :
    Dict (Str × Str × Str) (List (Int × Str × Str)) :=
  match lookup edge.childRelationOid, lookup edge.parentRelationOid with
  | some child, some parent =>
      let group := (child, parent, edge.fkConstraintName.getD [])
      let parts := (fkParts.get? group).getD []
      fkParts.set group (parts ++ [(edge.columnOrdinal.getD 0,
        edge.childColumnName.getD [], edge.parentColumnName.getD [])])
  | _, _ => fkParts

end

/-- The primary keys are assigned to their tables. -/
def assignPk (tables : Dict Str Table) (entry : Str × List (Int × Str)) : Dict Str Table :=
  tables.modify entry.1 fun t => { t with pk := (sortByOrdinal entry.2).map Prod.snd }

/-- The text that identifies a foreign key, whatever its name. -/
def fkSignature (child : Str) (childColumns : List Str) (parent : Str)
    (parentColumns : List Str) : Str :=
  child ++ "(".toList ++ join ",".toList childColumns ++ ")->".toList ++
    parent ++ "(".toList ++ join ",".toList parentColumns ++ ")".toList

/-- The text that a foreign key is known by. -/
def Fk.signature (fk : Fk) : Str :=
  fkSignature fk.childTable fk.childColumns fk.parentTable fk.parentColumns

/-- The foreign key of a group of edges. -/
def groupFk (entry : (Str × Str × Str) × List (Int × Str × Str)) : Fk :=
  let parts := sortByOrdinal entry.2
  { name := if entry.1.2.2 = [] then none else some entry.1.2.2
    childTable := entry.1.1
    childColumns := parts.map fun part => part.2.1
    parentTable := entry.1.2.1
    parentColumns := parts.map fun part => part.2.2 }

/-- The loop over constraints: of two with one signature the later stays. -/
def addFk (fks : Dict Str Fk) (entry : (Str × Str × Str) × List (Int × Str × Str)) :
    Dict Str Fk :=
  fks.set (groupFk entry).signature (groupFk entry)

/-- The index of rows whose object ids `lookup` resolves. -/
def indexRows (lookup : Option Oid → Option Str) (s : Snapshot Oid) : Index :=
  let tables := s.columns.foldl (indexColumn lookup) (relationTables s.relations)
  let pkTmp := s.pkColumns.foldl (indexPkColumn lookup tables) .empty
  let fkParts := s.fkEdges.foldl (indexFkEdge lookup) .empty
  { tables := pkTmp.items.foldl assignPk tables
    fks := fkParts.items.foldl addFk .empty }

/-- `_index_snapshot` -/
def indexSnapshot [DecidableEq Oid] (s : Snapshot Oid) : Index :=
  indexRows (oidToTable s.relations).get? s

end PgErdCloud.Diff
