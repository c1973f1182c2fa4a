/-
  What introspection reads from the catalog of a PostgreSQL database for the exporter: the
  queries RELATIONS_SQL, COLUMNS_SQL, CONSTRAINTS_SQL and INDEXES_SQL of
  app/pg_introspect/queries.py, with their joins, filters and orders. A catalog carries what
  PostgreSQL itself keeps true of it.
-/
import PgErdCloud.Ddl.Export
import Mathlib.Data.Prod.Lex
import Mathlib.Data.List.Sort
import Mathlib.Data.List.Lex

namespace PgErdCloud.Introspect

open Lib Lib.PyStr Ddl Diff

/-! ## The catalog -/

/-- `relkind` -/
inductive RelKind
  | table
  | partitioned
  | view
  | materialized
  | foreign
  | toast
  deriving DecidableEq

/-- `relkind` -/
def RelKind.text : RelKind → Str
  | .table => "r".toList
  | .partitioned => "p".toList
  | .view => "v".toList
  | .materialized => "m".toList
  | .foreign => "f".toList
  | .toast => "t".toList

/-- `contype` -/
inductive ConKind
  | primary
  | unique
  | foreignKey
  | check
  | exclusion
  deriving DecidableEq

/-- `contype` -/
def ConKind.text : ConKind → Str
  | .primary => "p".toList
  | .unique => "u".toList
  | .foreignKey => "f".toList
  | .check => "c".toList
  | .exclusion => "x".toList

/-- A row of `pg_class` with its schema and its tablespace, and the object ids that
    `pg_inherits` has for it. -/
structure PgClass where
  oid : Int
  schema : Str
  name : Str
  kind : RelKind
  parents : List Int
  isPartition : Bool
  partitionKey : Option Str
  partitionBound : Option Str
  tablespace : Option Str
  deriving DecidableEq

/-- The name of a relation. -/
def PgClass.tableName (c : PgClass) : TableName := ⟨c.schema, c.name⟩

/-- A row of `pg_attribute` with what the joins add. -/
structure PgAttribute where
  relation : Int
  position : Int
  name : Str
  isDropped : Bool
  type : ColumnType
  isNotNull : Bool
  default : Option Str

/-- A row of `pg_constraint`. -/
structure PgConstraint where
  name : Str
  kind : ConKind
  relation : Int
  columns : Option (List Int)
  definition : Str
  deriving DecidableEq

/-- A row of `pg_index` with the name of its index, and the index that it is attached to. -/
structure PgIndex where
  oid : Int
  name : Str
  relation : Int
  attachedTo : Option Int
  tablespace : Option Str
  definition : Str
  deriving DecidableEq

/-- A catalog. The fields from `oids` on are kept by PostgreSQL. -/
structure Catalog where
  classes : List PgClass
  attributes : List PgAttribute
  constraints : List PgConstraint
  indexes : List PgIndex
  oids : (classes.map PgClass.oid).Nodup
  names : (classes.map PgClass.tableName).Nodup
  /-- a partition has one parent, a partitioned table, and a bound -/
  partitions : ∀ c ∈ classes, c.isPartition = true → ∃ parent ∈ classes,
    c.parents = [parent.oid] ∧ parent.kind = .partitioned ∧ c.partitionBound ≠ none
  /-- no relation inherits from itself, not even through others -/
  forest : ∃ depth : Int → Nat, ∀ c ∈ classes, ∀ parent ∈ c.parents, depth parent < depth c.oid
  /-- only tables have keys -/
  keysOnTables : ∀ con ∈ constraints, con.kind ∈ [.primary, .unique, .foreignKey] →
    ∀ c ∈ classes, c.oid = con.relation → c.kind = .table ∨ c.kind = .partitioned
  /-- an index belongs to a relation -/
  indexRelation : ∀ ix ∈ indexes, ∃ c ∈ classes, c.oid = ix.relation
  /-- a primary key or unique constraint has an index of its name -/
  keyIndex : ∀ con ∈ constraints, con.kind ∈ [.primary, .unique] →
    ∃ ix ∈ indexes, ix.relation = con.relation ∧ ix.name = con.name

/-! ## Queries -/

/-- `s LIKE pattern`: an underscore stands for any character, a percent sign for any text. -/
def like (s : Str) : (pattern : Str) → Bool
  | [] => s = []
  | p :: pattern =>
      if p = '%' then s.tails.any fun rest => like rest pattern
      else match s with
        | [] => false
        | c :: rest => (p = '_' || p = c) && like rest pattern

/-- The filter on schemas; system schemas are left out. -/
def inScope (schemaFilter : Option Str) (schema : Str) : Bool :=
  (schemaFilter = none || schemaFilter = some schema) &&
    schema ∉ ["pg_catalog".toList, "information_schema".toList] &&
    !like schema "pg_toast%".toList && !like schema "pg_temp_%".toList &&
    !like schema "pg_toast_temp_%".toList

/-- The order of `ORDER BY n.nspname, c.relkind, c.relname`. -/
def relationKey (rel : ExportRelation) : Str ×ₗ Str ×ₗ Str :=
  toLex (rel.schemaName.getD [], toLex (rel.relationKind.getD [], rel.relationName.getD []))

/-- A row of the query for relations, with the parent of a partition. -/
def relationRow (c : PgClass) (parent : Option PgClass) : ExportRelation where
  schemaName := some c.schema
  relationName := some c.name
  relationOid := some c.oid
  relationKind := some c.kind.text
  tablespaceName := c.tablespace
  partitionKey := c.partitionKey
  partitionBound := c.partitionBound
  partitionParentSchema := parent.map PgClass.schema
  partitionParentName := parent.map PgClass.name
  isPartition := c.isPartition

/-- The relation with an object id. -/
def classOf (classes : List PgClass) (oid : Int) : Option PgClass :=
  classes.find? fun c => c.oid = oid

/-- The rows of a relation: one for each parent, and one if it has none. -/
def relationRows (classes : List PgClass) (c : PgClass) : List ExportRelation :=
  match c.parents with
  | [] => [relationRow c none]
  | parents => parents.map fun parent => relationRow c (classOf classes parent)

/-- A relation that the queries return: of one of the kinds, and in the schemas that are asked for.
    -/
def isShown (schemaFilter : Option Str) (c : PgClass) : Bool :=
  c.kind ∈ [.table, .partitioned, .view, .materialized] && inScope schemaFilter c.schema

section
variable (cat : Catalog) (schemaFilter : Option Str)

/-- The query for relations, in its order. -/
def relationsSql : List ExportRelation :=
  ((cat.classes.filter (isShown schemaFilter)).flatMap (relationRows cat.classes)).insertionSort
    fun a b => relationKey a ≤ relationKey b

/-- In the order of `ORDER BY n.nspname, c.relname, a.attnum`. -/
def columnsSql : List ExportColumn :=
  let rows := cat.attributes.flatMap fun a =>
    if 0 < a.position ∧ a.isDropped = false then
      (cat.classes.filter fun c => c.oid = a.relation ∧ isShown schemaFilter c).map fun c => (c, a)
    else []
  (rows.insertionSort fun x y =>
    toLex (x.1.schema, toLex (x.1.name, x.2.position)) ≤
      toLex (y.1.schema, toLex (y.1.name, y.2.position))).map fun row =>
    { relationOid := some row.2.relation
      columnPosition := some row.2.position
      columnName := some row.2.name
      type := row.2.type
      hasDefault := row.2.default.isSome
      defaultExpr := row.2.default
      isNotNull := row.2.isNotNull }

/-- A row of the query for constraints. -/
def constraintRow (c : PgClass) (con : PgConstraint) : ExportConstraint where
  relationOid := some c.oid
  schemaName := some c.schema
  relationName := some c.name
  constraintName := some con.name
  constraintType := some con.kind.text
  constraintDef := some con.definition
  constrainedAttnums := con.columns.map fun columns => columns.map some

/-- In the order of `ORDER BY n.nspname, rel.relname, con.conname`. -/
def constraintsSql : List ExportConstraint :=
  let rows := cat.constraints.flatMap fun con =>
    if con.kind ∈ [.primary, .foreignKey, .unique, .check] then
      (cat.classes.filter fun c => c.oid = con.relation ∧ inScope schemaFilter c.schema).map
        fun c => (c, con)
    else []
  (rows.insertionSort fun x y =>
    toLex (x.1.schema, toLex (x.1.name, x.2.name)) ≤
      toLex (y.1.schema, toLex (y.1.name, y.2.name))).map fun row => constraintRow row.1 row.2

/-- A row of the query for indexes. -/
def indexRow (c : PgClass) (ix : PgIndex) : ExportIndex where
  indexName := some ix.name
  tableSchemaName := some c.schema
  tableName := some c.name
  indexTablespaceName := ix.tablespace
  indexDef := some ix.definition

/-- In the order of `ORDER BY tbl_ns.nspname, tbl.relname, idx.relname`. -/
def indexesSql : List ExportIndex :=
  let rows := cat.indexes.flatMap fun ix =>
    (cat.classes.filter fun c => c.oid = ix.relation ∧
      c.kind ∈ [.table, .partitioned, .materialized] ∧ inScope schemaFilter c.schema).map
        fun c => (c, ix)
  (rows.insertionSort fun x y =>
    toLex (x.1.schema, toLex (x.1.name, x.2.name)) ≤
      toLex (y.1.schema, toLex (y.1.name, y.2.name))).map fun row => indexRow row.1 row.2

/-- The keys of the snapshot that the exporter reads. -/
def introspectPostgres : ExportSnapshot where
  relations := relationsSql cat schemaFilter
  columns := columnsSql cat schemaFilter
  constraints := constraintsSql cat schemaFilter
  indexes := indexesSql cat schemaFilter
  sourceDialect := none
  databaseDialect := none
  dialect := none

end

/-! ## The rows of the queries -/

section
variable {cat : Catalog} {schemaFilter : Option Str}

theorem mem_relationsSql {rel : ExportRelation} :
    rel ∈ relationsSql cat schemaFilter ↔ ∃ c ∈ cat.classes,
      isShown schemaFilter c = true ∧ rel ∈ relationRows cat.classes c := by
  unfold relationsSql
  rw [List.mem_insertionSort, List.mem_flatMap]
  simp only [List.mem_filter, and_assoc]

theorem mem_constraintsSql {row : ExportConstraint} :
    row ∈ constraintsSql cat schemaFilter ↔ ∃ con ∈ cat.constraints, ∃ c ∈ cat.classes,
      con.kind ∈ [.primary, .foreignKey, .unique, .check] ∧ c.oid = con.relation ∧
        inScope schemaFilter c.schema = true ∧ row = constraintRow c con := by
  unfold constraintsSql
  simp only [List.mem_map, List.mem_insertionSort, List.mem_flatMap]
  constructor
  · rintro ⟨x, ⟨con, hcon, hx⟩, rfl⟩
    split_ifs at hx with hkind
    · obtain ⟨c, hc, rfl⟩ := List.mem_map.mp hx
      rw [List.mem_filter, decide_eq_true_eq] at hc
      exact ⟨con, hcon, c, hc.1, hkind, hc.2.1, hc.2.2, rfl⟩
    · exact absurd hx List.not_mem_nil
  · rintro ⟨con, hcon, c, hc, hkind, hoid, hscope, rfl⟩
    refine ⟨(c, con), ⟨con, hcon, ?_⟩, rfl⟩
    rw [if_pos hkind]
    exact List.mem_map_of_mem (List.mem_filter.mpr ⟨hc, decide_eq_true ⟨hoid, hscope⟩⟩)

theorem mem_indexesSql {row : ExportIndex} :
    row ∈ indexesSql cat schemaFilter ↔ ∃ ix ∈ cat.indexes, ∃ c ∈ cat.classes,
      c.oid = ix.relation ∧ c.kind ∈ [.table, .partitioned, .materialized] ∧
        inScope schemaFilter c.schema = true ∧ row = indexRow c ix := by
  unfold indexesSql
  simp only [List.mem_map, List.mem_insertionSort, List.mem_flatMap, List.mem_filter,
    decide_eq_true_eq]
  constructor
  · rintro ⟨x, ⟨ix, hix, c, ⟨hc, hoid, hkind, hscope⟩, rfl⟩, rfl⟩
    exact ⟨ix, hix, c, hc, hoid, hkind, hscope, rfl⟩
  · rintro ⟨ix, hix, c, hc, hoid, hkind, hscope, rfl⟩
    exact ⟨(c, ix), ⟨ix, hix, c, ⟨hc, hoid, hkind, hscope⟩, rfl⟩, rfl⟩

namespace Catalog

theorem eq_of_oid {c c' : PgClass} (hc : c ∈ cat.classes) (hc' : c' ∈ cat.classes)
    (h : c.oid = c'.oid) : c = c' :=
  List.inj_on_of_nodup_map cat.oids hc hc' h

theorem eq_of_tableName {c c' : PgClass} (hc : c ∈ cat.classes) (hc' : c' ∈ cat.classes)
    (h : c.tableName = c'.tableName) : c = c' :=
  List.inj_on_of_nodup_map cat.names hc hc' h

theorem classOf_oid {c : PgClass} (hc : c ∈ cat.classes) :
    classOf cat.classes c.oid = some c := by
  unfold classOf
  cases h : cat.classes.find? fun c' => c'.oid = c.oid with
  | none =>
      rw [List.find?_eq_none] at h
      exact absurd (decide_eq_true rfl) (h c hc)
  | some c' =>
      have hoid : c'.oid = c.oid := by simpa using List.find?_some h
      rw [eq_of_oid (List.mem_of_find?_eq_some h) hc hoid]

/-- A partition is not its own parent. -/
theorem ne_of_parents {c parent : PgClass} (hc : c ∈ cat.classes)
    (h : c.parents = [parent.oid]) : parent ≠ c := by
  rintro rfl
  obtain ⟨depth, hdepth⟩ := cat.forest
  have hlt := hdepth parent hc parent.oid (by rw [h]; exact List.mem_singleton_self _)
  omega

end Catalog

theorem tableOfRow_relationRow (c : PgClass) (parent : Option PgClass) :
    tableOfRow (relationRow c parent).schemaName (relationRow c parent).relationName =
      some c.tableName := rfl

theorem exists_of_mem_relationRows {c : PgClass} {rel : ExportRelation}
    (h : rel ∈ relationRows cat.classes c) : ∃ parent, rel = relationRow c parent := by
  unfold relationRows at h
  split at h
  · exact ⟨none, List.mem_singleton.mp h⟩
  · obtain ⟨oid, -, rfl⟩ := List.mem_map.mp h
    exact ⟨_, rfl⟩

theorem exists_relationRow (c : PgClass) :
    ∃ parent, relationRow c parent ∈ relationRows cat.classes c := by
  unfold relationRows
  cases c.parents with
  | nil => exact ⟨none, List.mem_singleton_self _⟩
  | cons oid parents => exact ⟨classOf cat.classes oid, List.mem_cons_self⟩

/-- The rows of a partition. -/
theorem relationRows_partition {c parent : PgClass} (hparent : parent ∈ cat.classes)
    (h : c.parents = [parent.oid]) :
    relationRows cat.classes c = [relationRow c (some parent)] := by
  unfold relationRows
  rw [h]
  show [relationRow c (classOf cat.classes parent.oid)] = _
  rw [Catalog.classOf_oid hparent]

end

end PgErdCloud.Introspect
