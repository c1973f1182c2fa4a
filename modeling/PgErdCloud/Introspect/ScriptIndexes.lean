/-
  The indexes of an exported PostgreSQL script that come into being twice. A primary key or a
  unique constraint within a `CREATE TABLE` brings its index along, and a partition brings
  those that are attached to the indexes of its parent; the index query returns them all, and
  the exporter writes a `CREATE INDEX` for each.

  `no_index_twice_iff` is about every catalog and schema filter: no index is created twice exactly
  when no exported table but a partition has a primary or unique key.
-/
import PgErdCloud.Introspect.ScriptOrder

namespace PgErdCloud.Introspect

open Lib Lib.PyStr Ddl Diff

/-- The index comes into being through a constraint within the script. -/
inductive FromConstraint (cat : Catalog) (stmts : List ExportStmt) : PgIndex → Prop
  | inline {c : PgClass} {con : PgConstraint} {ix : PgIndex} (hc : c ∈ cat.classes)
      (hcon : con ∈ cat.constraints) (key : con.kind ∈ [.primary, .unique])
      (hrel : con.relation = c.oid) (hix : ix ∈ cat.indexes) (hixrel : ix.relation = c.oid)
      (name : ix.name = con.name) {defs : List TableDef} {partitionKey tablespace : Option Str}
      (stmt : .createTable c.tableName defs partitionKey tablespace ∈ stmts)
      (definition : .constraint con.name con.definition ∈ defs) : FromConstraint cat stmts ix
  | attached {c : PgClass} {ix parentIx : PgIndex} (hc : c ∈ cat.classes)
      (hix : ix ∈ cat.indexes) (hixrel : ix.relation = c.oid)
      (attached : ix.attachedTo = some parentIx.oid) (parent : FromConstraint cat stmts parentIx)
      {parentTable : TableName} {bound : Str} {partitionKey tablespace : Option Str}
      (stmt : .createPartition c.tableName parentTable bound partitionKey tablespace ∈ stmts) :
      FromConstraint cat stmts ix

/-- No index that comes into being through a constraint has a `CREATE INDEX`. -/
def NoIndexTwice (cat : Catalog) (stmts : List ExportStmt) : Prop :=
  ∀ ix, FromConstraint cat stmts ix → ∀ c ∈ cat.classes, c.oid = ix.relation →
    ∀ definition tablespace,
      .createIndex (some c.tableName) (some ix.name) definition tablespace ∉ stmts

section
variable {cat : Catalog} {schemaFilter : Option Str}

/-- A table of its own is no partition in the catalog. -/
theorem exported_of_createTable {unicode : Unicode} {c : PgClass} (hc : c ∈ cat.classes)
    {defs : List TableDef} {key tablespace : Option Str}
    (h : .createTable c.tableName defs key tablespace ∈
      postgresqlStmts unicode (introspectPostgres cat schemaFilter)) :
    Exported schemaFilter c ∧ c.isPartition = false := by
  obtain ⟨rel, hrel, hnone, hcreates⟩ := exists_row_of_createTable unicode _ h
  obtain ⟨c', hc', hexp, hrow⟩ := mem_snapshotTables.mp hrel
  obtain ⟨q, rfl⟩ := exists_of_mem_relationRows hrow
  rw [creates_relationRow, Set.mem_singleton_iff] at hcreates
  obtain rfl := Catalog.eq_of_tableName hc hc' hcreates
  refine ⟨hexp, ?_⟩
  by_contra hpart
  rw [Bool.not_eq_false] at hpart
  obtain ⟨parent, hparent, hparents, -, hbound⟩ := cat.partitions c hc hpart
  rw [relationRows_partition hparent hparents, List.mem_singleton] at hrow
  have hneeds : (relationRow c (some parent)).needsParent = {parent.tableName} :=
    needsParent_partition hpart hbound
  rw [← hrow] at hneeds
  have hmem : parent.tableName ∈ (relationRow c q).needsParent := by
    rw [hneeds]
    exact Set.mem_singleton _
  obtain ⟨-, -, bound, hb⟩ := hmem
  rw [hnone] at hb
  exact absurd hb (by simp)

/-- The index of a constraint of an exported table comes into being, and has a statement. -/
theorem index_twice (unicode : Unicode) {c : PgClass} (hc : c ∈ cat.classes)
    (hexp : Exported schemaFilter c) (hpart : c.isPartition = false) {con : PgConstraint}
    (hcon : con ∈ cat.constraints) (hrel : con.relation = c.oid)
    (hkey : con.kind ∈ [.primary, .unique]) :
    ¬ NoIndexTwice cat (postgresqlStmts unicode (introspectPostgres cat schemaFilter)) := by
  intro h
  obtain ⟨ix, hix, hixrel, hname⟩ := cat.keyIndex con hcon hkey
  rw [hrel] at hixrel
  -- the table is written with the constraint
  obtain ⟨q, hrow⟩ : ∃ q, relationRow c q ∈ relationRows cat.classes c := exists_relationRow c
  have hnone : (relationRow c q).partitionOf = none := by
    simp [ExportRelation.partitionOf, relationRow, hpart]
  obtain ⟨key, tablespace, hstmt⟩ := createTable_mem_postgresqlStmts unicode
    (introspectPostgres cat schemaFilter) (mem_snapshotTables.mpr ⟨c, hc, hexp, hrow⟩) hnone
    (tableOfRow_relationRow c q) rfl
  have hkind : con.kind ∈ [.primary, .foreignKey, .unique, .check] := by
    simp only [List.mem_cons, List.not_mem_nil, or_false] at hkey ⊢
    rcases hkey with hk | hk
    · exact .inl hk
    · exact .inr (.inr (.inl hk))
  have hconRow : constraintRow c con ∈ constraintsSql cat schemaFilter :=
    mem_constraintsSql.mpr ⟨con, hcon, c, hc, hkind, hrel.symm, hexp.2, rfl⟩
  have htype : (constraintRow c con).constraintType ∈
      [some "p".toList, some "u".toList, some "c".toList] := by
    simp only [List.mem_cons, List.not_mem_nil, or_false] at hkey
    rcases hkey with hk | hk
    · simp [constraintRow, hk, ConKind.text]
    · simp [constraintRow, hk, ConKind.text]
  have hdef : .constraint con.name con.definition ∈
      renderTableConstraintsPg (constraintsSql cat schemaFilter) c.oid :=
    mem_renderTableConstraintsPg hconRow rfl htype rfl
  have hfrom : FromConstraint cat
      (postgresqlStmts unicode (introspectPostgres cat schemaFilter)) ix :=
    .inline hc hcon hkey hrel hix hixrel hname hstmt (List.mem_append_right _ hdef)
  -- and so is the index
  have hixRow : indexRow c ix ∈ indexesSql cat schemaFilter := by
    refine mem_indexesSql.mpr ⟨ix, hix, c, hc, hixrel.symm, ?_, hexp.2, rfl⟩
    rcases hexp.1 with hk | hk
    · simp [hk]
    · simp [hk]
  have hixDef : (indexRow c ix).indexDef = some ix.definition := rfl
  obtain ⟨definition, tablespace', hindex⟩ := createIndex_mem_postgresqlStmts unicode
    (introspectPostgres cat schemaFilter) hixRow hixDef
  exact h ix hfrom c hc hixrel.symm definition tablespace' hindex

/-- **No index comes into being twice** exactly where no exported table, partitions apart, has
    a primary key or a unique constraint. -/
theorem no_index_twice_iff (unicode : Unicode) (cat : Catalog) (schemaFilter : Option Str) :
    NoIndexTwice cat (postgresqlStmts unicode (introspectPostgres cat schemaFilter)) ↔
      ∀ c ∈ cat.classes, Exported schemaFilter c → c.isPartition = false →
        ∀ con ∈ cat.constraints, con.relation = c.oid → con.kind ∉ [.primary, .unique] := by
  constructor
  · intro h c hc hexp hpart con hcon hrel hkey
    exact index_twice unicode hc hexp hpart hcon hrel hkey h
  · intro h ix hfrom
    -- an attached index goes back to one of a table that is no partition
    exfalso
    induction hfrom with
    | inline hc hcon hkey hrel _ _ _ hstmt _ =>
        obtain ⟨hexp, hpart⟩ := exported_of_createTable hc hstmt
        exact h _ hc hexp hpart _ hcon hrel hkey
    | attached _ _ _ _ _ _ ih => exact ih

/-- A table with a primary key. -/
def keyedTable : Catalog where
  classes := [⟨1, "public".toList, "t".toList, .table, [], false, none, none, none⟩]
  attributes := []
  constraints := [⟨"t_pkey".toList, .primary, 1, some [1], "PRIMARY KEY (id)".toList⟩]
  indexes := [⟨2, "t_pkey".toList, 1, none, none,
    "CREATE UNIQUE INDEX t_pkey ON public.t (id)".toList⟩]
  oids := by decide
  names := by decide
  partitions := by decide
  forest := ⟨Int.toNat, by decide⟩
  keysOnTables := by decide
  indexRelation := by decide
  keyIndex := by decide

set_option maxRecDepth 4000 in
/-- **The index of a primary key is created twice.** -/
theorem primary_key_index_twice :
    ¬ NoIndexTwice keyedTable
      (postgresqlStmts asciiUnicode (introspectPostgres keyedTable none)) := by
  intro h
  have hstmts : postgresqlStmts asciiUnicode (introspectPostgres keyedTable none) =
      [.header .postgresql, .createSchema "public".toList, .blank,
        .createTable ⟨"public".toList, "t".toList⟩
          [.constraint "t_pkey".toList "PRIMARY KEY (id)".toList] none none,
        .blank, .indexesHeading .postgresql,
        .createIndex (some ⟨"public".toList, "t".toList⟩) (some "t_pkey".toList)
          "CREATE UNIQUE INDEX CONCURRENTLY t_pkey ON public.t (id)".toList none,
        .blank] := by decide
  rw [hstmts] at h
  have htable : .createTable ⟨"public".toList, "t".toList⟩
      [.constraint "t_pkey".toList "PRIMARY KEY (id)".toList] none none ∈
        [ExportStmt.header .postgresql, .createSchema "public".toList, .blank,
        .createTable ⟨"public".toList, "t".toList⟩
          [.constraint "t_pkey".toList "PRIMARY KEY (id)".toList] none none,
        .blank, .indexesHeading .postgresql,
        .createIndex (some ⟨"public".toList, "t".toList⟩) (some "t_pkey".toList)
          "CREATE UNIQUE INDEX CONCURRENTLY t_pkey ON public.t (id)".toList none,
        .blank] := by
    simp
  refine h _ (.inline (List.mem_singleton_self _) (List.mem_singleton_self _) (by decide) rfl
    (List.mem_singleton_self _) rfl rfl htable (List.mem_singleton_self _)) _
    (List.mem_singleton_self _) rfl
    "CREATE UNIQUE INDEX CONCURRENTLY t_pkey ON public.t (id)".toList none ?_
  simp [PgClass.tableName]

end

end PgErdCloud.Introspect
