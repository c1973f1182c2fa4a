/-
  The database that a PostgreSQL snapshot describes, read off its rows, and what the generated
  migration does to the one that the base describes. The types of the columns are the texts of
  `data_type`, and every relation is an ordinary table.

  Proved: no statement of the migration is refused, and at the end the tables with their columns,
  types and keys are those of the target. The hypotheses say that each snapshot describes a
  database (`Describes`) and that the two differ only in what the generator has statements for
  (`Comparable`): no primary key changes, new foreign keys refer to primary keys, the database
  knows the types of the target and casts what is retyped.

  `migration_reaches_target` is about all PostgreSQL snapshots of ordinary tables that describe
  databases (`Describes`) and differ only in what there are statements for (`Comparable`). There
  are no rows, so that what depends on data cannot fail.
-/
import PgErdCloud.Ddl.MigrationEffect

namespace PgErdCloud.Ddl

open Lib Lib.PyStr Diff
open Lib.Relational (Catalog ColumnDef Layout ForeignKey Types)

/-! ## The catalog of a snapshot -/

section
variable {Oid : Type} [DecidableEq Oid] (s : Snapshot Oid)

/-- The foreign keys with their names. -/
def namedForeignKey (edge : FkEdge Oid) : Option (ForeignKey TableName Str) :=
  (s.foreignKey edge).map fun fk =>
    ⟨fk.child, edge.fkConstraintName.getD [], fk.childColumns, fk.parent, fk.parentColumns⟩

/-- The foreign keys of a snapshot. -/
def namedForeignKeys : List (ForeignKey TableName Str) := s.fkEdges.filterMap (namedForeignKey s)

instance (tables : List TableName) : Decidable (KeysDistinct tables) :=
  inferInstanceAs (Decidable (∀ table ∈ tables, ∀ table' ∈ tables,
    table.key = table'.key → table = table'))

/-- What the row of a column says of it. -/
def rowDef (col : Col) : ColumnDef Str := ⟨col.dataType.getD [], col.isNotNull⟩

/-- The type of a column, if its table has it. -/
def typeOf (table : TableName) (name : Str) : Option Str :=
  (s.column table name).bind Col.dataType

/-- The database that the snapshot describes. -/
def snapshotCatalog : DbCatalog where
  namespaces := {schema | ∃ table ∈ s.tableNames, table.schema = schema}
  table table :=
    if table ∈ s.tableNames then some {
      column := fun name => (s.column table name).map rowDef
      primaryKey := s.primaryKey table }
    else none
  foreignKeys := {k | k ∈ namedForeignKeys s}

/-- The rows are those of a database: ordinary tables in schemas, whose columns have types;
    tables, columns and constraints are told apart by their names; and keys are of columns that
    exist. -/
structure Describes : Prop where
  wellFormed : s.WellFormed
  keysDistinct : KeysDistinct s.tableNames
  ordinary : ∀ rel ∈ s.relations, rel.relationKind = some "r".toList
  schemas : ∀ table ∈ s.tableNames, table.schema ≠ []
  typed : ∀ col ∈ s.columns, col.dataType ≠ none
  named : ∀ edge ∈ s.fkEdges, namedForeignKey s edge ≠ none →
    edge.fkConstraintName.getD [] ≠ []
  primaryKey_nodup : ∀ table ∈ s.tableNames, (s.primaryKey table).Nodup
  primaryKey_notNull : ∀ table ∈ s.tableNames, ∀ c ∈ s.primaryKey table,
    (s.column table c).any Col.isNotNull = true
  fk_columns : ∀ k ∈ namedForeignKeys s,
    (∀ c ∈ k.childColumns, s.column k.child c ≠ none) ∧
      ∀ c ∈ k.parentColumns, s.column k.parent c ≠ none
  fk_named : ∀ k ∈ namedForeignKeys s, ∀ k' ∈ namedForeignKeys s, k.child = k'.child →
    k.name = k'.name → k = k'
  fk_signatures : ∀ k ∈ namedForeignKeys s, ∀ k' ∈ namedForeignKeys s,
    (indexFk k).signature = (indexFk k').signature → k = k'

variable {s}

/-- What an edge says of its foreign key. -/
theorem namedForeignKey_eq_some {edge : FkEdge Oid} {k : ForeignKey TableName Str}
    (h : namedForeignKey s edge = some k) :
    s.tableOf edge.childRelationOid = some k.child ∧
      s.tableOf edge.parentRelationOid = some k.parent ∧
      k.name = edge.fkConstraintName.getD [] ∧
      ∃ parts, parts = sortByOrdinal ((s.fkEdges.filter (s.SameConstraint edge)).map edgePart) ∧
        k.childColumns = parts.map (fun part => part.2.1) ∧
        k.parentColumns = parts.map (fun part => part.2.2) := by
  obtain ⟨fk, hfk, rfl⟩ := Option.map_eq_some_iff.mp h
  obtain ⟨child, parent, hc, hp⟩ := Snapshot.tableOf_of_foreignKey hfk
  rw [Snapshot.foreignKey, hc, hp, Option.some.injEq] at hfk
  subst hfk
  exact ⟨hc, hp, rfl, _, rfl, rfl, rfl⟩

/-- The catalog is well formed. -/
theorem Describes.wellFormed_catalog (h : Describes s) :
    (snapshotCatalog s).WellFormed := by
  have htable : ∀ table d, (snapshotCatalog s).table table = some d →
      table ∈ s.tableNames ∧
        d = ⟨fun name => (s.column table name).map rowDef, s.primaryKey table⟩ := by
    intro table d hd
    unfold snapshotCatalog at hd
    dsimp only at hd
    split_ifs at hd with hmem
    exact ⟨hmem, (Option.some.inj hd).symm⟩
  have hcolumns : ∀ table columns, table ∈ s.tableNames →
      (∀ c ∈ columns, s.column table c ≠ none) →
      (snapshotCatalog s).HasColumns table columns := by
    intro table columns hmem hall
    refine ⟨_, if_pos hmem, fun c hc => ?_⟩
    obtain ⟨col, hcol⟩ := Option.ne_none_iff_exists'.mp (hall c hc)
    simp [hcol]
  refine ⟨?_, ?_, ?_, h.fk_named⟩
  · intro table d hd
    obtain ⟨hmem, rfl⟩ := htable table d hd
    exact h.primaryKey_nodup table hmem
  · intro table d hd c hc
    obtain ⟨hmem, rfl⟩ := htable table d hd
    obtain ⟨col, hcol, hnull⟩ := (Option.any_eq_true _ _).mp (h.primaryKey_notNull table hmem c hc)
    exact ⟨col.dataType.getD [], by simp [hcol, rowDef, hnull]⟩
  · intro k hk
    obtain ⟨edge, hedge, hedgek⟩ := List.mem_filterMap.mp hk
    obtain ⟨hc, hp, -, parts, hparts, hcc, hpc⟩ := namedForeignKey_eq_some hedgek
    obtain ⟨hchild, hparent⟩ := h.fk_columns k hk
    refine ⟨hcolumns _ _ (Snapshot.mem_tableNames_of_tableOf hc) hchild,
      hcolumns _ _ (Snapshot.mem_tableNames_of_tableOf hp) hparent, ?_, ?_⟩
    · rw [hcc, hpc, List.length_map, List.length_map]
    · have hmem : edgePart edge ∈ parts := by
        rw [hparts, sortByOrdinal, List.mem_insertionSort]
        exact List.mem_map_of_mem (List.mem_filter.mpr ⟨hedge, decide_eq_true ⟨rfl, rfl, rfl⟩⟩)
      rw [hcc]
      exact List.ne_nil_of_mem (List.mem_map_of_mem hmem)

/-- A column stands in a row of its table. -/
theorem exists_row_of_column {table : TableName} {name : Str} {col : Col}
    (h : s.column table name = some col) : ∃ row ∈ s.columns,
      s.tableOf row.relationOid = some table ∧ row.columnName = some name ∧
        row.dataType = col.dataType := by
  obtain ⟨row, hrow, rfl⟩ := Option.map_eq_some_iff.mp h
  obtain ⟨htable, hname⟩ : s.tableOf row.relationOid = some table ∧ row.columnName = some name := by
    simpa using List.find?_some hrow
  exact ⟨row, List.mem_of_find?_eq_some hrow, htable, hname, rfl⟩

/-- The types of the catalog are those of the rows. -/
theorem Describes.hasType_iff (h : Describes s) {table : TableName} {name type : Str} :
    (snapshotCatalog s).HasType table name type ↔ typeOf s table name = some type := by
  have htyped {col : Col} (hcol : s.column table name = some col) : col.dataType ≠ none := by
    obtain ⟨row, hrow, -, -, htype⟩ := exists_row_of_column hcol
    exact htype ▸ h.typed row hrow
  constructor
  · rintro ⟨d, def', hd, hdef, rfl⟩
    unfold snapshotCatalog at hd
    dsimp only at hd
    split_ifs at hd
    obtain rfl := Option.some.inj hd
    obtain ⟨col, hcol, rfl⟩ := Option.map_eq_some_iff.mp hdef
    obtain ⟨type, htype⟩ := Option.ne_none_iff_exists'.mp (htyped hcol)
    rw [typeOf, hcol, Option.bind_some, rowDef, htype, Option.getD_some]
  · intro htype
    obtain ⟨col, hcol, htype⟩ := Option.bind_eq_some_iff.mp htype
    obtain ⟨row, -, htable, -, -⟩ := exists_row_of_column hcol
    have hmem : table ∈ s.tableNames := Snapshot.mem_tableNames_of_tableOf htable
    exact ⟨_, rowDef col, if_pos hmem, by simp only [hcol, Option.map_some],
      by rw [rowDef, htype, Option.getD_some]⟩

/-! ## The index represents the catalog -/

/-- The entry at a key is that of a table with the key. -/
theorem tableName_of_get? {key : Str} {tbl : Table}
    (hget : (indexSnapshot s).tables.get? key = some tbl) :
    tableName tbl ∈ s.tableNames ∧ (tableName tbl).key = key := by
  unfold indexSnapshot at hget
  rw [get?_tables, Option.map_eq_some_iff] at hget
  obtain ⟨tbl', htbl', rfl⟩ := hget
  obtain ⟨rel, hrel, rfl, rfl⟩ := get?_relationTables htbl'
  exact ⟨List.mem_map_of_mem hrel, (Relation.key_eq rel).symm⟩

/-- Between two snapshots of one dialect types are written as they are. -/
theorem columnDef_eq_rowDef (unicode : Unicode) {col : Col} (h : col.dataType ≠ none) :
    columnDef unicode .postgresql .postgresql col = rowDef col := by
  obtain ⟨type, htype⟩ := Option.ne_none_iff_exists'.mp h
  rw [columnDef, rowDef, colType, mappedDataType, htype]
  rfl

/-- The index holds each table, laid out as its rows say. -/
theorem Describes.get?_table (h : Describes s) (unicode : Unicode) {table : TableName}
    (hmem : table ∈ s.tableNames) : ∃ tbl, (indexSnapshot s).tables.get? table.key = some tbl ∧
      tableName tbl = table ∧ layoutOf unicode .postgresql .postgresql tbl =
        ⟨fun name => (s.column table name).map rowDef, s.primaryKey table⟩ := by
  obtain ⟨tbl, htbl, hcolumns, hpk, -⟩ := Snapshot.exists_table h.wellFormed h.keysDistinct hmem
  obtain ⟨hmem', hkey⟩ := tableName_of_get? htbl
  refine ⟨tbl, htbl, h.keysDistinct _ hmem' _ hmem hkey, ?_⟩
  have hrows (name : Str) :
      (s.column table name).map (columnDef unicode .postgresql .postgresql) =
        (s.column table name).map rowDef := by
    refine Option.map_congr fun col hcol => columnDef_eq_rowDef unicode ?_
    obtain ⟨row, hrow, -, -, htype⟩ := exists_row_of_column hcol
    exact htype ▸ h.typed row hrow
  rw [layoutOf, hpk]
  simp only [hcolumns, hrows]

/-- The entry that the index makes of a group of edges. -/
theorem Describes.fkAt_eq (h : Describes s) {edge : FkEdge Oid} (hedge : edge ∈ s.fkEdges)
    {k : ForeignKey TableName Str} (hk : namedForeignKey s edge = some k) :
    fkAt (oidToTable s.relations).get? s
      (k.child.key, k.parent.key, edge.fkConstraintName.getD []) = indexFk k := by
  obtain ⟨hc, hp, hname, parts, hparts, hcc, hpc⟩ := namedForeignKey_eq_some hk
  have hne : edge.fkConstraintName.getD [] ≠ [] := h.named edge hedge (by simp [hk])
  rw [fkAt, Snapshot.groupEdges_eq h.keysDistinct hc hp]
  unfold groupFk indexFk
  rw [if_neg hne, hname, hcc, hpc, hparts]

/-- Each entry of the index is that of a foreign key of the rows. -/
theorem Describes.exists_foreignKey (h : Describes s) {signature : Str} {fk : Fk}
    (hfk : (indexSnapshot s).fks.get? signature = some fk) :
    ∃ k ∈ namedForeignKeys s, fk = indexFk k ∧ fk.signature = signature := by
  obtain ⟨hsignature, group, hne, rfl⟩ := get?_fks _ hfk
  obtain ⟨edge, hm⟩ := List.exists_mem_of_ne_nil _ hne
  obtain ⟨hedge, hgroupEdge⟩ := List.mem_filter.mp hm
  obtain ⟨child, parent, hc, hp, rfl⟩ := Snapshot.exists_of_fkGroup (of_decide_eq_true hgroupEdge)
  have hk : ∃ k, namedForeignKey s edge = some k ∧ k.child = child ∧ k.parent = parent := by
    refine ⟨_, by rw [namedForeignKey, Snapshot.foreignKey, hc, hp]; rfl, rfl, rfl⟩
  obtain ⟨k, hk, rfl, rfl⟩ := hk
  exact ⟨k, List.mem_filterMap.mpr ⟨edge, hedge, hk⟩, h.fkAt_eq hedge hk, hsignature⟩

theorem Describes.represents (h : Describes s) (unicode : Unicode) :
    Represents unicode .postgresql .postgresql (indexSnapshot s) (snapshotCatalog s) := by
  have htable (table : TableName) :
      (snapshotCatalog s).table table ≠ none ↔ table ∈ s.tableNames := by
    by_cases hmem : table ∈ s.tableNames
    · simp [snapshotCatalog, hmem]
    · simp [snapshotCatalog, hmem]
  refine ⟨?_, ?_, fun _ _ hfk => h.exists_foreignKey hfk, ?_, ?_,
    fun table hd => h.schemas table ((htable table).mp hd)⟩
  · intro key tbl htbl
    obtain ⟨hmem, hkey⟩ := tableName_of_get? htbl
    obtain ⟨tbl', htbl', -, hdef⟩ := h.get?_table unicode hmem
    rw [hkey, htbl, Option.some.injEq] at htbl'
    subst htbl'
    exact ⟨hkey, by rw [hdef]; exact if_pos hmem⟩
  · intro table d hd
    unfold snapshotCatalog at hd
    dsimp only at hd
    split_ifs at hd with hmem
    obtain ⟨tbl, htbl, hname, -⟩ := h.get?_table unicode hmem
    exact ⟨tbl, htbl, hname⟩
  · intro k hk
    obtain ⟨edge, hedge, hedgek⟩ := List.mem_filterMap.mp hk
    obtain ⟨hc, hp, -⟩ := namedForeignKey_eq_some hedgek
    have hmem : (indexFk k).signature ∈ (indexSnapshot s).fks.keys := by
      refine (mem_keys_fks _).mpr ⟨_, ?_, congrArg Fk.signature (h.fkAt_eq hedge hedgek)⟩
      rw [Snapshot.groupEdges_eq h.keysDistinct hc hp]
      exact List.ne_nil_of_mem (List.mem_filter.mpr ⟨hedge, decide_eq_true ⟨rfl, rfl, rfl⟩⟩)
    obtain ⟨fk, hfk⟩ := Dict.mem_keys_iff.mp hmem
    obtain ⟨k', hk', rfl, hsignature⟩ := h.exists_foreignKey hfk
    rw [hfk, h.fk_signatures k' hk' k hk hsignature]
  · intro schema
    simp only [htable]
    exact Iff.rfl

end

/-! ## The migration of snapshots -/

section
variable {Oid Oid' : Type} [DecidableEq Oid] [DecidableEq Oid']

/-- The types that a column has while the migration runs, as long as the foreign key is there:
    those of the target, and of the base where the foreign key stays. -/
def typesDuring (base : Snapshot Oid) (target : Snapshot Oid') (k : ForeignKey TableName Str)
    (table : TableName) (name : Str) : List Str :=
  (typeOf target table name).toList ++
    if k ∈ namedForeignKeys base then (typeOf base table name).toList else []

/-- The two snapshots differ only in what the generator has statements for. Nothing of one is
    mistaken for something else of the other, a table that stays keeps its primary key, and a
    foreign key that stays keeps its name. There is no statement for a type, so that the database
    has to know those of the target and to cast what is retyped; none for a key, so that new
    foreign keys refer to primary keys; and none that takes a foreign key away for a while, so
    that its columns can be compared all the time. -/
structure Comparable (types : Types Str) (base : Snapshot Oid) (target : Snapshot Oid') :
    Prop where
  keys : KeysDistinct (base.tableNames ++ target.tableNames)
  signatures : ∀ k ∈ namedForeignKeys base, ∀ k' ∈ namedForeignKeys target,
    (indexFk k).signature = (indexFk k').signature → k = k'
  primaryKey : ∀ table ∈ base.tableNames, table ∈ target.tableNames →
    base.primaryKey table = target.primaryKey table
  known : ∀ row ∈ target.columns, ∀ type ∈ row.dataType, types.known type
  casts : ∀ row ∈ base.columns, ∀ row' ∈ target.columns,
    base.tableOf row.relationOid = target.tableOf row'.relationOid →
    row.columnName = row'.columnName → ∀ type ∈ row.dataType, ∀ type' ∈ row'.dataType,
      type ≠ type' → types.casts type type'
  refersToKey : ∀ k ∈ namedForeignKeys target, k ∉ namedForeignKeys base →
    k.parentColumns.Perm (target.primaryKey k.parent)
  compares : ∀ k ∈ namedForeignKeys target, ∀ pair ∈ k.childColumns.zip k.parentColumns,
    ∀ type ∈ typesDuring base target k k.child pair.1,
      ∀ type' ∈ typesDuring base target k k.parent pair.2, types.comparable type type'

variable {types : Types Str} {base : Snapshot Oid} {target : Snapshot Oid'}

theorem mem_typesDuring {k : ForeignKey TableName Str} {table : TableName} {name type : Str} :
    type ∈ typesDuring base target k table name ↔ typeOf target table name = some type ∨
      k ∈ namedForeignKeys base ∧ typeOf base table name = some type := by
  rw [typesDuring, List.mem_append, Option.mem_toList]
  refine or_congr_right ?_
  split_ifs with hk
  · simp [hk]
  · simp [hk]

theorem Comparable.migratable (h : Comparable types base target) (hbase : Describes base)
    (htarget : Describes target) :
    Migratable types (snapshotCatalog base) (snapshotCatalog target) := by
  have htable : ∀ table, ((snapshotCatalog base).table table ≠ none ∨
      (snapshotCatalog target).table table ≠ none) →
      table ∈ base.tableNames ++ target.tableNames := by
    intro table hor
    rw [List.mem_append]
    by_contra hnot
    rw [not_or] at hnot
    simp [snapshotCatalog, hnot.1, hnot.2] at hor
  refine ⟨fun table table' h1 h2 => h.keys _ (htable _ h1) _ (htable _ h2), ?_, ?_, ?_, ?_, ?_, ?_,
    ?_⟩
  · rintro k k' (hk | hk) (hk' | hk') hsignature
    · exact hbase.fk_signatures k hk k' hk' hsignature
    · exact h.signatures k hk k' hk' hsignature
    · exact (h.signatures k' hk' k hk hsignature.symm).symm
    · exact htarget.fk_signatures k hk k' hk' hsignature
  · intro table d d' hd hd'
    unfold snapshotCatalog at hd hd'
    dsimp only at hd hd'
    split_ifs at hd hd' with hmem hmem'
    obtain rfl := Option.some.inj hd
    obtain rfl := Option.some.inj hd'
    exact h.primaryKey table hmem hmem'
  · intro table name type htype
    obtain ⟨col, hcol, htype⟩ := Option.bind_eq_some_iff.mp (htarget.hasType_iff.mp htype)
    obtain ⟨row, hrow, -, -, hsame⟩ := exists_row_of_column hcol
    exact h.known row hrow type (hsame.trans htype)
  · intro table name old new hold hnew hne
    obtain ⟨col, hcol, hold⟩ := Option.bind_eq_some_iff.mp (hbase.hasType_iff.mp hold)
    obtain ⟨col', hcol', hnew⟩ := Option.bind_eq_some_iff.mp (htarget.hasType_iff.mp hnew)
    obtain ⟨row, hrow, ht, hn, hsame⟩ := exists_row_of_column hcol
    obtain ⟨row', hrow', ht', hn', hsame'⟩ := exists_row_of_column hcol'
    exact h.casts row hrow row' hrow' (ht.trans ht'.symm) (hn.trans hn'.symm) old
      (hsame.trans hold) new (hsame'.trans hnew) hne
  · intro k hk hnew
    obtain ⟨d, hd, -⟩ := (htarget.wellFormed_catalog.fits k hk).parent
    refine ⟨d, hd, ?_⟩
    unfold snapshotCatalog at hd
    dsimp only at hd
    split_ifs at hd
    obtain rfl := Option.some.inj hd
    exact h.refersToKey k hk hnew
  · intro k hk hnew pair hpair type type' htype htype'
    exact h.compares k hk pair hpair
      type (mem_typesDuring.mpr (.inl (htarget.hasType_iff.mp htype)))
      type' (mem_typesDuring.mpr (.inl (htarget.hasType_iff.mp htype')))
  · rintro k ⟨hkb, hk⟩ pair hpair type type' htype htype'
    have hduring {table : TableName} {name ty : Str}
        (hty : (snapshotCatalog base).HasType table name
        ty ∨ (snapshotCatalog target).HasType table name ty) :
        ty ∈ typesDuring base target k table name := by
      rw [mem_typesDuring, ← htarget.hasType_iff, ← hbase.hasType_iff]
      exact hty.symm.imp_right fun hty => ⟨hkb, hty⟩
    exact h.compares k hk pair hpair type (hduring htype) type' (hduring htype')

/-- **A migration turns the database of the base into that of the target.** Run on the database
    that the base describes, every statement of the generated migration is accepted, and the
    tables with their columns, types and keys and the foreign keys are those of the target.
    Schemas are never dropped. -/
theorem migration_reaches_target (unicode : Unicode) (types : Types Str)
    (madeUpName : TableName → List Str → Str) (hbase : Describes base)
    (htarget : Describes target) (hsource : snapshotSourceDialect unicode target = .postgresql)
    (h : Comparable types base target) :
    run (Catalog.step types) (snapshotCatalog base)
        ((snapshotDiffStmts unicode base target .postgresql).flatMap (Stmt.meaning madeUpName)) =
      some { snapshotCatalog target with
        namespaces :=
          (snapshotCatalog base).namespaces ∪ (snapshotCatalog target).namespaces } := by
  have hsetting : Setting unicode .postgresql .postgresql types (indexSnapshot base)
      (indexSnapshot target) (snapshotCatalog base) (snapshotCatalog target) :=
    ⟨hbase.represents unicode, htarget.represents unicode, hbase.wellFormed_catalog,
      htarget.wellFormed_catalog, h.migratable hbase htarget⟩
  rw [snapshotDiffStmts, hsource, hsetting.run_migration madeUpName]

/-- Three tables, where the second and the third have a foreign key to the first. -/
def exampleSnapshot (third : Str) (key : String) (columns : List (Column Nat)) : Snapshot Nat where
  relations :=
    [⟨some 1, some "public".toList, some "a".toList, none, some "r".toList⟩,
      ⟨some 2, some "public".toList, some "b".toList, none, some "r".toList⟩,
      ⟨some 3, some "public".toList, some third, none, some "r".toList⟩]
  columns := ⟨some 1, some "id".toList, some key.toList, true⟩ ::
    ⟨some 2, some "a_id".toList, some "integer".toList, true⟩ ::
    ⟨some 3, some "a_id".toList, some "integer".toList, true⟩ :: columns
  pkColumns := [⟨some 1, some "id".toList, some 1⟩]
  fkEdges :=
    [⟨some 4, some "b_to_a".toList, some 2, some 1, some "a_id".toList, some "id".toList, some 1⟩,
      ⟨some 5, some "to_a".toList, some 3, some 1, some "a_id".toList, some "id".toList, some 1⟩]
  sourceDialect := none
  databaseDialect := none
  dialect := none

/-- The tables `a`, `b` and `c`. -/
def exampleBase : Snapshot Nat := exampleSnapshot "c".toList "integer" []

/-- The tables `a`, `b` and `d`, where `a` has another column and a wider key. -/
def exampleTarget : Snapshot Nat :=
  exampleSnapshot "d".toList "bigint" [⟨some 1, some "note".toList, some "text".toList, false⟩]

/-- Three types of PostgreSQL: integers of two sizes, each cast to the other and to text. -/
def exampleTypes : Types Str where
  known type := type ∈ ["integer".toList, "bigint".toList, "text".toList]
  casts type type' := type = type' ∨ type ∈ ["integer".toList, "bigint".toList]
  comparable type type' := type = type' ∨
    (type ∈ ["integer".toList, "bigint".toList] ∧ type' ∈ ["integer".toList, "bigint".toList])

instance (type : Str) : Decidable (exampleTypes.known type) :=
  inferInstanceAs (Decidable (_ ∈ _))

instance (type type' : Str) : Decidable (exampleTypes.casts type type') :=
  inferInstanceAs (Decidable (_ ∨ _))

instance (type type' : Str) : Decidable (exampleTypes.comparable type type') :=
  inferInstanceAs (Decidable (_ ∨ _))

/-- A table `c` goes with its foreign key, `d` comes with one, and `a` gets a column and a wider
    key, which the foreign key of `b` refers to all the while. -/
theorem migration_reaches_target_example :
    run (Catalog.step exampleTypes) (snapshotCatalog exampleBase)
        ((snapshotDiffStmts asciiUnicode exampleBase exampleTarget .postgresql).flatMap
          (Stmt.meaning fun _ _ => [])) =
      some { snapshotCatalog exampleTarget with
        namespaces := (snapshotCatalog exampleBase).namespaces ∪
          (snapshotCatalog exampleTarget).namespaces } :=
  migration_reaches_target asciiUnicode exampleTypes (fun _ _ => [])
    ⟨⟨by decide, by decide⟩, by decide, by decide, by decide, by decide, by decide, by decide,
      by decide, by decide, by decide, by decide⟩
    ⟨⟨by decide, by decide⟩, by decide, by decide, by decide, by decide, by decide, by decide,
      by decide, by decide, by decide, by decide⟩
    rfl ⟨by decide, by decide, by decide, by decide, by decide, by decide, by decide⟩

end

end PgErdCloud.Ddl
