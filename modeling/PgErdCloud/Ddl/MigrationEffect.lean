/-
  The effect of a migration. Phase by phase, every statement is accepted: the foreign keys and
  the tables that go, the schemas and the tables that are new, the tables that both snapshots
  have, and the foreign keys that are new. At the end the catalog is that of the target, but for
  the schemas that only the base has.
-/
import PgErdCloud.Ddl.MigrationCatalog

namespace PgErdCloud.Ddl

open Lib Lib.PyStr Diff
open Lib.Relational (Catalog ColumnDef Layout ForeignKey Alter TableSpec Types entryAt)

/-! ## The phases -/

/-- The tables that stay. -/
def keptTable (cb ct : DbCatalog) (table : TableName) : Option (Layout Str Str) :=
  if ct.table table = none then none else cb.table table

/-- The tables that stay, and the new ones. -/
def grownTable (cb ct : DbCatalog) (table : TableName) : Option (Layout Str Str) :=
  if ct.table table = none then none
  else if cb.table table = none then ct.table table else cb.table table

/-- The table that an entry's `CREATE TABLE` asks for. -/
def tableSpec (unicode : Unicode) (source target : Dialect) (tbl : Table) :
    TableSpec Str TableName Str Str where
  schema := tbl.schemaName
  table := tableName tbl
  columns := tbl.columns.items.map fun e => (e.1, columnDef unicode source target e.2)
  primaryKey := tbl.pk

section
variable {unicode : Unicode} {source target : Dialect} {types : Types Str} {b t : Index}
  {cb ct : DbCatalog} (madeUpName : TableName → List Str → Str)

/-- What the migration is written from and for. -/
structure Setting (unicode : Unicode) (source target : Dialect) (types : Types Str) (b t : Index)
    (cb ct : DbCatalog) : Prop where
  base : Represents unicode source target b cb
  target : Represents unicode source target t ct
  base_wellFormed : cb.WellFormed
  target_wellFormed : ct.WellFormed
  migratable : Migratable types cb ct

namespace Setting

variable (h : Setting unicode source target types b t cb ct)
include h

theorem key_mem_target {key : Str} {bt : Table} (hget : b.tables.get? key = some bt) :
    key ∈ t.tables.keys ↔ ct.table (tableName bt) ≠ none :=
  h.base.mem_tables_keys_iff h.target
    (fun table table' hb ht => h.migratable.keys table table' (.inl hb) (.inr ht)) hget

theorem key_mem_base {key : Str} {tt : Table} (hget : t.tables.get? key = some tt) :
    key ∈ b.tables.keys ↔ cb.table (tableName tt) ≠ none :=
  h.target.mem_tables_keys_iff h.base
    (fun table table' ht hb => h.migratable.keys table table' (.inr ht) (.inl hb)) hget

theorem signature_mem_target {k : ForeignKey TableName Str} (hk : k ∈ cb.foreignKeys) :
    (indexFk k).signature ∈ t.fks.keys ↔ k ∈ ct.foreignKeys :=
  h.target.mem_fks_keys_iff
    (fun k hk k' hk' => h.migratable.signatures k k' (.inl hk) (.inr hk')) hk

theorem signature_mem_base {k : ForeignKey TableName Str} (hk : k ∈ ct.foreignKeys) :
    (indexFk k).signature ∈ b.fks.keys ↔ k ∈ cb.foreignKeys :=
  h.base.mem_fks_keys_iff
    (fun k hk k' hk' => h.migratable.signatures k k' (.inr hk) (.inl hk')) hk

/-- A foreign key that needs no statement of its own goes with its table. -/
theorem dropsWithChild_eq_true {k : ForeignKey TableName Str} (hk : k ∈ cb.foreignKeys) :
    dropsWithChild b t (indexFk k) = true ↔
      ct.table k.child = none ∧ ct.table k.parent ≠ none := by
  obtain ⟨⟨d, hd, -⟩, ⟨d', hd', -⟩, -, -⟩ := h.base_wellFormed.fits k hk
  obtain ⟨child, hchild, hname⟩ := h.base.exists_table _ d hd
  obtain ⟨parent, hparent, hname'⟩ := h.base.exists_table _ d' hd'
  have hbchild : k.child.key ∈ b.tables.keys := Dict.mem_keys_iff.mpr ⟨child, hchild⟩
  have hbparent : k.parent.key ∈ b.tables.keys := Dict.mem_keys_iff.mpr ⟨parent, hparent⟩
  have htchild := h.key_mem_target hchild
  have htparent := h.key_mem_target hparent
  rw [hname] at htchild
  rw [hname'] at htparent
  simp only [dropsWithChild, indexFk, Bool.and_eq_true, decide_eq_true_eq, Bool.not_eq_true',
    Bool.and_eq_false_iff, decide_eq_false_iff_not, not_not, htchild, htparent, hbchild, hbparent,
    not_true, true_and, false_or]

/-! ### Foreign keys and tables that go -/

theorem dropFks_meaning : ∃ dropped : List (ForeignKey TableName Str), dropped.Nodup ∧
    (∀ k, k ∈ dropped ↔ k ∈ cb.foreignKeys ∧ k ∉ ct.foreignKeys ∧
      ¬ (ct.table k.child = none ∧ ct.table k.parent ≠ none)) ∧
    (dropFkStmts b t).flatMap (Stmt.meaning madeUpName) =
      dropped.map fun k => .dropConstraint k.child k.name := by
  obtain ⟨ks, hnodup, hmem, hitems⟩ := h.base.exists_fkList
    fun k hk k' hk' => h.migratable.signatures k k' (.inl hk) (.inl hk')
  refine ⟨ks.filter fun k =>
    (indexFk k).signature ∉ t.fks.keys && !dropsWithChild b t (indexFk k),
    hnodup.filter _, fun k => ?_, ?_⟩
  · rw [List.mem_filter, hmem, Bool.and_eq_true, decide_eq_true_eq, Bool.not_eq_true']
    refine and_congr_right fun hk => and_congr (not_congr (h.signature_mem_target hk)) ?_
    rw [← Bool.not_eq_true, h.dropsWithChild_eq_true hk]
  · rw [dropFkStmts, hitems, List.filter_map, List.filterMap_map]
    refine flatMap_filterMap_eq_map fun k hk => ?_
    have hkb : k ∈ cb.foreignKeys := (hmem k).mp (List.mem_of_mem_filter hk)
    refine ⟨.dropConstraint k.child k.name, ?_, rfl⟩
    rw [Function.comp_apply, dropFkSql, h.base.fkEndpoints_indexFk h.base_wellFormed hkb]
    rfl

theorem dropTables_meaning : ∃ dropped : List TableName,
    (∀ table, table ∈ dropped ↔ cb.table table ≠ none ∧ ct.table table = none) ∧
    (dropTableStmts b t).flatMap (Stmt.meaning madeUpName) = dropped.map .dropTable := by
  refine ⟨(b.tables.items.filter fun e => e.1 ∉ t.tables.keys).map fun e => tableName e.2,
    fun table => ?_, ?_⟩
  · simp only [List.mem_map, List.mem_filter, decide_eq_true_eq, Prod.exists, Dict.mem_items_iff]
    constructor
    · rintro ⟨key, bt, ⟨hget, hkey⟩, rfl⟩
      rw [h.key_mem_target hget, not_not] at hkey
      exact ⟨by simp [(h.base.get?_tables key bt hget).2], hkey⟩
    · rintro ⟨hb, ht⟩
      obtain ⟨d, hd⟩ := Option.ne_none_iff_exists'.mp hb
      obtain ⟨bt, hget, rfl⟩ := h.base.exists_table table d hd
      refine ⟨_, bt, ⟨hget, ?_⟩, rfl⟩
      rw [h.key_mem_target hget, not_not]
      exact ht
  · rw [dropTableStmts, List.flatMap_map, List.map_map, List.map_eq_flatMap]
    rfl

theorem run_drops :
    run (Catalog.step types) cb ((dropFkStmts b t ++ dropTableStmts b t).flatMap
        (Stmt.meaning madeUpName)) =
      some ⟨cb.namespaces, keptTable cb ct, cb.foreignKeys ∩ ct.foreignKeys⟩ := by
  obtain ⟨fks, hnodup, hfks, hfkStmts⟩ := h.dropFks_meaning madeUpName
  obtain ⟨tables, htables, htableStmts⟩ := h.dropTables_meaning madeUpName
  rw [List.flatMap_append, hfkStmts, htableStmts]
  have hdropFks : run (Catalog.step types) cb (fks.map fun k => .dropConstraint k.child k.name) =
      some { cb with foreignKeys := {k ∈ cb.foreignKeys | k ∉ fks} } :=
    Lib.Relational.run_dropConstraint hnodup (fun k hk => ((hfks k).mp hk).1)
      h.base_wellFormed.named
  refine run_append.mpr ⟨_, hdropFks, ?_⟩
  rw [Lib.Relational.run_dropTable]
  · congr 2
    · funext table
      rw [keptTable]
      by_cases hb : cb.table table = none
      · simp [hb]
      · by_cases ht : ct.table table = none
        · simp [htables, hb, ht]
        · simp [htables, ht]
    · ext k
      constructor
      · rintro ⟨⟨hk, hkept⟩, hchild⟩
        have hstays : ct.table k.child ≠ none :=
          fun hnone => hchild ((htables _).mpr ⟨h.base_wellFormed.table_child hk, hnone⟩)
        refine ⟨hk, by_contra fun hkt => hkept ((hfks k).mpr ⟨hk, hkt, ?_⟩)⟩
        exact fun hgoes => hstays hgoes.1
      · rintro ⟨hk, hkt⟩
        refine ⟨⟨hk, fun hgoes => ((hfks k).mp hgoes).2.1 hkt⟩, fun hchild => ?_⟩
        exact h.target_wellFormed.table_child hkt ((htables _).mp hchild).2
  · rintro table htable k ⟨hk, hkept⟩ rfl
    exfalso
    have hparent : ct.table k.parent = none := ((htables _).mp htable).2
    refine hkept ((hfks k).mpr
      ⟨hk, fun hkt => h.target_wellFormed.table_parent hkt hparent, fun hgoes => ?_⟩)
    exact hgoes.2 hparent

/-! ### New schemas and tables -/

theorem createSchemas_meaning : ∃ schemas : List Str,
    cb.namespaces ∪ {schema | schema ∈ schemas} = cb.namespaces ∪ ct.namespaces ∧
    (createMissingSchemaSql b.tables t.tables).flatMap (Stmt.meaning madeUpName) =
      schemas.map .createNamespace := by
  refine ⟨sortedStrs ((((t.tables.items.filter fun e => e.1 ∉ b.tables.keys).map fun e =>
    e.2.schemaName).filter fun schema => schema ≠ [] ∧ schema ∉
      (b.tables.values.map Table.schemaName).filter (· ≠ [])).dedup), ?_, ?_⟩
  · ext schema
    simp only [Set.mem_union, Set.mem_ofPred_eq, sortedStrs, List.mem_insertionSort, List.mem_dedup,
      List.mem_filter, List.mem_map, decide_eq_true_eq, Prod.exists, Dict.mem_items_iff]
    refine or_congr_right' fun hnew => ?_
    constructor
    · rintro ⟨⟨key, tt, ⟨hget, -⟩, rfl⟩, -, -⟩
      refine (h.target.namespaces _).mpr ⟨tableName tt, ?_, rfl⟩
      simp [(h.target.get?_tables key tt hget).2]
    · intro hmem
      obtain ⟨table, htable, rfl⟩ := (h.target.namespaces _).mp hmem
      have hne := h.target.schema_ne_nil table htable
      obtain ⟨d, hd⟩ := Option.ne_none_iff_exists'.mp htable
      obtain ⟨tt, hget, rfl⟩ := h.target.exists_table table d hd
      refine ⟨⟨_, tt, ⟨hget, fun hkey => hnew ?_⟩, rfl⟩, hne, fun hold => hnew ?_⟩
      · exact (h.base.namespaces _).mpr ⟨tableName tt, (h.key_mem_base hget).mp hkey, rfl⟩
      · obtain ⟨⟨bt, hbt, hschema⟩, -⟩ := hold
        obtain ⟨⟨key, bt'⟩, hitem, rfl⟩ := List.mem_map.mp hbt
        have hdef := (h.base.get?_tables key bt' (Dict.mem_items_iff.mp hitem)).2
        exact (h.base.namespaces _).mpr ⟨tableName bt', by simp [hdef], hschema⟩
  · rw [createMissingSchemaSql, List.flatMap_map]
    exact List.map_eq_flatMap.symm

theorem createTables_meaning : ∃ specs : List (TableSpec Str TableName Str Str),
    (specs.map TableSpec.table).Nodup ∧
    (∀ spec ∈ specs, ∃ key tt, t.tables.get? key = some tt ∧ cb.table (tableName tt) = none ∧
      spec = tableSpec unicode source target tt) ∧
    (∀ table, ct.table table ≠ none → cb.table table = none → ∃ spec ∈ specs, spec.table = table) ∧
    (createTableStmts unicode source target b t).flatMap (Stmt.meaning madeUpName) =
      specs.map TableSpec.stmt := by
  refine ⟨(t.tables.items.filter fun e => e.1 ∉ b.tables.keys).map fun e =>
    tableSpec unicode source target e.2, ?_, ?_, ?_, ?_⟩
  · -- tables of different entries have different keys
    rw [List.map_map, List.Nodup, List.pairwise_map]
    have hnodup : (t.tables.items.filter fun e => e.1 ∉ b.tables.keys).Pairwise
        fun e e' => e.1 ≠ e'.1 := (List.pairwise_map.mp t.tables.nodup).filter _
    refine hnodup.imp_of_mem fun hm hm' hne he => hne ?_
    have hget := Dict.mem_items_iff.mp (List.mem_of_mem_filter hm)
    have hget' := Dict.mem_items_iff.mp (List.mem_of_mem_filter hm')
    have hname : tableName _ = tableName _ := he
    rw [← (h.target.get?_tables _ _ hget).1, ← (h.target.get?_tables _ _ hget').1, hname]
  · intro spec hspec
    obtain ⟨⟨key, tt⟩, hm, rfl⟩ := List.mem_map.mp hspec
    rw [List.mem_filter, Dict.mem_items_iff, decide_eq_true_eq] at hm
    refine ⟨key, tt, hm.1, ?_, rfl⟩
    have hkey := hm.2
    rwa [h.key_mem_base hm.1, not_not] at hkey
  · intro table htable hnew
    obtain ⟨d, hd⟩ := Option.ne_none_iff_exists'.mp htable
    obtain ⟨tt, hget, rfl⟩ := h.target.exists_table table d hd
    refine ⟨_, List.mem_map_of_mem (List.mem_filter.mpr ⟨Dict.mem_items_iff.mpr hget, ?_⟩), rfl⟩
    rw [decide_eq_true_eq, h.key_mem_base hget, not_not]
    exact hnew
  · rw [createTableStmts, List.flatMap_map, List.map_map, List.map_eq_flatMap]
    refine List.flatMap_congr fun e _ => ?_
    simp only [createTableSql, Stmt.meaning, List.map_map]
    rfl

/-- A created table is the target's. -/
theorem newTable_tableSpec {key : Str} {tt : Table} (hget : t.tables.get? key = some tt) :
    Lib.Relational.newTable (tableSpec unicode source target tt).columns tt.pk =
      layoutOf unicode source target tt := by
  have hpk := h.target_wellFormed.primaryKey _ _ (h.target.get?_tables key tt hget).2
  ext1
  · funext c
    have hentry : entryAt (tableSpec unicode source target tt).columns c =
        (tt.columns.get? c).map (columnDef unicode source target) :=
      Lib.Relational.entryAt_map _ _ _
    unfold Lib.Relational.newTable
    dsimp only
    rw [hentry, column_layoutOf]
    cases hc : tt.columns.get? c with
    | none => rfl
    | some col =>
        by_cases hmem : c ∈ tt.pk
        · obtain ⟨type, htype⟩ := hpk c hmem
          have hcol : columnDef unicode source target col = ⟨type, true⟩ := by
            simpa [column_layoutOf, hc] using htype
          simp [hmem, hcol]
        · simp [hmem]
  · rfl

theorem run_creates :
    run (Catalog.step types) ⟨cb.namespaces, keptTable cb ct, cb.foreignKeys ∩ ct.foreignKeys⟩
        ((createMissingSchemaSql b.tables t.tables ++
          createTableStmts unicode source target b t).flatMap (Stmt.meaning madeUpName)) =
      some ⟨cb.namespaces ∪ ct.namespaces, grownTable cb ct, cb.foreignKeys ∩ ct.foreignKeys⟩ := by
  obtain ⟨schemas, hschemas, hschemaStmts⟩ := h.createSchemas_meaning madeUpName
  obtain ⟨specs, hnodup, hspecs, hall, hspecStmts⟩ := h.createTables_meaning madeUpName
  rw [List.flatMap_append, hschemaStmts, hspecStmts]
  refine run_append.mpr ⟨_, Lib.Relational.run_createNamespace schemas, ?_⟩
  rw [hschemas, Lib.Relational.run_createTable hnodup]
  · congr 2
    funext table
    unfold grownTable keptTable
    cases hfind : specs.find? (·.table = table) with
    | none =>
        by_cases ht : ct.table table = none
        · simp [ht]
        · have hb : cb.table table ≠ none := by
            intro hb
            obtain ⟨spec, hspec, he⟩ := hall table ht hb
            exact List.find?_eq_none.mp hfind spec hspec (decide_eq_true he)
          simp [ht, hb]
    | some spec =>
        obtain ⟨key, tt, hget, hnew, rfl⟩ := hspecs spec (List.mem_of_find?_eq_some hfind)
        have hfound := List.find?_some hfind
        have htable : tableName tt = table := of_decide_eq_true hfound
        have hdef := (h.target.get?_tables key tt hget).2
        rw [htable] at hnew hdef
        have hspec : Lib.Relational.newTable (tableSpec unicode source target tt).columns
            (tableSpec unicode source target tt).primaryKey = layoutOf unicode source target tt :=
          h.newTable_tableSpec hget
        simp [hnew, hdef, hspec]
  · intro spec hspec
    obtain ⟨key, tt, hget, hnew, rfl⟩ := hspecs spec hspec
    obtain ⟨hkey, hdef⟩ := h.target.get?_tables key tt hget
    refine ⟨?_, ?_, ?_, ?_, ?_, ?_⟩
    · show keptTable cb ct (tableName tt) = none
      rw [keptTable, hnew, ite_self]
    · exact .inr ((h.target.namespaces _).mpr ⟨tableName tt, by simp [hdef], rfl⟩)
    · rw [tableSpec, List.map_map]
      exact tt.columns.nodup
    · intro e he
      obtain ⟨e', he', rfl⟩ := List.mem_map.mp he
      refine h.migratable.known (tableName tt) e'.1 _ ⟨_, _, hdef, ?_, rfl⟩
      rw [column_layoutOf, Dict.mem_items_iff.mp he']
      rfl
    · exact h.target_wellFormed.nodup _ _ hdef
    · intro c hc
      obtain ⟨type, htype⟩ := h.target_wellFormed.primaryKey _ _ hdef c hc
      obtain ⟨col, hcol, -⟩ := Option.map_eq_some_iff.mp htype
      rw [tableSpec, List.map_map]
      exact Dict.mem_keys_iff.mpr ⟨col, hcol⟩

/-! ### Tables that stay -/

/-- The tables when those of the entries `done` are altered. -/
def alteredTable (cb ct : DbCatalog) (done : List (Str × Table)) (table : TableName) :
    Option (Layout Str Str) :=
  if ∃ e ∈ done, tableName e.2 = table then ct.table table else grownTable cb ct table

omit h in
theorem alteredTable_concat (done : List (Str × Table)) (e : Str × Table) (table : TableName) :
    alteredTable cb ct (done ++ [e]) table =
      if tableName e.2 = table then ct.table table else alteredTable cb ct done table := by
  unfold alteredTable
  by_cases he : tableName e.2 = table
  · have hex : ∃ e' ∈ done ++ [e], tableName e'.2 = table := ⟨e, by simp, he⟩
    rw [if_pos hex, if_pos he]
  · have hiff : (∃ e' ∈ done ++ [e], tableName e'.2 = table) ↔
        ∃ e' ∈ done, tableName e'.2 = table := by
      simp [List.mem_append, or_and_right, exists_or, he]
    rw [if_neg he]
    simp only [hiff]

omit h in
/-- At any moment a column has the type of the base or of the target. -/
theorem hasType_alteredTable {done : List (Str × Table)} {table : TableName} {d : Layout Str Str}
    (hd : alteredTable cb ct done table = some d) :
    cb.table table = some d ∨ ct.table table = some d := by
  rw [alteredTable, grownTable] at hd
  split_ifs at hd
  · exact .inr hd
  · exact .inr hd
  · exact .inl hd

/-- The entries before one are of other tables. -/
theorem alteredTable_before {before after : List (Str × Table)} {key : Str} {tt : Table}
    (hitems : t.tables.items = before ++ (key, tt) :: after) :
    alteredTable cb ct before (tableName tt) = grownTable cb ct (tableName tt) := by
  refine if_neg ?_
  rintro ⟨e, he, hname⟩
  have hkey (e : Str × Table) (hmem : e ∈ t.tables.items) : (tableName e.2).key = e.1 :=
    (h.target.get?_tables e.1 e.2 (Dict.mem_items_iff.mp hmem)).1
  have hsame := hkey e (hitems ▸ List.mem_append_left _ he)
  rw [hname, hkey (key, tt) (hitems ▸ List.mem_append_right _ List.mem_cons_self)] at hsame
  have hnodup := t.tables.nodup
  rw [hitems, List.map_append, List.map_cons, List.nodup_append] at hnodup
  exact hnodup.2.2 e.1 (List.mem_map_of_mem he) key List.mem_cons_self hsame.symm

/-- A foreign key that stays needs columns of the target only. -/
theorem mem_keys_of_uses (tables : TableName → Option (Layout Str Str)) {tt : Table}
    (hdef : ct.table (tableName tt) = some (layoutOf unicode source target tt)) {c : Str}
    (hc : Catalog.Uses ⟨cb.namespaces ∪ ct.namespaces, tables, cb.foreignKeys ∩ ct.foreignKeys⟩
      (tableName tt) c) : c ∈ tt.columns.keys := by
  obtain ⟨k, ⟨-, hk⟩, huses⟩ := hc
  obtain ⟨d, hd, hc⟩ : ∃ d, ct.table (tableName tt) = some d ∧ d.column c ≠ none := by
    rcases huses with ⟨hchild, hc⟩ | ⟨hparent, hc⟩
    · obtain ⟨d, hd, hcolumns⟩ := (h.target_wellFormed.fits k hk).child
      exact ⟨d, hchild ▸ hd, hcolumns c hc⟩
    · obtain ⟨d, hd, hcolumns⟩ := (h.target_wellFormed.fits k hk).parent
      exact ⟨d, hparent ▸ hd, hcolumns c hc⟩
  rw [hdef, Option.some.injEq] at hd
  obtain ⟨def', hcol⟩ := Option.ne_none_iff_exists'.mp hc
  rw [← hd] at hcol
  obtain ⟨col, hcol, -⟩ := Option.map_eq_some_iff.mp hcol
  exact Dict.mem_keys_iff.mpr ⟨col, hcol⟩

/-- While a table changes, with each column of the type of the base or of the target, the foreign
    keys that stay compare columns of types that can be compared. -/
theorem compares_alteredTable {done : List (Str × Table)} {table : TableName}
    {u : Layout Str Str}
    (hu : u.TypesIn fun c type => cb.HasType table c type ∨ ct.HasType table c type)
    {k : ForeignKey TableName Str} (hk : k ∈ cb.foreignKeys ∩ ct.foreignKeys) :
    Catalog.Compares ⟨cb.namespaces ∪ ct.namespaces,
      Function.update (alteredTable cb ct done) table (some u),
      cb.foreignKeys ∩ ct.foreignKeys⟩ types k := by
  refine (h.migratable.compares_stays k hk).mono ?_
  rintro other c type ⟨d, col, hd, hcol, rfl⟩
  dsimp only at hd
  by_cases hsame : other = table
  · subst hsame
    rw [Function.update_self, Option.some.injEq] at hd
    subst hd
    exact hu c col hcol
  · rw [Function.update_of_ne hsame] at hd
    exact (hasType_alteredTable hd).imp (fun hd => ⟨d, col, hd, hcol, rfl⟩)
      fun hd => ⟨d, col, hd, hcol, rfl⟩

/-- One round of the loop that alters tables. -/
theorem run_alterTable {before after : List (Str × Table)} {key : Str} {tt : Table}
    (hitems : t.tables.items = before ++ (key, tt) :: after) :
    run (Catalog.step types) ⟨cb.namespaces ∪ ct.namespaces, alteredTable cb ct before,
        cb.foreignKeys ∩ ct.foreignKeys⟩
      (((b.tables.get? key).elim [] fun bt => alterTableSql unicode source target bt tt).flatMap
        (Stmt.meaning madeUpName)) =
      some ⟨cb.namespaces ∪ ct.namespaces, alteredTable cb ct (before ++ [(key, tt)]),
        cb.foreignKeys ∩ ct.foreignKeys⟩ := by
  have hget : t.tables.get? key = some tt := by
    rw [← Dict.mem_items_iff, hitems]
    exact List.mem_append_right _ List.mem_cons_self
  obtain ⟨hkey, hdef⟩ := h.target.get?_tables key tt hget
  have hbefore := h.alteredTable_before hitems
  have hafter : alteredTable cb ct (before ++ [(key, tt)]) =
      Function.update (alteredTable cb ct before) (tableName tt) (ct.table (tableName tt)) := by
    funext table
    rw [alteredTable_concat]
    by_cases htable : tableName tt = table
    · subst htable
      simp
    · rw [if_neg htable, Function.update_of_ne (Ne.symm htable)]
  cases hb : b.tables.get? key with
  | none =>
      have hkeys : key ∉ b.tables.keys := Dict.get?_eq_none_iff.mp hb
      rw [h.key_mem_base hget, not_not] at hkeys
      have hsame : alteredTable cb ct (before ++ [(key, tt)]) = alteredTable cb ct before := by
        rw [hafter, Function.update_eq_self_iff, hbefore, grownTable, hkeys]
        simp
      rw [hsame]
      rfl
  | some bt =>
      obtain ⟨hkeyb, hdefb⟩ := h.base.get?_tables key bt hb
      have hname : tableName bt = tableName tt := h.migratable.keys _ _ (.inl (by simp [hdefb]))
        (.inr (by simp [hdef])) (hkeyb.trans hkey.symm)
      rw [hname] at hdefb
      have htable : alteredTable cb ct before (tableName tt) =
          some (layoutOf unicode source target bt) := by
        rw [hbefore, grownTable, hdef, hdefb]
        simp
      have hknown (c new) (hnew : (layoutOf unicode source target tt).column c = some new) :
          types.known new.type := h.migratable.known _ c _ ⟨_, _, hdef, hnew, rfl⟩
      have hcasts (c old new) (hold : (layoutOf unicode source target bt).column c = some old)
          (hnew : (layoutOf unicode source target tt).column c = some new) :
          old.type ≠ new.type → types.casts old.type new.type :=
        h.migratable.casts _ c _ _ ⟨_, _, hdefb, hold, rfl⟩ ⟨_, _, hdef, hnew, rfl⟩
      have hchanges := run_alterations (h.migratable.primaryKey _ _ _ hdefb hdef)
        (h.target_wellFormed.primaryKey _ _ hdef)
        (fun _ => h.mem_keys_of_uses (alteredTable cb ct before) hdef) hknown hcasts
      let allowed : Str → Str → Prop := fun c type =>
        cb.HasType (tableName tt) c type ∨ ct.HasType (tableName tt) c type
      have hfrom : (layoutOf unicode source target bt).TypesIn allowed :=
        fun c col hcol => .inl ⟨_, _, hdefb, hcol, rfl⟩
      have hto : ∀ a ∈ alterations unicode source target bt tt, a.TypesIn allowed :=
        fun a ha => typesIn_of_mem_alterations
          (fun c new hnew => .inr ⟨_, _, hdef, hnew, rfl⟩) ha
      have haltered := Lib.Relational.run_alter (N := Str) htable hchanges hfrom hto
        fun u hu k hk => h.compares_alteredTable hu hk
      show run (Catalog.step types) _ ((alterTableSql unicode source target bt tt).flatMap
        (Stmt.meaning madeUpName)) = _
      rw [alterTableSql_meaning]
      refine run_append.mpr ⟨_, haltered, ?_⟩
      rw [hafter, hdef]
      split_ifs
      · have hallowed : Catalog.Allowed types ⟨cb.namespaces ∪ ct.namespaces,
            Function.update (alteredTable cb ct before) (tableName tt)
              (some (layoutOf unicode source target tt)), cb.foreignKeys ∩ ct.foreignKeys⟩
            (.comment (tableName tt)) := by
          simp [Catalog.Allowed]
        rw [Lib.Relational.Catalog.run_cons_allowed hallowed]
        rfl
      · rfl

/-- **The loop that alters tables.** -/
theorem run_alterTables :
    run (Catalog.step types) ⟨cb.namespaces ∪ ct.namespaces, grownTable cb ct,
        cb.foreignKeys ∩ ct.foreignKeys⟩
      ((alterTableStmts unicode source target b t).flatMap (Stmt.meaning madeUpName)) =
      some ⟨cb.namespaces ∪ ct.namespaces, ct.table, cb.foreignKeys ∩ ct.foreignKeys⟩ := by
  have hstmts : alterTableStmts unicode source target b t = t.tables.items.flatMap fun e =>
      (b.tables.get? e.1).elim [] fun bt => alterTableSql unicode source target bt e.2 := by
    unfold alterTableStmts
    refine List.flatMap_congr fun e _ => ?_
    cases b.tables.get? e.1 <;> rfl
  rw [hstmts, List.flatMap_assoc]
  let P : List (Str × Table) → DbCatalog → Prop := fun done s =>
    s = ⟨cb.namespaces ∪ ct.namespaces, alteredTable cb ct done, cb.foreignKeys ∩ ct.foreignKeys⟩
  have hinitial : P [] ⟨cb.namespaces ∪ ct.namespaces, grownTable cb ct,
      cb.foreignKeys ∩ ct.foreignKeys⟩ := by
    have hnone : alteredTable cb ct [] = grownTable cb ct := by
      funext table
      simp [alteredTable]
    simp only [P, hnone]
  obtain ⟨s, hs, rfl⟩ := run_flatMap (P := P)
    (fun before e after s hitems hp => ⟨_, hp.symm ▸ h.run_alterTable madeUpName hitems, rfl⟩)
    hinitial
  rw [hs]
  congr 2
  funext table
  rw [alteredTable]
  split_ifs with hdone
  · rfl
  · cases hd : ct.table table with
    | none => simp [grownTable, hd]
    | some d =>
        obtain ⟨tt, hget, rfl⟩ := h.target.exists_table table d hd
        exact absurd ⟨_, Dict.mem_items_iff.mpr hget, rfl⟩ hdone

/-! ### New foreign keys -/

theorem addFks_meaning : ∃ added : List (ForeignKey TableName Str), added.Nodup ∧
    (∀ k, k ∈ added ↔ k ∈ ct.foreignKeys ∧ k ∉ cb.foreignKeys) ∧
    (addFkStmts b t).flatMap (Stmt.meaning madeUpName) = added.map .addForeignKey := by
  obtain ⟨ks, hnodup, hmem, hitems⟩ := h.target.exists_fkList
    fun k hk k' hk' => h.migratable.signatures k k' (.inr hk) (.inr hk')
  refine ⟨ks.filter fun k => (indexFk k).signature ∉ b.fks.keys, hnodup.filter _,
    fun k => ?_, ?_⟩
  · rw [List.mem_filter, hmem, decide_eq_true_eq]
    exact and_congr_right fun hk => not_congr (h.signature_mem_base hk)
  · rw [addFkStmts, hitems, List.filter_map, List.filterMap_map]
    refine flatMap_filterMap_eq_map fun k hk => ?_
    have hkt : k ∈ ct.foreignKeys := (hmem k).mp (List.mem_of_mem_filter hk)
    refine ⟨.addForeignKey k.child (some k.name) k.childColumns k.parent k.parentColumns, ?_, rfl⟩
    rw [Function.comp_apply, addFkSql, h.target.fkEndpoints_indexFk h.target_wellFormed hkt]
    rfl

theorem run_addFks :
    run (Catalog.step types)
      ⟨cb.namespaces ∪ ct.namespaces, ct.table, cb.foreignKeys ∩ ct.foreignKeys⟩
      ((addFkStmts b t).flatMap (Stmt.meaning madeUpName)) =
      some ⟨cb.namespaces ∪ ct.namespaces, ct.table, ct.foreignKeys⟩ := by
  obtain ⟨fks, hnodup, hfks, hstmts⟩ := h.addFks_meaning madeUpName
  rw [hstmts, Lib.Relational.run_addForeignKey hnodup]
  · congr 2
    ext k
    by_cases hk : k ∈ cb.foreignKeys
    · simp [hfks, hk]
    · simp [hfks, hk]
  · exact fun k hk => (h.target_wellFormed.fits k ((hfks k).mp hk).1).congr rfl
  · exact fun k hk =>
      (h.migratable.refersToKey k ((hfks k).mp hk).1 ((hfks k).mp hk).2).congr rfl
  · exact fun k hk => (h.migratable.compares k ((hfks k).mp hk).1 ((hfks k).mp hk).2).congr rfl
  · intro k hk k' hk' hchild hname
    have hmem : k' ∈ ct.foreignKeys := by
      rcases hk' with hk' | hk'
      · exact ((hfks k').mp hk').1
      · exact hk'.2
    exact h.target_wellFormed.named k' hmem k ((hfks k).mp hk).1 hchild hname
  · exact fun k hk hboth => ((hfks k).mp hk).2 hboth.1

/-- **The migration leads from the base to the target.** No statement is refused, and at the end
    the tables and the foreign keys are those of the target; schemas are never dropped. -/
theorem run_migration :
    run (Catalog.step types) cb
        ((migrationStmts unicode source target b t).flatMap (Stmt.meaning madeUpName)) =
      some ⟨cb.namespaces ∪ ct.namespaces, ct.table, ct.foreignKeys⟩ := by
  have hstmts : migrationStmts unicode source target b t =
      (dropFkStmts b t ++ dropTableStmts b t) ++
        ((createMissingSchemaSql b.tables t.tables ++
          createTableStmts unicode source target b t) ++
          (alterTableStmts unicode source target b t ++ addFkStmts b t)) := by
    simp only [migrationStmts, List.append_assoc]
  rw [hstmts, List.flatMap_append]
  refine run_append.mpr ⟨_, h.run_drops madeUpName, ?_⟩
  rw [List.flatMap_append]
  refine run_append.mpr ⟨_, h.run_creates madeUpName, ?_⟩
  rw [List.flatMap_append]
  exact run_append.mpr ⟨_, h.run_alterTables madeUpName, h.run_addFks madeUpName⟩

end Setting

end

end PgErdCloud.Ddl
