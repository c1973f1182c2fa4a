/-
  What a migration does to a database. The database is a catalog; the base snapshot describes
  the one that the migration starts from, and where nothing of the two snapshots is mistaken for
  something else, every statement is accepted and the catalog of the target is reached.
-/
import PgErdCloud.Ddl.MigrationFacts
import PgErdCloud.Diff.Logical
import PgErdCloud.Lib.Relational

namespace PgErdCloud.Ddl

open Lib Lib.PyStr Diff
open Lib.Relational (Catalog ColumnDef Layout ForeignKey Alter TableSpec Types newTable entryAt
  pick)

/-- The catalog of a database: schemas and columns under texts, tables under two. -/
abbrev DbCatalog := Catalog Str TableName Str Str

/-- The statements that the catalog understands. -/
abbrev DbStmt := Lib.Relational.Stmt Str TableName Str Str

/-! ## Statements on the catalog -/

/-- What a clause declares. -/
def ColumnClause.columnDef (clause : ColumnClause) : ColumnDef Str :=
  ⟨clause.type, clause.isNotNull⟩

section
variable (madeUpName : TableName → List Str → Str)

/-- What a statement asks of the database, which makes up a name for a constraint without one.
    Notes are comments of the script and ask nothing. -/
def Stmt.meaning : Stmt → List DbStmt
  | .noteUnnamedFk _ _ | .notePrimaryKey _ _ => []
  | .dropConstraint child name => [.dropConstraint child name]
  | .dropTable table => [.dropTable table]
  | .createSchema schema => [.createNamespace schema]
  | .createTable table columns pk =>
      [.createTable table.schema table
        (columns.map fun clause => (clause.name, clause.columnDef)) pk]
  | .addColumn table clause => [.alter table (.addColumn clause.name clause.columnDef)]
  | .dropColumn table column => [.alter table (.dropColumn column)]
  | .alterType table column type => [.alter table (.setType column type)]
  | .setNotNull table column => [.alter table (.setNotNull column)]
  | .dropNotNull table column => [.alter table (.dropNotNull column)]
  | .commentOn table _ => [.comment table]
  | .addForeignKey child name childColumns parent parentColumns =>
      [.addForeignKey ⟨child, name.getD (madeUpName child childColumns), childColumns, parent,
        parentColumns⟩]

end

/-! ## The catalog of an index -/

section
variable (unicode : Unicode) (source target : Dialect)

/-- What is declared for a column of a snapshot. -/
def columnDef (col : Col) : ColumnDef Str := ⟨colType unicode source target col, col.isNotNull⟩

/-- What is declared for a table of a snapshot. -/
def layoutOf (tbl : Table) : Layout Str Str where
  column name := (tbl.columns.get? name).map (columnDef unicode source target)
  primaryKey := tbl.pk

theorem column_layoutOf (tbl : Table) (c : Str) :
    (layoutOf unicode source target tbl).column c =
      (tbl.columns.get? c).map (columnDef unicode source target) := rfl

/-- The entry of a foreign key. -/
def indexFk (fk : ForeignKey TableName Str) : Fk where
  name := some fk.name
  childTable := fk.child.key
  childColumns := fk.childColumns
  parentTable := fk.parent.key
  parentColumns := fk.parentColumns

/-- The index has the tables and the foreign keys of the catalog, each at its key. -/
structure Represents (i : Index) (cat : DbCatalog) : Prop where
  get?_tables : ∀ key tbl, i.tables.get? key = some tbl → (tableName tbl).key = key ∧
    cat.table (tableName tbl) = some (layoutOf unicode source target tbl)
  exists_table : ∀ table d, cat.table table = some d →
    ∃ tbl, i.tables.get? table.key = some tbl ∧ tableName tbl = table
  get?_fks : ∀ signature fk, i.fks.get? signature = some fk →
    ∃ k ∈ cat.foreignKeys, fk = indexFk k ∧ fk.signature = signature
  mem_fks : ∀ k ∈ cat.foreignKeys, i.fks.get? (indexFk k).signature = some (indexFk k)
  namespaces : ∀ schema, schema ∈ cat.namespaces ↔
    ∃ table, cat.table table ≠ none ∧ table.schema = schema
  schema_ne_nil : ∀ table, cat.table table ≠ none → table.schema ≠ []

end

/-- The base can be migrated to the target in place. Nothing of the two catalogs is mistaken for
    something else by its key or its signature, a table that stays keeps its primary key, and a
    foreign key that both have is the same in both, its name included. What is new in the target
    asks nothing that the generator has no statement for: the database knows its types and casts
    what is retyped, new foreign keys refer to primary keys, and those that stay pair columns
    that can be compared at any moment of the migration. -/
structure Migratable (types : Types Str) (base target : DbCatalog) : Prop where
  keys : ∀ table table', (base.table table ≠ none ∨ target.table table ≠ none) →
    (base.table table' ≠ none ∨ target.table table' ≠ none) → table.key = table'.key →
      table = table'
  signatures : ∀ k k', k ∈ base.foreignKeys ∪ target.foreignKeys →
    k' ∈ base.foreignKeys ∪ target.foreignKeys →
      (indexFk k).signature = (indexFk k').signature → k = k'
  primaryKey : ∀ table d d', base.table table = some d → target.table table = some d' →
    d.primaryKey = d'.primaryKey
  known : ∀ table c type, target.HasType table c type → types.known type
  casts : ∀ table c old new, base.HasType table c old → target.HasType table c new → old ≠ new →
    types.casts old new
  refersToKey : ∀ k ∈ target.foreignKeys, k ∉ base.foreignKeys → target.RefersToKey k
  compares : ∀ k ∈ target.foreignKeys, k ∉ base.foreignKeys → target.Compares types k
  compares_stays : ∀ k ∈ base.foreignKeys ∩ target.foreignKeys,
    k.Compares types fun table c type => base.HasType table c type ∨ target.HasType table c type

/-! ## What is at a key -/

theorem flatMap_filterMap_eq_map {α β γ : Type} {f : α → Option β} {g : β → List γ} {st : α → γ}
    {xs : List α} (h : ∀ x ∈ xs, ∃ y, f x = some y ∧ g y = [st x]) :
    (xs.filterMap f).flatMap g = xs.map st := by
  induction xs with
  | nil => rfl
  | cons x xs ih =>
      rw [List.forall_mem_cons] at h
      obtain ⟨⟨y, hy, hg⟩, hrest⟩ := h
      rw [List.filterMap_cons_some hy, List.flatMap_cons, hg, ih hrest]
      rfl

section
variable {unicode : Unicode} {source target : Dialect}

namespace Represents

variable {i : Index} {cat : DbCatalog}

/-- Whether an entry's key is one of another index, where keys tell tables apart. -/
theorem mem_tables_keys_iff {j : Index} {cat' : DbCatalog}
    (hi : Represents unicode source target i cat) (hj : Represents unicode source target j cat')
    (hkeys : ∀ table table', cat.table table ≠ none → cat'.table table' ≠ none →
      table.key = table'.key → table = table')
    {key : Str} {tbl : Table} (hget : i.tables.get? key = some tbl) :
    key ∈ j.tables.keys ↔ cat'.table (tableName tbl) ≠ none := by
  obtain ⟨hkey, hdef⟩ := hi.get?_tables key tbl hget
  have hsome : cat.table (tableName tbl) ≠ none := by simp [hdef]
  constructor
  · intro hmem
    obtain ⟨tbl', hget'⟩ := Dict.mem_keys_iff.mp hmem
    obtain ⟨hkey', hdef'⟩ := hj.get?_tables key tbl' hget'
    have hsome' : cat'.table (tableName tbl') ≠ none := by simp [hdef']
    rwa [hkeys _ _ hsome hsome' (hkey.trans hkey'.symm)]
  · intro hne
    obtain ⟨d, hd⟩ := Option.ne_none_iff_exists'.mp hne
    obtain ⟨tbl', hget', -⟩ := hj.exists_table _ d hd
    exact Dict.mem_keys_iff.mpr ⟨tbl', hkey ▸ hget'⟩

theorem mem_fks_keys_iff {j : Index} {cat' : DbCatalog}
    (hj : Represents unicode source target j cat')
    (hsignatures : ∀ k ∈ cat.foreignKeys, ∀ k' ∈ cat'.foreignKeys,
      (indexFk k).signature = (indexFk k').signature → k = k')
    {k : ForeignKey TableName Str} (hk : k ∈ cat.foreignKeys) :
    (indexFk k).signature ∈ j.fks.keys ↔ k ∈ cat'.foreignKeys := by
  constructor
  · intro hmem
    obtain ⟨fk, hget⟩ := Dict.mem_keys_iff.mp hmem
    obtain ⟨k', hk', rfl, hsignature⟩ := hj.get?_fks _ fk hget
    rwa [hsignatures k hk k' hk' hsignature.symm]
  · intro hmem
    exact Dict.mem_keys_iff.mpr ⟨_, hj.mem_fks k hmem⟩

theorem fkEndpoints_indexFk (h : Represents unicode source target i cat) (hwf : cat.WellFormed)
    {k : ForeignKey TableName Str} (hk : k ∈ cat.foreignKeys) :
    fkEndpoints (indexFk k) i.tables = some (k.child, k.parent) := by
  obtain ⟨⟨d, hd, -⟩, ⟨d', hd', -⟩, -, -⟩ := hwf.fits k hk
  obtain ⟨child, hchild, hname⟩ := h.exists_table _ d hd
  obtain ⟨parent, hparent, hname'⟩ := h.exists_table _ d' hd'
  exact fkEndpoints_eq_some.mpr ⟨child, parent, hchild, hparent, hname, hname'⟩

/-- The foreign keys in the order of the index. -/
theorem exists_fkList (h : Represents unicode source target i cat)
    (hsignatures : ∀ k ∈ cat.foreignKeys, ∀ k' ∈ cat.foreignKeys,
      (indexFk k).signature = (indexFk k').signature → k = k') :
    ∃ ks : List (ForeignKey TableName Str), ks.Nodup ∧ (∀ k, k ∈ ks ↔ k ∈ cat.foreignKeys) ∧
      i.fks.items = ks.map fun k => ((indexFk k).signature, indexFk k) := by
  have hrange : i.fks.items ∈ Set.range (List.map fun k : cat.foreignKeys =>
      ((indexFk k.1).signature, indexFk k.1)) := by
    rw [Set.range_list_map]
    rintro ⟨signature, fk⟩ he
    obtain ⟨k, hk, rfl, rfl⟩ := h.get?_fks _ _ (Dict.mem_items_iff.mp he)
    exact ⟨⟨k, hk⟩, rfl⟩
  obtain ⟨ks, hks⟩ := hrange
  have hitems : i.fks.items = (ks.map Subtype.val).map fun k =>
      ((indexFk k).signature, indexFk k) := by
    rw [List.map_map, ← hks]
    rfl
  have hnodup : (((ks.map Subtype.val).map fun k =>
      ((indexFk k).signature, indexFk k)).map Prod.fst).Nodup := hitems ▸ i.fks.nodup
  rw [List.map_map] at hnodup
  refine ⟨ks.map Subtype.val, hnodup.of_map, fun k => ?_, hitems⟩
  constructor
  · intro hk
    obtain ⟨⟨k', hk'⟩, -, rfl⟩ := List.mem_map.mp hk
    exact hk'
  · intro hk
    have hmem := Dict.mem_items_iff.mpr (h.mem_fks k hk)
    rw [hitems] at hmem
    obtain ⟨k', hk', he⟩ := List.mem_map.mp hmem
    obtain ⟨⟨k'', hk''⟩, -, rfl⟩ := List.mem_map.mp hk'
    rwa [hsignatures k hk k'' hk'' (Prod.mk.inj he).1.symm]

end Represents

end

/-! ## Columns of an altered table -/

section
variable (unicode : Unicode) (source target : Dialect) (bt tt : Table)

/-- The columns that come. -/
def addedColumns : List (Str × ColumnDef Str) :=
  (tt.columns.items.filter fun e => e.1 ∉ bt.columns.keys).map fun e =>
    (e.1, columnDef unicode source target e.2)

/-- The columns that go. -/
def droppedColumns : List Str := bt.columns.keys.filter fun name => name ∉ tt.columns.keys

/-- The columns of both tables, as they are and as they shall be. -/
def commonColumns : List (Str × ColumnDef Str × ColumnDef Str) :=
  pick (fun name col => (bt.columns.get? name).map fun old =>
    (columnDef unicode source target old, columnDef unicode source target col)) tt.columns.items

/-- The changes of a table that both snapshots have. -/
def alterations : List (Alter Str Str) :=
  (addedColumns unicode source target bt tt).map (fun e => .addColumn e.1 e.2) ++
    (droppedColumns bt tt).map .dropColumn ++
    (commonColumns unicode source target bt tt).flatMap fun e => Alter.change e.1 e.2.1 e.2.2

section
variable (madeUpName : TableName → List Str → Str)

theorem alterColumnSql_meaning (table : TableName) (name : Str) (old col : Col) :
    (alterColumnSql unicode source target table name old col).flatMap
        (Stmt.meaning madeUpName) =
      (Alter.change name (columnDef unicode source target old)
        (columnDef unicode source target col)).map (.alter table) := by
  unfold alterColumnSql Alter.change columnDef
  rw [List.flatMap_append, List.map_append]
  congr 1
  · split_ifs with h
    · rfl
    · rfl
  · dsimp only
    cases old.isNotNull <;> cases col.isNotNull <;> rfl

/-- The statements for a table that both snapshots have are its changes, and a comment. -/
theorem alterTableSql_meaning :
    (alterTableSql unicode source target bt tt).flatMap (Stmt.meaning madeUpName) =
      (alterations unicode source target bt tt).map (.alter (tableName tt)) ++
        if bt.comment ≠ tt.comment ∧ target = .postgresql then [.comment (tableName tt)]
        else [] := by
  have hadded : ((tt.columns.items.filter fun e => e.1 ∉ bt.columns.keys).map fun e =>
      Stmt.addColumn (tableName tt) (columnClause unicode source target e.1 e.2)).flatMap
        (Stmt.meaning madeUpName) =
      ((addedColumns unicode source target bt tt).map fun e => Alter.addColumn e.1 e.2).map
        (.alter (tableName tt)) := by
    rw [addedColumns, List.flatMap_map, List.map_map, List.map_map, List.map_eq_flatMap]
    rfl
  have hdropped : ((bt.columns.keys.filter fun name => name ∉ tt.columns.keys).map
      (Stmt.dropColumn (tableName tt))).flatMap (Stmt.meaning madeUpName) =
      ((droppedColumns bt tt).map Alter.dropColumn).map (.alter (tableName tt)) := by
    rw [droppedColumns, List.flatMap_map, List.map_map, List.map_eq_flatMap]
    rfl
  have hcommon : ∀ f : Str × Col → List Stmt,
      (∀ e, f e = (bt.columns.get? e.1).elim [] fun old =>
        alterColumnSql unicode source target (tableName tt) e.1 old e.2) →
      (tt.columns.items.flatMap f).flatMap (Stmt.meaning madeUpName) =
        ((commonColumns unicode source target bt tt).flatMap fun e =>
          Alter.change e.1 e.2.1 e.2.2).map (.alter (tableName tt)) := by
    intro f hf
    rw [commonColumns]
    induction tt.columns.items with
    | nil => rfl
    | cons e items ih =>
        rw [List.flatMap_cons, List.flatMap_append, ih, hf]
        cases hold : bt.columns.get? e.1 with
        | none => simp [pick, hold]
        | some old => simp [pick, hold, alterColumnSql_meaning]
  have hpk : (if bt.pk ≠ tt.pk then [Stmt.notePrimaryKey (tableName tt) tt.pk] else []).flatMap
      (Stmt.meaning madeUpName) = [] := by
    split_ifs with h
    · rfl
    · rfl
  have hcomment : (if bt.comment ≠ tt.comment ∧ target = .postgresql then
      [commentSql (tableName tt) tt.comment] else []).flatMap (Stmt.meaning madeUpName) =
      if bt.comment ≠ tt.comment ∧ target = .postgresql then [.comment (tableName tt)]
      else [] := by
    split_ifs with h
    · rfl
    · rfl
  unfold alterTableSql alterations
  dsimp only
  rw [List.flatMap_append, List.flatMap_append, List.flatMap_append, List.flatMap_append, hadded,
    hdropped, hcommon _ fun e => by cases bt.columns.get? e.1 <;> rfl, hpk, hcomment,
    List.append_nil, List.map_append, List.map_append]

end

section
variable {unicode : Unicode} {source target : Dialect} {bt tt : Table}

theorem entryAt_addedColumns (c : Str) :
    entryAt (addedColumns unicode source target bt tt) c =
      if c ∈ bt.columns.keys then none
      else (tt.columns.get? c).map (columnDef unicode source target) := by
  rw [addedColumns, Lib.Relational.entryAt_map,
    Lib.Relational.entryAt_filter _ fun name => name ∉ bt.columns.keys]
  by_cases h : c ∈ bt.columns.keys
  · simp [h]
  · simp only [h, not_false_eq_true, if_true, if_false]
    rfl

theorem entryAt_commonColumns (c : Str) :
    entryAt (commonColumns unicode source target bt tt) c =
      (tt.columns.get? c).bind fun new => (bt.columns.get? c).map fun old =>
        (columnDef unicode source target old, columnDef unicode source target new) :=
  Lib.Relational.entryAt_pick tt.columns.nodup _ c

theorem mem_commonColumns {e : Str × ColumnDef Str × ColumnDef Str}
    (h : e ∈ commonColumns unicode source target bt tt) : ∃ old new,
      bt.columns.get? e.1 = some old ∧ tt.columns.get? e.1 = some new ∧
        e.2 = (columnDef unicode source target old, columnDef unicode source target new) := by
  obtain ⟨⟨name, new⟩, hm, he⟩ := List.mem_filterMap.mp h
  obtain ⟨v, hv, rfl⟩ := Option.map_eq_some_iff.mp he
  obtain ⟨old, hold, rfl⟩ := Option.map_eq_some_iff.mp hv
  exact ⟨old, new, hold, Dict.mem_items_iff.mp hm, rfl⟩

theorem mem_droppedColumns {c : Str} :
    c ∈ droppedColumns bt tt ↔ c ∈ bt.columns.keys ∧ c ∉ tt.columns.keys := by
  rw [droppedColumns, List.mem_filter, decide_eq_true_eq]

/-- The columns of the target alone are added. -/
theorem run_addedColumns {types : Types Str} {used : Str → Prop}
    (hknown : ∀ c new, (layoutOf unicode source target tt).column c = some new →
      types.known new.type) :
    run (Alter.step types used) (layoutOf unicode source target bt)
      ((addedColumns unicode source target bt tt).map fun e => .addColumn e.1 e.2) =
      some { layoutOf unicode source target bt with
        column := fun c => (entryAt (addedColumns unicode source target bt tt) c).or
          ((layoutOf unicode source target bt).column c) } := by
  apply Lib.Relational.run_addColumn
  · rw [addedColumns, List.map_map]
    exact (List.filter_sublist.map _).nodup tt.columns.nodup
  · intro e he
    obtain ⟨e', he', rfl⟩ := List.mem_map.mp he
    have hnew : e'.1 ∉ bt.columns.keys := by simpa using (List.mem_filter.mp he').2
    rw [column_layoutOf, Dict.get?_eq_none_iff.mpr hnew, Option.map_none]
  · intro e he
    obtain ⟨e', he', rfl⟩ := List.mem_map.mp he
    have hnew := Dict.mem_items_iff.mp (List.mem_of_mem_filter he')
    exact hknown e'.1 _ (by rw [column_layoutOf, hnew]; rfl)

/-- **The changes lead from the table of the base to that of the target**, where the database
    knows the types of the target and can cast what is retyped. -/
theorem run_alterations {types : Types Str} {used : Str → Prop} (hpk : bt.pk = tt.pk)
    (hprimary : ∀ c ∈ tt.pk, ∃ type,
      (layoutOf unicode source target tt).column c = some ⟨type, true⟩)
    (hused : ∀ c, used c → c ∈ tt.columns.keys)
    (hknown : ∀ c new, (layoutOf unicode source target tt).column c = some new →
      types.known new.type)
    (hcasts : ∀ c old new, (layoutOf unicode source target bt).column c = some old →
      (layoutOf unicode source target tt).column c = some new → old.type ≠ new.type →
        types.casts old.type new.type) :
    run (Alter.step types used) (layoutOf unicode source target bt)
        (alterations unicode source target bt tt) = some (layoutOf unicode source target tt) := by
  have hpkColumn : ∀ c ∈ tt.pk, c ∈ tt.columns.keys := by
    intro c hc
    obtain ⟨type, htype⟩ := hprimary c hc
    obtain ⟨col, hcol, -⟩ := Option.map_eq_some_iff.mp htype
    exact Dict.mem_keys_iff.mpr ⟨col, hcol⟩
  rw [alterations]
  refine run_append.mpr ⟨_, run_append.mpr ⟨_, run_addedColumns hknown,
    Lib.Relational.run_dropColumn ?_ ?_⟩, ?_⟩
  · exact bt.columns.nodup.filter _
  · intro c hc
    obtain ⟨hold, hnot⟩ := mem_droppedColumns.mp hc
    obtain ⟨col, hcol⟩ := Dict.mem_keys_iff.mp hold
    refine ⟨?_, ?_, fun h => hnot (hused c h)⟩
    · show (entryAt (addedColumns unicode source target bt tt) c).or _ ≠ none
      rw [entryAt_addedColumns, if_pos hold, Option.none_or, column_layoutOf, hcol]
      simp
    · intro hmem
      have hmem' : c ∈ bt.pk := hmem
      exact hnot (hpkColumn c (hpk ▸ hmem'))
  rw [Lib.Relational.run_changes]
  · congr 1
    ext1
    · funext c
      dsimp only
      rw [entryAt_commonColumns, entryAt_addedColumns, column_layoutOf,
        column_layoutOf]
      cases hb : bt.columns.get? c with
      | none =>
          have hnew : c ∉ bt.columns.keys := Dict.get?_eq_none_iff.mp hb
          have hnot : c ∉ droppedColumns bt tt := fun h => hnew (mem_droppedColumns.mp h).1
          cases tt.columns.get? c <;> simp [hnew, hnot]
      | some old =>
          cases ht : tt.columns.get? c with
          | none =>
              have hgoes : c ∈ droppedColumns bt tt := mem_droppedColumns.mpr
                ⟨Dict.mem_keys_iff.mpr ⟨old, hb⟩, Dict.get?_eq_none_iff.mp ht⟩
              simp [hgoes]
          | some new => simp
    · exact hpk
  · exact (Lib.Relational.pick_sublist _ _).nodup tt.columns.nodup
  · intro e he
    obtain ⟨old, new, hold, hnew, he2⟩ := mem_commonColumns he
    have hkey : e.1 ∈ bt.columns.keys := Dict.mem_keys_iff.mpr ⟨old, hold⟩
    have hkey' : e.1 ∈ tt.columns.keys := Dict.mem_keys_iff.mpr ⟨new, hnew⟩
    have hdropped : e.1 ∉ droppedColumns bt tt := fun hm => (mem_droppedColumns.mp hm).2 hkey'
    dsimp only
    rw [if_neg hdropped, entryAt_addedColumns, if_pos hkey, Option.none_or, column_layoutOf, hold,
      he2]
    rfl
  · intro e he hnull hmem
    obtain ⟨old, new, hold, hnew, he2⟩ := mem_commonColumns he
    have hmem' : e.1 ∈ bt.pk := hmem
    obtain ⟨type, htype⟩ := hprimary e.1 (hpk ▸ hmem')
    rw [he2] at hnull
    have hcol : (layoutOf unicode source target tt).column e.1 =
        some (columnDef unicode source target new) := by simp [layoutOf, hnew]
    rw [hcol, Option.some.injEq] at htype
    rw [htype] at hnull
    exact absurd hnull (by simp)
  · intro e he hne
    obtain ⟨old, new, hold, hnew, he2⟩ := mem_commonColumns he
    have hcol : (layoutOf unicode source target tt).column e.1 =
        some (columnDef unicode source target new) := by rw [column_layoutOf, hnew]; rfl
    have hcol' : (layoutOf unicode source target bt).column e.1 =
        some (columnDef unicode source target old) := by rw [column_layoutOf, hold]; rfl
    rw [he2] at hne ⊢
    exact ⟨hknown _ _ hcol, hcasts _ _ _ hcol' hcol hne⟩

/-- What the changes give a type to gets the type of the target. -/
theorem typesIn_of_mem_alterations {allowed : Str → Str → Prop}
    (hallowed : ∀ c new, (layoutOf unicode source target tt).column c = some new →
      allowed c new.type)
    {a : Alter Str Str} (ha : a ∈ alterations unicode source target bt tt) :
    a.TypesIn allowed := by
  rw [alterations, List.mem_append, List.mem_append] at ha
  rcases ha with (ha | ha) | ha
  · obtain ⟨e, he, rfl⟩ := List.mem_map.mp ha
    obtain ⟨e', he', rfl⟩ := List.mem_map.mp he
    have hnew := Dict.mem_items_iff.mp (List.mem_of_mem_filter he')
    exact hallowed e'.1 _ (by rw [column_layoutOf, hnew]; rfl)
  · obtain ⟨c, -, rfl⟩ := List.mem_map.mp ha
    exact trivial
  · obtain ⟨e, he, ha⟩ := List.mem_flatMap.mp ha
    obtain ⟨old, new, -, hnew, he2⟩ := mem_commonColumns he
    have hcol : (layoutOf unicode source target tt).column e.1 =
        some (columnDef unicode source target new) := by rw [column_layoutOf, hnew]; rfl
    rw [Alter.change, he2, List.mem_append] at ha
    rcases ha with ha | ha
    · split_ifs at ha
      · rw [List.mem_singleton.mp ha]
        exact hallowed e.1 _ hcol
      · exact absurd ha List.not_mem_nil
    · split_ifs at ha
      · rw [List.mem_singleton.mp ha]
        exact trivial
      · rw [List.mem_singleton.mp ha]
        exact trivial
      · exact absurd ha List.not_mem_nil

end

end

end PgErdCloud.Ddl
