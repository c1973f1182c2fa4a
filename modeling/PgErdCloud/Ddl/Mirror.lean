/-
  The rollback of a migration (`direction=down` of `export_migration_sql` in
  app/api/snapshots.py) is the migration with its ends exchanged. Whether the two mirror each
  other is decided table by table: where both snapshots have a table under one key, it must
  have one name in both, and its columns must be retyped under the source dialect of either
  end or of neither. The generator takes the source dialect from its target only.

  `mirror_iff` is about all pairs of snapshots: each direction undoes the other exactly when both
  find the same columns of a table retyped, which asks something of the two source dialects.
-/
import PgErdCloud.Ddl.MigrationFacts
import PgErdCloud.Diff.IndexFacts

namespace PgErdCloud.Ddl

open Lib Lib.PyStr Diff

/-! ## The two directions -/

/-- Which way a migration goes. -/
inductive Direction
  | up
  | down
  deriving DecidableEq

/-- The statements that `export_migration_sql` renders. -/
def exportMigrationStmts {Oid Oid' : Type} [DecidableEq Oid] [DecidableEq Oid']
    (unicode : Unicode) (base : Snapshot Oid) (target : Snapshot Oid') (dialect : Dialect) :
    Direction → List Stmt
  | .up => snapshotDiffStmts unicode base target dialect
  | .down => snapshotDiffStmts unicode target base dialect

/-! ## Mirrors -/

/-- The statements create the table. -/
def Creates (stmts : List Stmt) (table : TableName) : Prop :=
  ∃ columns pk, .createTable table columns pk ∈ stmts

/-- The statements drop the table. -/
def Drops (stmts : List Stmt) (table : TableName) : Prop := .dropTable table ∈ stmts

/-- The statements add the column. -/
def AddsColumn (stmts : List Stmt) (table : TableName) (column : Str) : Prop :=
  ∃ clause : ColumnClause, clause.name = column ∧ .addColumn table clause ∈ stmts

/-- The statements drop the column. -/
def DropsColumn (stmts : List Stmt) (table : TableName) (column : Str) : Prop :=
  .dropColumn table column ∈ stmts

/-- The statements give the column another type. -/
def Retypes (stmts : List Stmt) (table : TableName) (column : Str) : Prop :=
  ∃ type, .alterType table column type ∈ stmts

/-- The statements take `NULL` away from the column. -/
def SetsNotNull (stmts : List Stmt) (table : TableName) (column : Str) : Prop :=
  .setNotNull table column ∈ stmts

/-- The statements let the column take `NULL`. -/
def DropsNotNull (stmts : List Stmt) (table : TableName) (column : Str) : Prop :=
  .dropNotNull table column ∈ stmts

/-- What `stmts` adds `stmts'` takes away. -/
structure UndoneBy (stmts stmts' : List Stmt) : Prop where
  tables : ∀ table, Creates stmts table ↔ Drops stmts' table
  columns : ∀ table column, AddsColumn stmts table column ↔ DropsColumn stmts' table column
  retyped : ∀ table column, Retypes stmts table column ↔ Retypes stmts' table column
  notNull : ∀ table column, SetsNotNull stmts table column ↔ DropsNotNull stmts' table column

/-- Each of the two takes away what the other adds. -/
def Mirror (up down : List Stmt) : Prop := UndoneBy up down ∧ UndoneBy down up

/-! ## What the statements are -/

section
variable (unicode : Unicode) (source source' dialect : Dialect) {b t : Index}

/-- Some table that both indexes have is named `table` in the target, and `p` holds of it. -/
def AtCommon (b t : Index) (p : Table → Table → Prop) (table : TableName) : Prop :=
  ∃ key bt tt, b.tables.get? key = some bt ∧ t.tables.get? key = some tt ∧
    tableName tt = table ∧ p bt tt

theorem addsColumn_iff {table : TableName} {column : Str} :
    AddsColumn (migrationStmts unicode source dialect b t) table column ↔
      AtCommon b t (fun bt tt => Added bt tt column) table := by
  have hmem := fun clause => alterTables_mem unicode source dialect b t
    (show (Stmt.addColumn table clause).phase = _ from rfl)
  unfold AddsColumn
  simp only [hmem, addColumn_mem]
  constructor
  · rintro ⟨clause, rfl, key, bt, tt, hb, ht, hname, name, col, hc, hn, rfl⟩
    exact ⟨key, bt, tt, hb, ht, hname, Dict.mem_keys_iff.mpr ⟨col, hc⟩, hn⟩
  · rintro ⟨key, bt, tt, hb, ht, hname, hc, hn⟩
    obtain ⟨col, hc⟩ := Dict.mem_keys_iff.mp hc
    exact ⟨_, rfl, key, bt, tt, hb, ht, hname, column, col, hc, hn, rfl⟩

theorem dropsColumn_iff {table : TableName} {column : Str} :
    DropsColumn (migrationStmts unicode source dialect b t) table column ↔
      AtCommon b t (fun bt tt => Added tt bt column) table := by
  unfold DropsColumn
  rw [alterTables_mem unicode source dialect b t rfl]
  simp only [dropColumn_mem]
  rfl

theorem retypes_iff {table : TableName} {column : Str} :
    Retypes (migrationStmts unicode source dialect b t) table column ↔
      AtCommon b t (fun bt tt => Retyped unicode source dialect bt tt column) table := by
  have hmem := fun type => alterTables_mem unicode source dialect b t
    (show (Stmt.alterType table column type).phase = _ from rfl)
  unfold Retypes
  simp only [hmem, alterType_mem]
  constructor
  · rintro ⟨type, key, bt, tt, hb, ht, hname, old, col, ho, hc, hne, rfl⟩
    exact ⟨key, bt, tt, hb, ht, hname, old, col, ho, hc, hne⟩
  · rintro ⟨key, bt, tt, hb, ht, hname, old, col, ho, hc, hne⟩
    exact ⟨_, key, bt, tt, hb, ht, hname, old, col, ho, hc, hne, rfl⟩

theorem setsNotNull_iff {table : TableName} {column : Str} :
    SetsNotNull (migrationStmts unicode source dialect b t) table column ↔
      AtCommon b t (fun bt tt => Tightened bt tt column) table := by
  unfold SetsNotNull
  rw [alterTables_mem unicode source dialect b t rfl]
  simp only [setNotNull_mem]
  rfl

theorem dropsNotNull_iff {table : TableName} {column : Str} :
    DropsNotNull (migrationStmts unicode source dialect b t) table column ↔
      AtCommon b t (fun bt tt => Tightened tt bt column) table := by
  unfold DropsNotNull
  rw [alterTables_mem unicode source dialect b t rfl]
  simp only [dropNotNull_mem]
  constructor
  · rintro ⟨key, bt, tt, hb, ht, hname, old, col, ho, hc, hold, hnew⟩
    exact ⟨key, bt, tt, hb, ht, hname, col, old, hc, ho, hnew, hold⟩
  · rintro ⟨key, bt, tt, hb, ht, hname, col, old, hc, ho, hnew, hold⟩
    exact ⟨key, bt, tt, hb, ht, hname, old, col, ho, hc, hold, hnew⟩

/-- The tables that one direction creates are those that the other drops, whatever the
    dialects are. -/
theorem creates_iff_drops {table : TableName} :
    Creates (migrationStmts unicode source dialect b t) table ↔
      Drops (migrationStmts unicode source' dialect t b) table := by
  unfold Creates Drops
  simp only [createTable_mem, dropTable_mem, createTableSql, Stmt.createTable.injEq]
  constructor
  · rintro ⟨columns, pk, key, tt, ht, hb, hname, -, -⟩
    exact ⟨key, tt, ht, hb, hname⟩
  · rintro ⟨key, tt, ht, hb, hname⟩
    exact ⟨_, _, key, tt, ht, hb, hname, rfl, rfl⟩

/-! ## Table by table -/

/-- Tables with one name are stored under one key. -/
theorem key_eq_of_tableName_eq (hb : b.Keyed) (ht : t.Keyed) {key key' : Str} {bt tt : Table}
    (hbt : b.tables.get? key = some bt) (htt : t.tables.get? key' = some tt)
    (h : tableName bt = tableName tt) : key = key' := by
  have hkey : (tableName bt).key = (tableName tt).key := congrArg TableName.key h
  rw [← hb key bt hbt, ← ht key' tt htt]
  exact hkey

/-- `p` of the tables named by the target is `q` of the tables named by the base exactly when
    it is so for each key: a table whose name differs answers to another name on each side. -/
theorem forall_atCommon_iff (hb : b.Keyed) (ht : t.Keyed) {p q : Table → Table → Prop} :
    (∀ table, AtCommon b t p table ↔ AtCommon t b q table) ↔
      ∀ key bt tt, b.tables.get? key = some bt → t.tables.get? key = some tt →
        (tableName bt = tableName tt → (p bt tt ↔ q tt bt)) ∧
        (tableName bt ≠ tableName tt → ¬ p bt tt ∧ ¬ q tt bt) := by
  constructor
  · intro h key bt tt hbt htt
    -- what answers to the target's name on the other side is the base's table of the key
    have hp : p bt tt → tableName bt = tableName tt ∧ q tt bt := by
      intro hp
      obtain ⟨key', tt', bt', htt', hbt', hname, hq⟩ :=
        (h (tableName tt)).mp ⟨key, bt, tt, hbt, htt, rfl, hp⟩
      obtain rfl := key_eq_of_tableName_eq hb ht hbt' htt hname
      obtain rfl := Option.some.inj (hbt.symm.trans hbt')
      obtain rfl := Option.some.inj (htt.symm.trans htt')
      exact ⟨hname, hq⟩
    have hq : q tt bt → tableName tt = tableName bt ∧ p bt tt := by
      intro hq
      obtain ⟨key', bt', tt', hbt', htt', hname, hp⟩ :=
        (h (tableName bt)).mpr ⟨key, tt, bt, htt, hbt, rfl, hq⟩
      obtain rfl := key_eq_of_tableName_eq ht hb htt' hbt hname
      obtain rfl := Option.some.inj (hbt.symm.trans hbt')
      obtain rfl := Option.some.inj (htt.symm.trans htt')
      exact ⟨hname, hp⟩
    constructor
    · intro _
      exact ⟨fun h => (hp h).2, fun h => (hq h).2⟩
    · intro hne
      exact ⟨fun h => hne (hp h).1, fun h => hne (hq h).1.symm⟩
  · intro h table
    constructor
    · rintro ⟨key, bt, tt, hbt, htt, rfl, hp⟩
      obtain ⟨hsame, hdiff⟩ := h key bt tt hbt htt
      by_cases hname : tableName bt = tableName tt
      · exact ⟨key, tt, bt, htt, hbt, hname, (hsame hname).mp hp⟩
      · exact absurd hp (hdiff hname).1
    · rintro ⟨key, tt, bt, htt, hbt, rfl, hq⟩
      obtain ⟨hsame, hdiff⟩ := h key bt tt hbt htt
      by_cases hname : tableName bt = tableName tt
      · exact ⟨key, bt, tt, hbt, htt, hname.symm, (hsame hname).mpr hq⟩
      · exact absurd hq (hdiff hname).2

theorem undoneBy_iff (hb : b.Keyed) (ht : t.Keyed) :
    UndoneBy (migrationStmts unicode source dialect b t)
        (migrationStmts unicode source' dialect t b) ↔
      ∀ key bt tt, b.tables.get? key = some bt → t.tables.get? key = some tt →
        (tableName bt = tableName tt → ∀ column,
          (Retyped unicode source dialect bt tt column ↔
            Retyped unicode source' dialect tt bt column)) ∧
        (tableName bt ≠ tableName tt → ∀ column, ¬ Added bt tt column ∧
          ¬ Retyped unicode source dialect bt tt column ∧
          ¬ Retyped unicode source' dialect tt bt column ∧ ¬ Tightened bt tt column) := by
  have hadd := fun column => forall_atCommon_iff hb ht (p := fun bt tt => Added bt tt column)
    (q := fun tt bt => Added bt tt column)
  have htype := fun column => forall_atCommon_iff hb ht
    (p := fun bt tt => Retyped unicode source dialect bt tt column)
    (q := fun tt bt => Retyped unicode source' dialect tt bt column)
  have hnull := fun column => forall_atCommon_iff hb ht
    (p := fun bt tt => Tightened bt tt column) (q := fun tt bt => Tightened bt tt column)
  constructor
  · intro h key bt tt hbt htt
    have hcolumn := fun column => (hadd column).mp (fun table => by
      rw [← addsColumn_iff unicode source dialect, h.columns, dropsColumn_iff]) key bt tt hbt htt
    have hretype := fun column => (htype column).mp (fun table => by
      rw [← retypes_iff, h.retyped, retypes_iff]) key bt tt hbt htt
    have htighten := fun column => (hnull column).mp (fun table => by
      rw [← setsNotNull_iff unicode source dialect, h.notNull, dropsNotNull_iff]) key bt tt hbt htt
    constructor
    · intro hname column
      exact (hretype column).1 hname
    · intro hname column
      exact ⟨((hcolumn column).2 hname).1, ((hretype column).2 hname).1,
        ((hretype column).2 hname).2, ((htighten column).2 hname).1⟩
  · intro h
    constructor
    · intro table
      exact creates_iff_drops unicode source source' dialect
    · intro table column
      rw [addsColumn_iff, dropsColumn_iff]
      refine (hadd column).mpr (fun key bt tt hbt htt => ⟨fun _ => Iff.rfl, fun hname => ?_⟩) table
      have hnot := ((h key bt tt hbt htt).2 hname column).1
      exact ⟨hnot, hnot⟩
    · intro table column
      rw [retypes_iff, retypes_iff]
      refine (htype column).mpr (fun key bt tt hbt htt => ?_) table
      obtain ⟨hsame, hdiff⟩ := h key bt tt hbt htt
      exact ⟨fun hname => hsame hname column,
        fun hname => ⟨(hdiff hname column).2.1, (hdiff hname column).2.2.1⟩⟩
    · intro table column
      rw [setsNotNull_iff, dropsNotNull_iff]
      refine (hnull column).mpr (fun key bt tt hbt htt => ⟨fun _ => Iff.rfl, fun hname => ?_⟩) table
      have hnot := ((h key bt tt hbt htt).2 hname column).2.2.2
      exact ⟨hnot, hnot⟩

end

/-! ## Where the two mirror each other -/

/-- No column is added, removed or changed between the two tables, under either dialect. -/
def SameColumns (unicode : Unicode) (source source' dialect : Dialect) (bt tt : Table) : Prop :=
  ∀ column, ¬ Added bt tt column ∧ ¬ Added tt bt column ∧
    ¬ Retyped unicode source dialect bt tt column ∧
    ¬ Retyped unicode source' dialect bt tt column ∧
    ¬ Tightened bt tt column ∧ ¬ Tightened tt bt column

variable {Oid Oid' : Type} [DecidableEq Oid] [DecidableEq Oid']

/-- **Up and down mirror each other** exactly where, for each key of a table that both
    snapshots have: if the two tables have one name, their columns are retyped under the
    target's source dialect just when they are under the base's; and if not (two names can
    share a key), no column differs. -/
theorem mirror_iff (unicode : Unicode) (base : Snapshot Oid) (target : Snapshot Oid')
    (dialect : Dialect) :
    Mirror (exportMigrationStmts unicode base target dialect .up)
        (exportMigrationStmts unicode base target dialect .down) ↔
      ∀ key bt tt, (indexSnapshot base).tables.get? key = some bt →
        (indexSnapshot target).tables.get? key = some tt →
        (tableName bt = tableName tt → ∀ column,
          (Retyped unicode (snapshotSourceDialect unicode target) dialect bt tt column ↔
            Retyped unicode (snapshotSourceDialect unicode base) dialect bt tt column)) ∧
        (tableName bt ≠ tableName tt →
          SameColumns unicode (snapshotSourceDialect unicode target)
            (snapshotSourceDialect unicode base) dialect bt tt) := by
  have hb := keyed_indexSnapshot base
  have ht := keyed_indexSnapshot target
  unfold Mirror exportMigrationStmts snapshotDiffStmts
  rw [undoneBy_iff unicode _ _ dialect hb ht, undoneBy_iff unicode _ _ dialect ht hb]
  constructor
  · rintro ⟨hup, hdown⟩ key bt tt hbt htt
    obtain ⟨hsame, hdiff⟩ := hup key bt tt hbt htt
    obtain ⟨-, hdiff'⟩ := hdown key tt bt htt hbt
    constructor
    · intro hname column
      rw [hsame hname column]
      exact retyped_symm unicode _ dialect
    · intro hname column
      obtain ⟨hadd, htype, htype', hnull⟩ := hdiff hname column
      obtain ⟨hadd', -, -, hnull'⟩ := hdiff' (Ne.symm hname) column
      exact ⟨hadd, hadd', htype, fun h => htype' ((retyped_symm unicode _ dialect).mp h), hnull,
        hnull'⟩
  · intro h
    constructor
    · intro key bt tt hbt htt
      obtain ⟨hsame, hdiff⟩ := h key bt tt hbt htt
      constructor
      · intro hname column
        rw [hsame hname column]
        exact retyped_symm unicode _ dialect
      · intro hname column
        obtain ⟨hadd, -, htype, htype', hnull, -⟩ := hdiff hname column
        exact ⟨hadd, htype, fun h => htype' ((retyped_symm unicode _ dialect).mp h), hnull⟩
    · intro key tt bt htt hbt
      obtain ⟨hsame, hdiff⟩ := h key bt tt hbt htt
      constructor
      · intro hname column
        rw [retyped_symm, ← hsame hname.symm column]
      · intro hname column
        obtain ⟨-, hadd, htype, htype', -, hnull⟩ := hdiff (Ne.symm hname) column
        exact ⟨hadd, fun h => htype' ((retyped_symm unicode _ dialect).mp h), htype, hnull⟩

/-- A table with one column, read from a database of the given dialect. -/
def oneColumn (type dialect : Str) : Snapshot Nat where
  relations := [⟨some 1, some "public".toList, some "member".toList, none, some "r".toList⟩]
  columns := [⟨some 1, some "email".toList, some type, false⟩]
  pkColumns := []
  fkEdges := []
  sourceDialect := some dialect
  databaseDialect := none
  dialect := none

/-- **The mirror breaks between dialects:** the way from PostgreSQL to Snowflake takes both
    types for `text`, the way back compares them as they are. -/
theorem mirror_fails_between_dialects :
    ¬ Mirror
      (exportMigrationStmts asciiUnicode
        (oneColumn "character varying".toList "postgresql".toList)
        (oneColumn "TEXT".toList "snowflake".toList) .postgresql .up)
      (exportMigrationStmts asciiUnicode
        (oneColumn "character varying".toList "postgresql".toList)
        (oneColumn "TEXT".toList "snowflake".toList) .postgresql .down) := by
  intro h
  have hup : exportMigrationStmts asciiUnicode
      (oneColumn "character varying".toList "postgresql".toList)
      (oneColumn "TEXT".toList "snowflake".toList) .postgresql .up = [] := by decide
  have hdown : exportMigrationStmts asciiUnicode
      (oneColumn "character varying".toList "postgresql".toList)
      (oneColumn "TEXT".toList "snowflake".toList) .postgresql .down =
        [.alterType ⟨"public".toList, "member".toList⟩ "email".toList
          "character varying".toList] := by decide
  rw [hup, hdown] at h
  obtain ⟨type, htype⟩ := (h.1.retyped ⟨"public".toList, "member".toList⟩ "email".toList).mpr
    ⟨_, List.mem_singleton_self _⟩
  exact absurd htype List.not_mem_nil

end PgErdCloud.Ddl
