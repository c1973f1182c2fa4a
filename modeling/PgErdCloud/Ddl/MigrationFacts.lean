/-
  Which statements a migration has. The statements come in six phases, and a statement tells
  its phase by its kind; within the phase of the altered tables a statement tells the loop it
  comes from. So each kind of statement has one condition.
-/
import PgErdCloud.Ddl.Migration

namespace PgErdCloud.Ddl

open Lib Lib.PyStr Diff

/-! ## What differs between two tables -/

/-- A column that comes. -/
def Added (bt tt : Table) (column : Str) : Prop :=
  column ∈ tt.columns.keys ∧ column ∉ bt.columns.keys

/-- Both tables have the column, with different types after mapping. -/
def Retyped (unicode : Unicode) (source dialect : Dialect) (bt tt : Table) (column : Str) :
    Prop :=
  ∃ old new, bt.columns.get? column = some old ∧ tt.columns.get? column = some new ∧
    colType unicode source dialect old ≠ colType unicode source dialect new

/-- Both tables have the column, and only the second forbids null. -/
def Tightened (bt tt : Table) (column : Str) : Prop :=
  ∃ old new, bt.columns.get? column = some old ∧ tt.columns.get? column = some new ∧
    old.isNotNull = false ∧ new.isNotNull = true

theorem retyped_symm (unicode : Unicode) (source dialect : Dialect) {bt tt : Table} {column : Str} :
    Retyped unicode source dialect bt tt column ↔ Retyped unicode source dialect tt bt column := by
  constructor
  · rintro ⟨old, new, ho, hn, hne⟩
    exact ⟨new, old, hn, ho, hne.symm⟩
  · rintro ⟨old, new, ho, hn, hne⟩
    exact ⟨new, old, hn, ho, hne.symm⟩

/-! ## Phases -/

/-- The parts of a migration, in their order. -/
inductive Phase
  | dropFks
  | dropTables
  | createSchemas
  | createTables
  | alterTables
  | addFks
  deriving DecidableEq

/-- The part that a statement belongs to. -/
def Stmt.phase : Stmt → Phase
  | .dropConstraint _ _ | .noteUnnamedFk _ _ => .dropFks
  | .dropTable _ => .dropTables
  | .createSchema _ => .createSchemas
  | .createTable _ _ _ => .createTables
  | .addColumn _ _ | .dropColumn _ _ | .alterType _ _ _ | .setNotNull _ _ | .dropNotNull _ _
  | .notePrimaryKey _ _ | .commentOn _ _ => .alterTables
  | .addForeignKey _ _ _ _ _ => .addFks

variable (unicode : Unicode) (source target : Dialect) (b t : Index)

/-- The statements of a part. -/
def phaseStmts : Phase → List Stmt
  | .dropFks => dropFkStmts b t
  | .dropTables => dropTableStmts b t
  | .createSchemas => createMissingSchemaSql b.tables t.tables
  | .createTables => createTableStmts unicode source target b t
  | .alterTables => alterTableStmts unicode source target b t
  | .addFks => addFkStmts b t

/-! ## The statements of an altered table -/

theorem mem_alterColumnSql {table : TableName} {name : Str} {old col : Col} {stmt : Stmt} :
    stmt ∈ alterColumnSql unicode source target table name old col ↔
      (colType unicode source target old ≠ colType unicode source target col ∧
        stmt = .alterType table name (colType unicode source target col)) ∨
      (old.isNotNull = false ∧ col.isNotNull = true ∧ stmt = .setNotNull table name) ∨
      (old.isNotNull = true ∧ col.isNotNull = false ∧ stmt = .dropNotNull table name) := by
  unfold alterColumnSql
  rw [List.mem_append]
  apply or_congr
  · split_ifs with h
    · simp [h]
    · simp [h]
  · cases old.isNotNull <;> cases col.isNotNull <;> simp

/-- Where a statement of an altered table comes from. -/
theorem mem_alterTableSql {bt tt : Table} {stmt : Stmt} :
    stmt ∈ alterTableSql unicode source target bt tt ↔
      (∃ name col, tt.columns.get? name = some col ∧ name ∉ bt.columns.keys ∧
        stmt = .addColumn (tableName tt) (columnClause unicode source target name col)) ∨
      (∃ name, name ∈ bt.columns.keys ∧ name ∉ tt.columns.keys ∧
        stmt = .dropColumn (tableName tt) name) ∨
      (∃ name old col, bt.columns.get? name = some old ∧ tt.columns.get? name = some col ∧
        stmt ∈ alterColumnSql unicode source target (tableName tt) name old col) ∨
      (bt.pk ≠ tt.pk ∧ stmt = .notePrimaryKey (tableName tt) tt.pk) ∨
      (bt.comment ≠ tt.comment ∧ target = .postgresql ∧
        stmt = commentSql (tableName tt) tt.comment) := by
  unfold alterTableSql
  simp only [List.mem_append, or_assoc]
  refine or_congr ?_ (or_congr ?_ (or_congr ?_ (or_congr ?_ ?_)))
  · simp only [List.mem_map, List.mem_filter, decide_eq_true_eq, Prod.exists, Dict.mem_items_iff]
    constructor
    · rintro ⟨name, col, ⟨ht, hb⟩, rfl⟩
      exact ⟨name, col, ht, hb, rfl⟩
    · rintro ⟨name, col, ht, hb, rfl⟩
      exact ⟨name, col, ⟨ht, hb⟩, rfl⟩
  · simp only [List.mem_map, List.mem_filter, decide_eq_true_eq]
    constructor
    · rintro ⟨name, ⟨hb, ht⟩, rfl⟩
      exact ⟨name, hb, ht, rfl⟩
    · rintro ⟨name, hb, ht, rfl⟩
      exact ⟨name, ⟨hb, ht⟩, rfl⟩
  · rw [List.mem_flatMap]
    constructor
    · rintro ⟨e, he, hm⟩
      cases hold : bt.columns.get? e.1 with
      | none => simp [hold] at hm
      | some old =>
          simp only [hold] at hm
          exact ⟨e.1, old, e.2, hold, Dict.mem_items_iff.mp he, hm⟩
    · rintro ⟨name, old, col, hold, hcol, hm⟩
      exact ⟨(name, col), Dict.mem_items_iff.mpr hcol, by simpa only [hold] using hm⟩
  · split_ifs with h
    · simp [h]
    · simp [h]
  · split_ifs with h
    · simp [h.1, h.2]
    · rw [not_and] at h
      constructor
      · intro hm
        exact absurd hm List.not_mem_nil
      · rintro ⟨hne, hpg, -⟩
        exact absurd hpg (h hne)

section
variable {bt tt : Table} {table : TableName} {column : Str}

theorem addColumn_mem {clause : ColumnClause} :
    .addColumn table clause ∈ alterTableSql unicode source target bt tt ↔
      tableName tt = table ∧ ∃ name col, tt.columns.get? name = some col ∧
        name ∉ bt.columns.keys ∧ columnClause unicode source target name col = clause := by
  rw [mem_alterTableSql]
  simp only [mem_alterColumnSql, commentSql, Stmt.addColumn.injEq, reduceCtorEq, and_false,
    exists_false, or_false]
  constructor
  · rintro ⟨name, col, ht, hb, rfl, rfl⟩
    exact ⟨rfl, name, col, ht, hb, rfl⟩
  · rintro ⟨rfl, name, col, ht, hb, rfl⟩
    exact ⟨name, col, ht, hb, rfl, rfl⟩

theorem dropColumn_mem :
    .dropColumn table column ∈ alterTableSql unicode source target bt tt ↔
      tableName tt = table ∧ column ∈ bt.columns.keys ∧ column ∉ tt.columns.keys := by
  rw [mem_alterTableSql]
  simp only [mem_alterColumnSql, commentSql, Stmt.dropColumn.injEq, reduceCtorEq, and_false,
    exists_false, or_false, false_or]
  constructor
  · rintro ⟨name, hb, ht, rfl, rfl⟩
    exact ⟨rfl, hb, ht⟩
  · rintro ⟨rfl, hb, ht⟩
    exact ⟨column, hb, ht, rfl, rfl⟩

theorem alterType_mem {type : Str} :
    .alterType table column type ∈ alterTableSql unicode source target bt tt ↔
      tableName tt = table ∧ ∃ old col, bt.columns.get? column = some old ∧
        tt.columns.get? column = some col ∧
        colType unicode source target old ≠ colType unicode source target col ∧
        colType unicode source target col = type := by
  rw [mem_alterTableSql]
  simp only [mem_alterColumnSql, commentSql, Stmt.alterType.injEq, reduceCtorEq, and_false,
    exists_false, or_false, false_or]
  constructor
  · rintro ⟨name, old, col, hb, ht, hne, rfl, rfl, rfl⟩
    exact ⟨rfl, old, col, hb, ht, hne, rfl⟩
  · rintro ⟨rfl, old, col, hb, ht, hne, rfl⟩
    exact ⟨column, old, col, hb, ht, hne, rfl, rfl, rfl⟩

theorem setNotNull_mem :
    .setNotNull table column ∈ alterTableSql unicode source target bt tt ↔
      tableName tt = table ∧ ∃ old col, bt.columns.get? column = some old ∧
        tt.columns.get? column = some col ∧ old.isNotNull = false ∧ col.isNotNull = true := by
  rw [mem_alterTableSql]
  simp only [mem_alterColumnSql, commentSql, Stmt.setNotNull.injEq, reduceCtorEq, and_false,
    exists_false, or_false, false_or]
  constructor
  · rintro ⟨name, old, col, hb, ht, ho, hn, rfl, rfl⟩
    exact ⟨rfl, old, col, hb, ht, ho, hn⟩
  · rintro ⟨rfl, old, col, hb, ht, ho, hn⟩
    exact ⟨column, old, col, hb, ht, ho, hn, rfl, rfl⟩

theorem dropNotNull_mem :
    .dropNotNull table column ∈ alterTableSql unicode source target bt tt ↔
      tableName tt = table ∧ ∃ old col, bt.columns.get? column = some old ∧
        tt.columns.get? column = some col ∧ old.isNotNull = true ∧ col.isNotNull = false := by
  rw [mem_alterTableSql]
  simp only [mem_alterColumnSql, commentSql, Stmt.dropNotNull.injEq, reduceCtorEq, and_false,
    exists_false, or_false, false_or]
  constructor
  · rintro ⟨name, old, col, hb, ht, ho, hn, rfl, rfl⟩
    exact ⟨rfl, old, col, hb, ht, ho, hn⟩
  · rintro ⟨rfl, old, col, hb, ht, ho, hn⟩
    exact ⟨column, old, col, hb, ht, ho, hn, rfl, rfl⟩

theorem notePrimaryKey_mem {pk : List Str} :
    .notePrimaryKey table pk ∈ alterTableSql unicode source target bt tt ↔
      tableName tt = table ∧ bt.pk ≠ tt.pk ∧ tt.pk = pk := by
  rw [mem_alterTableSql]
  simp only [mem_alterColumnSql, commentSql, Stmt.notePrimaryKey.injEq, reduceCtorEq, and_false,
    exists_false, or_false, false_or]
  constructor
  · rintro ⟨hne, rfl, rfl⟩
    exact ⟨rfl, hne, rfl⟩
  · rintro ⟨rfl, hne, rfl⟩
    exact ⟨hne, rfl, rfl⟩

end

theorem phase_of_mem_alterTableSql {bt tt : Table} {stmt : Stmt}
    (h : stmt ∈ alterTableSql unicode source target bt tt) : stmt.phase = .alterTables := by
  rw [mem_alterTableSql] at h
  rcases h with ⟨_, _, _, _, rfl⟩ | ⟨_, _, _, rfl⟩ | ⟨_, _, _, _, _, h⟩ | ⟨_, rfl⟩ | ⟨_, _, rfl⟩
  · rfl
  · rfl
  · rw [mem_alterColumnSql] at h
    rcases h with ⟨_, rfl⟩ | ⟨_, _, rfl⟩ | ⟨_, _, rfl⟩
    · rfl
    · rfl
    · rfl
  · rfl
  · rfl

theorem mem_alterTableStmts {stmt : Stmt} :
    stmt ∈ alterTableStmts unicode source target b t ↔ ∃ key bt tt,
      b.tables.get? key = some bt ∧ t.tables.get? key = some tt ∧
        stmt ∈ alterTableSql unicode source target bt tt := by
  unfold alterTableStmts
  rw [List.mem_flatMap]
  constructor
  · rintro ⟨e, he, hm⟩
    cases hb : b.tables.get? e.1 with
    | none => simp [hb] at hm
    | some bt =>
        simp only [hb] at hm
        exact ⟨e.1, bt, e.2, hb, Dict.mem_items_iff.mp he, hm⟩
  · rintro ⟨key, bt, tt, hb, ht, hm⟩
    exact ⟨(key, tt), Dict.mem_items_iff.mpr ht, by simpa only [hb] using hm⟩

theorem phase_of_mem {phase : Phase} {stmt : Stmt}
    (h : stmt ∈ phaseStmts unicode source target b t phase) : stmt.phase = phase := by
  cases phase with
  | dropFks =>
      obtain ⟨e, -, he⟩ := List.mem_filterMap.mp h
      obtain ⟨ends, -, rfl⟩ := Option.map_eq_some_iff.mp he
      cases e.2.name <;> rfl
  | dropTables =>
      obtain ⟨e, -, rfl⟩ := List.mem_map.mp h
      rfl
  | createSchemas =>
      obtain ⟨schema, -, rfl⟩ := List.mem_map.mp h
      rfl
  | createTables =>
      obtain ⟨e, -, rfl⟩ := List.mem_map.mp h
      rfl
  | alterTables =>
      obtain ⟨key, bt, tt, -, -, hm⟩ := (mem_alterTableStmts unicode source target b t).mp h
      exact phase_of_mem_alterTableSql unicode source target hm
  | addFks =>
      obtain ⟨e, -, he⟩ := List.mem_filterMap.mp h
      obtain ⟨ends, -, rfl⟩ := Option.map_eq_some_iff.mp he
      rfl

/-- **A statement of a migration is one of its phase.** -/
theorem mem_migrationStmts {stmt : Stmt} :
    stmt ∈ migrationStmts unicode source target b t ↔
      stmt ∈ phaseStmts unicode source target b t stmt.phase := by
  have hphase : ∀ phase, stmt ∈ phaseStmts unicode source target b t phase →
      stmt.phase = phase :=
    fun _ => phase_of_mem unicode source target b t
  unfold migrationStmts
  simp only [List.mem_append, or_assoc]
  constructor
  · rintro (h | h | h | h | h | h)
    · exact (hphase .dropFks h).symm ▸ h
    · exact (hphase .dropTables h).symm ▸ h
    · exact (hphase .createSchemas h).symm ▸ h
    · exact (hphase .createTables h).symm ▸ h
    · exact (hphase .alterTables h).symm ▸ h
    · exact (hphase .addFks h).symm ▸ h
  · intro h
    cases hp : stmt.phase with
    | dropFks =>
        rw [hp] at h
        exact .inl h
    | dropTables =>
        rw [hp] at h
        exact .inr (.inl h)
    | createSchemas =>
        rw [hp] at h
        exact .inr (.inr (.inl h))
    | createTables =>
        rw [hp] at h
        exact .inr (.inr (.inr (.inl h)))
    | alterTables =>
        rw [hp] at h
        exact .inr (.inr (.inr (.inr (.inl h))))
    | addFks =>
        rw [hp] at h
        exact .inr (.inr (.inr (.inr (.inr h))))

/-! ## Kinds of statements -/

/-- A migration creates a table. -/
theorem createTable_mem {table : TableName} {columns : List ColumnClause} {pk : List Str} :
    .createTable table columns pk ∈ migrationStmts unicode source target b t ↔
      ∃ key tt, t.tables.get? key = some tt ∧ key ∉ b.tables.keys ∧
        createTableSql unicode source target tt = .createTable table columns pk := by
  rw [mem_migrationStmts]
  show _ ∈ createTableStmts unicode source target b t ↔ _
  unfold createTableStmts
  simp only [List.mem_map, List.mem_filter, decide_eq_true_eq, Prod.exists, Dict.mem_items_iff,
    and_assoc]

/-- A migration drops a table. -/
theorem dropTable_mem {table : TableName} :
    .dropTable table ∈ migrationStmts unicode source target b t ↔
      ∃ key bt, b.tables.get? key = some bt ∧ key ∉ t.tables.keys ∧ tableName bt = table := by
  rw [mem_migrationStmts]
  show _ ∈ dropTableStmts b t ↔ _
  unfold dropTableStmts
  simp only [List.mem_map, List.mem_filter, decide_eq_true_eq, Prod.exists, Dict.mem_items_iff,
    and_assoc, Stmt.dropTable.injEq]

/-- A migration alters a table that both snapshots have. -/
theorem alterTables_mem {stmt : Stmt} (h : stmt.phase = .alterTables) :
    stmt ∈ migrationStmts unicode source target b t ↔ ∃ key bt tt,
      b.tables.get? key = some bt ∧ t.tables.get? key = some tt ∧
        stmt ∈ alterTableSql unicode source target bt tt := by
  rw [mem_migrationStmts, h]
  exact mem_alterTableStmts unicode source target b t

theorem fkEndpoints_eq_some {fk : Fk} {tables : Dict Str Table} {child parent : TableName} :
    fkEndpoints fk tables = some (child, parent) ↔ ∃ c p,
      tables.get? fk.childTable = some c ∧ tables.get? fk.parentTable = some p ∧
        tableName c = child ∧ tableName p = parent := by
  unfold fkEndpoints
  cases tables.get? fk.childTable with
  | none => simp
  | some c =>
      cases tables.get? fk.parentTable with
      | none => simp
      | some p => simp

/-- A migration drops a constraint by its name. -/
theorem dropConstraint_mem {child : TableName} {name : Str} :
    .dropConstraint child name ∈ migrationStmts unicode source target b t ↔
      ∃ signature fk, b.fks.get? signature = some fk ∧ signature ∉ t.fks.keys ∧
        dropsWithChild b t fk = false ∧ fk.name = some name ∧
        ∃ parent, fkEndpoints fk b.tables = some (child, parent) := by
  rw [mem_migrationStmts]
  show _ ∈ dropFkStmts b t ↔ _
  unfold dropFkStmts dropFkSql
  simp only [List.mem_filterMap, List.mem_filter, Prod.exists, Dict.mem_items_iff,
    Option.map_eq_some_iff, Bool.and_eq_true, decide_eq_true_eq, Bool.not_eq_eq_eq_not,
    Bool.not_true]
  constructor
  · rintro ⟨signature, fk, ⟨hfk, hsig, hchild⟩, ends, parent, hends, hstmt⟩
    cases hname : fk.name with
    | none => simp [hname] at hstmt
    | some n =>
        simp only [hname, Stmt.dropConstraint.injEq] at hstmt
        obtain ⟨rfl, rfl⟩ := hstmt
        exact ⟨signature, fk, hfk, hsig, hchild, hname, parent, hends⟩
  · rintro ⟨signature, fk, hfk, hsig, hchild, hname, parent, hends⟩
    exact ⟨signature, fk, ⟨hfk, hsig, hchild⟩, child, parent, hends, by simp only [hname]⟩

/-- A migration writes a note for a constraint without a name. -/
theorem noteUnnamedFk_mem {child : TableName} {childColumns : List Str} :
    .noteUnnamedFk child childColumns ∈ migrationStmts unicode source target b t ↔
      ∃ signature fk, b.fks.get? signature = some fk ∧ signature ∉ t.fks.keys ∧
        dropsWithChild b t fk = false ∧ fk.name = none ∧ fk.childColumns = childColumns ∧
        ∃ parent, fkEndpoints fk b.tables = some (child, parent) := by
  rw [mem_migrationStmts]
  show _ ∈ dropFkStmts b t ↔ _
  unfold dropFkStmts dropFkSql
  simp only [List.mem_filterMap, List.mem_filter, Prod.exists, Dict.mem_items_iff,
    Option.map_eq_some_iff, Bool.and_eq_true, decide_eq_true_eq, Bool.not_eq_eq_eq_not,
    Bool.not_true]
  constructor
  · rintro ⟨signature, fk, ⟨hfk, hsig, hchild⟩, ends, parent, hends, hstmt⟩
    cases hname : fk.name with
    | some n => simp [hname] at hstmt
    | none =>
        simp only [hname, Stmt.noteUnnamedFk.injEq] at hstmt
        obtain ⟨rfl, hcolumns⟩ := hstmt
        exact ⟨signature, fk, hfk, hsig, hchild, hname, hcolumns, parent, hends⟩
  · rintro ⟨signature, fk, hfk, hsig, hchild, hname, rfl, parent, hends⟩
    exact ⟨signature, fk, ⟨hfk, hsig, hchild⟩, child, parent, hends, by simp only [hname]⟩

/-- A migration adds a foreign key. -/
theorem addForeignKey_mem {child parent : TableName} {name : Option Str}
    {childColumns parentColumns : List Str} :
    .addForeignKey child name childColumns parent parentColumns ∈
        migrationStmts unicode source target b t ↔
      ∃ signature fk, t.fks.get? signature = some fk ∧ signature ∉ b.fks.keys ∧
        fkEndpoints fk t.tables = some (child, parent) ∧ fk.name = name ∧
        fk.childColumns = childColumns ∧ fk.parentColumns = parentColumns := by
  rw [mem_migrationStmts]
  show _ ∈ addFkStmts b t ↔ _
  unfold addFkStmts addFkSql
  simp only [List.mem_filterMap, List.mem_filter, Prod.exists, Dict.mem_items_iff,
    Option.map_eq_some_iff, decide_eq_true_eq, Stmt.addForeignKey.injEq]
  constructor
  · rintro ⟨signature, fk, ⟨hfk, hsig⟩, c, p, hends, rfl, hname, hcols, rfl, hpcols⟩
    exact ⟨signature, fk, hfk, hsig, hends, hname, hcols, hpcols⟩
  · rintro ⟨signature, fk, hfk, hsig, hends, hname, hcols, hpcols⟩
    exact ⟨signature, fk, ⟨hfk, hsig⟩, child, parent, hends, rfl, hname, hcols, rfl, hpcols⟩

end PgErdCloud.Ddl
