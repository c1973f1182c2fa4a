/-
  The risk report covers the migration. The two are written independently over the same pair
  of indexes; here they are compared group by group: each statement has an item, and each
  destructive item comes from a statement that destroys.

  The types matter: the migration compares mapped types, the report the types themselves with
  a missing one as the empty text. Where no column has an empty or missing type, a type that
  is altered is a type that differs.

  `risk_report_covers` is about all pairs of snapshots whose columns have types.
-/
import PgErdCloud.Ddl.OidIndependence
import PgErdCloud.Diff.IndexFacts

namespace PgErdCloud.Diff

open Lib Lib.PyStr

/-! ## Columns with a type -/

/-- The column has a type, and not an empty one. -/
def Col.Typed (col : Col) : Prop := ∃ type, type ≠ [] ∧ col.dataType = some type

/-- Every column of the table has a type. -/
def Table.Typed (tbl : Table) : Prop :=
  ∀ name col, tbl.columns.get? name = some col → col.Typed

/-- Every column of the snapshot has a type, and not an empty one. -/
def Snapshot.Typed {Oid : Type} (s : Snapshot Oid) : Prop :=
  ∀ col ∈ s.columns, ∃ type, type ≠ [] ∧ col.dataType = some type

/-- Every column of every table has a type. -/
def Index.Typed (i : Index) : Prop := ∀ key tbl, i.tables.get? key = some tbl → tbl.Typed

theorem Snapshot.Typed.index {Oid : Type} [DecidableEq Oid] {s : Snapshot Oid} (h : s.Typed) :
    (indexSnapshot s).Typed := by
  intro key tbl ht name col hc
  obtain ⟨row, hm, -, -, rfl⟩ := get?_columns _ ht hc
  exact h row hm

end PgErdCloud.Diff

namespace PgErdCloud.Ddl

open Lib Lib.PyStr Diff

/-! ## What a statement is reported as -/

/-- Category, severity and target. -/
abbrev Risk := Category × Severity × Str

/-- What a finding is about, without its text. -/
def Item.risk (item : Item) : Risk := (item.category, item.severity, item.target)

/-- The risk of a statement. Removed constraints, schemas and comments have none. -/
def Stmt.risk : Stmt → Option Risk
  | .dropTable table => some (.dropTable, .destructive, table.key)
  | .createTable table _ _ => some (.createTable, .safe, table.key)
  | .addColumn table clause => some (.addColumn,
      if clause.isNotNull then .warning else .safe, columnLabel table.key clause.name)
  | .dropColumn table column => some (.dropColumn, .destructive, columnLabel table.key column)
  | .alterType table column _ =>
      some (.alterColumnType, .warning, columnLabel table.key column)
  | .setNotNull table column => some (.setNotNull, .warning, columnLabel table.key column)
  | .dropNotNull table column => some (.dropNotNull, .safe, columnLabel table.key column)
  | .notePrimaryKey table _ => some (.primaryKeyChange, .destructive, table.key)
  | .addForeignKey child _ childColumns parent _ => some (.addForeignKey, .warning,
      child.key ++ "(".toList ++ join ", ".toList childColumns ++ ") -> ".toList ++ parent.key)
  | .dropConstraint _ _ | .noteUnnamedFk _ _ | .createSchema _ | .commentOn _ _ => none

/-- DROP TABLE, DROP COLUMN and the note of a primary key that changes. -/
def Stmt.destroys : Stmt → Bool
  | .dropTable _ | .dropColumn _ _ | .notePrimaryKey _ _ => true
  | _ => false

theorem risk_of_destroys {stmt : Stmt} (h : stmt.destroys = true) :
    ∃ risk, stmt.risk = some risk ∧ risk.2.1 = .destructive := by
  cases stmt with
  | dropTable table => exact ⟨_, rfl, rfl⟩
  | dropColumn table column => exact ⟨_, rfl, rfl⟩
  | notePrimaryKey table pk => exact ⟨_, rfl, rfl⟩
  | _ => exact absurd h (by simp [Stmt.destroys])

/-- The items report the statements. -/
structure Reported (items : List Item) (stmts : List Stmt) : Prop where
  covered : ∀ stmt ∈ stmts, ∀ risk, stmt.risk = some risk → ∃ item ∈ items, item.risk = risk
  caused : ∀ item ∈ items, item.severity = .destructive → ∃ stmt ∈ stmts, stmt.destroys = true

namespace Reported

theorem nil : Reported [] [] :=
  ⟨fun _ h => absurd h List.not_mem_nil, fun _ h => absurd h List.not_mem_nil⟩

theorem append {items items' : List Item} {stmts stmts' : List Stmt} (h : Reported items stmts)
    (h' : Reported items' stmts') : Reported (items ++ items') (stmts ++ stmts') where
  covered := by
    intro stmt hm risk hr
    rcases List.mem_append.mp hm with hm | hm
    · obtain ⟨item, hi, he⟩ := h.covered stmt hm risk hr
      exact ⟨item, List.mem_append_left _ hi, he⟩
    · obtain ⟨item, hi, he⟩ := h'.covered stmt hm risk hr
      exact ⟨item, List.mem_append_right _ hi, he⟩
  caused := by
    intro item hm hs
    rcases List.mem_append.mp hm with hm | hm
    · obtain ⟨stmt, hi, he⟩ := h.caused item hm hs
      exact ⟨stmt, List.mem_append_left _ hi, he⟩
    · obtain ⟨stmt, hi, he⟩ := h'.caused item hm hs
      exact ⟨stmt, List.mem_append_right _ hi, he⟩

theorem flatMap {α : Type} {xs : List α} {f : α → List Item} {g : α → List Stmt}
    (h : ∀ x ∈ xs, Reported (f x) (g x)) : Reported (xs.flatMap f) (xs.flatMap g) := by
  induction xs with
  | nil => exact nil
  | cons x xs ih =>
      exact (h x List.mem_cons_self).append (ih fun y hy => h y (List.mem_cons_of_mem x hy))

/-- One item for one statement. -/
theorem single {item : Item} {stmt : Stmt} (hrisk : stmt.risk = some item.risk)
    (hdestroys : item.severity = .destructive → stmt.destroys = true) :
    Reported [item] [stmt] where
  covered := by
    intro stmt' hm risk hr
    rw [List.mem_singleton.mp hm, hrisk, Option.some.injEq] at hr
    exact ⟨item, List.mem_singleton_self item, hr⟩
  caused := by
    intro item' hm hs
    rw [List.mem_singleton.mp hm] at hs
    exact ⟨stmt, List.mem_singleton_self stmt, hdestroys hs⟩

theorem map {α : Type} {xs : List α} {f : α → Item} {g : α → Stmt}
    (h : ∀ x ∈ xs, Reported [f x] [g x]) : Reported (xs.map f) (xs.map g) := by
  rw [List.map_eq_flatMap, List.map_eq_flatMap]
  exact flatMap h

/-- Statements without a risk need no item, and other items need no statement. -/
theorem of_none {items : List Item} {stmts : List Stmt} (hstmts : ∀ stmt ∈ stmts, stmt.risk = none)
    (hitems : ∀ item ∈ items, item.severity ≠ .destructive) : Reported items stmts where
  covered := by
    intro stmt hm risk hr
    rw [hstmts stmt hm] at hr
    exact absurd hr (by simp)
  caused := fun item hm hs => absurd hs (hitems item hm)

/-- The order of the items does not matter. -/
theorem of_perm {items items' : List Item} {stmts : List Stmt} (h : Reported items stmts)
    (hperm : items.Perm items') : Reported items' stmts where
  covered := by
    intro stmt hm risk hr
    obtain ⟨item, hi, he⟩ := h.covered stmt hm risk hr
    exact ⟨item, hperm.mem_iff.mp hi, he⟩
  caused := fun item hm => h.caused item (hperm.mem_iff.mpr hm)

end Reported

/-! ## Columns -/

variable (unicode : Unicode) (source target : Dialect)

/-- A column whose mapped type changes has a type that changes. -/
theorem dataType_ne_of_colType_ne {old col : Col} (hold : old.Typed) (hcol : col.Typed)
    (h : colType unicode source target old ≠ colType unicode source target col) :
    old.dataType.getD [] ≠ col.dataType.getD [] := by
  intro he
  obtain ⟨oldType, -, hot⟩ := hold
  obtain ⟨type, -, ht⟩ := hcol
  rw [hot, ht, Option.getD_some, Option.getD_some] at he
  apply h
  rw [colType, colType, hot, ht, he]

theorem reported_alterColumn (table : TableName) (name : Str) {old col : Col} (hold : old.Typed)
    (hcol : col.Typed) : Reported (alterColumnItems table.key name old col)
      (alterColumnSql unicode source target table name old col) := by
  unfold alterColumnItems alterColumnSql
  rw [List.append_assoc]
  apply Reported.append
  · split_ifs with hs ht ht
    · exact .single rfl (by simp)
    · exact .of_none (by simp) (by simp)
    · exact absurd (dataType_ne_of_colType_ne unicode source target hold hcol ht) hs
    · exact .nil
  · cases old.isNotNull <;> cases col.isNotNull
    · exact .nil
    · exact .single rfl (by simp)
    · exact .single rfl (by simp)
    · exact .nil

theorem reported_addColumn (table : TableName) (name : Str) (col : Col) :
    Reported [addColumnItem table.key name col]
      [.addColumn table (columnClause unicode source target name col)] := by
  apply Reported.single
  · unfold addColumnItem Stmt.risk columnClause
    cases col.isNotNull <;> rfl
  · intro hs
    unfold addColumnItem at hs
    split_ifs at hs

/-! ## Tables -/

theorem reported_alterTable {btbl ttbl : Table} (hbase : btbl.Typed) (htarget : ttbl.Typed) :
    Reported (tableItems ttbl.key btbl ttbl) (alterTableSql unicode source target btbl ttbl) := by
  unfold tableItems alterTableSql
  rw [← List.append_nil (_ ++ if btbl.pk ≠ ttbl.pk then _ else _)]
  refine (((Reported.append ?added ?dropped).append ?common).append ?pk).append ?comment
  case added =>
    exact .map fun e _ => reported_addColumn unicode source target (tableName ttbl) e.1 e.2
  case dropped => exact .map fun name _ => .single rfl (fun _ => rfl)
  case common =>
    apply Reported.flatMap
    intro e hm
    cases hold : btbl.columns.get? e.1 with
    | none => exact .nil
    | some old =>
        have hcol : e.2.Typed := htarget e.1 e.2 (Dict.mem_items_iff.mp hm)
        exact reported_alterColumn unicode source target (tableName ttbl) e.1
          (hbase e.1 old hold) hcol
  case pk =>
    split_ifs
    · exact .single rfl (fun _ => rfl)
    · exact .nil
  case comment =>
    split_ifs
    · exact .of_none (by simp [commentSql, Stmt.risk]) (by simp)
    · exact .nil

/-! ## The migration -/

section
variable {b t : Index} (hb : b.Keyed) (ht : t.Keyed)

/-- Neither side of a removed constraint weighs anything. -/
theorem reported_dropFks : Reported (dropFkItems b t) (dropFkStmts b t) := by
  apply Reported.of_none
  · intro stmt hm
    obtain ⟨e, -, he⟩ := List.mem_filterMap.mp hm
    obtain ⟨ends, -, rfl⟩ := Option.map_eq_some_iff.mp he
    cases e.2.name <;> rfl
  · intro item hm
    obtain ⟨e, -, rfl⟩ := List.mem_map.mp hm
    simp

theorem reported_createSchemas : Reported [] (createMissingSchemaSql b.tables t.tables) := by
  apply Reported.of_none
  · intro stmt hm
    obtain ⟨schema, -, rfl⟩ := List.mem_map.mp hm
    rfl
  · simp

include hb in
theorem reported_dropTables : Reported (dropTableItems b t) (dropTableStmts b t) := by
  have hitems : dropTableItems b t = (b.tables.items.filter fun e => e.1 ∉ t.tables.keys).map
      fun e => ⟨.dropTable, .destructive, e.1,
        "Table is dropped — all its data is lost.".toList⟩ := by
    unfold dropTableItems Dict.keys
    rw [List.filter_map, List.map_map]
    rfl
  rw [hitems, dropTableStmts]
  apply Reported.map
  intro e hm
  have hkey : e.2.key = e.1 := hb e.1 e.2 (Dict.mem_items_iff.mp (List.mem_of_mem_filter hm))
  apply Reported.single
  · rw [← hkey]
    rfl
  · exact fun _ => rfl

include ht in
theorem reported_createTables : Reported (createTableItems b t)
    (createTableStmts unicode source target b t) := by
  have hitems : createTableItems b t = (t.tables.items.filter fun e => e.1 ∉ b.tables.keys).map
      fun e => ⟨.createTable, .safe, e.1, "New table.".toList⟩ := by
    unfold createTableItems Dict.keys
    rw [List.filter_map, List.map_map]
    rfl
  rw [hitems, createTableStmts]
  apply Reported.map
  intro e hm
  have hkey : e.2.key = e.1 := ht e.1 e.2 (Dict.mem_items_iff.mp (List.mem_of_mem_filter hm))
  apply Reported.single
  · rw [← hkey]
    rfl
  · simp

include ht in
theorem reported_alterTables (hbt : b.Typed) (htt : t.Typed) : Reported (changedTableItems b t)
    (alterTableStmts unicode source target b t) := by
  apply Reported.flatMap
  intro e hm
  have hget : t.tables.get? e.1 = some e.2 := Dict.mem_items_iff.mp hm
  cases hbase : b.tables.get? e.1 with
  | none => exact .nil
  | some btbl =>
      have h := reported_alterTable unicode source target (hbt e.1 btbl hbase) (htt e.1 e.2 hget)
      rw [ht e.1 e.2 hget] at h
      exact h

include ht in
/-- A foreign key is added between the tables of its label. -/
theorem reported_addFks : Reported (addFkItems b t) (addFkStmts b t) where
  covered := by
    intro stmt hm risk hr
    obtain ⟨e, he, hstmt⟩ := List.mem_filterMap.mp hm
    refine ⟨_, List.mem_map_of_mem he, ?_⟩
    obtain ⟨ends, hends, rfl⟩ := Option.map_eq_some_iff.mp hstmt
    unfold fkEndpoints at hends
    cases hchild : t.tables.get? e.2.childTable with
    | none => simp [hchild] at hends
    | some child =>
        cases hparent : t.tables.get? e.2.parentTable with
        | none => simp [hchild, hparent] at hends
        | some parent =>
            rw [hchild, hparent, Option.some.injEq] at hends
            have hc : (tableName child).key = e.2.childTable := ht _ child hchild
            have hp : (tableName parent).key = e.2.parentTable := ht _ parent hparent
            subst hends
            rw [Stmt.risk, Option.some.injEq, hc, hp] at hr
            exact hr
  caused := by
    intro item hm hs
    obtain ⟨e, -, rfl⟩ := List.mem_map.mp hm
    exact absurd hs (by simp)

end

theorem reported_migration {b t : Index} (hb : b.Keyed) (ht : t.Keyed) (hbt : b.Typed)
    (htt : t.Typed) : Reported (safetyReport b t).items
      (migrationStmts unicode source target b t) := by
  -- the report groups its items in another order and sorts them
  have hperm : (dropFkItems b t ++ dropTableItems b t ++ [] ++ createTableItems b t ++
      changedTableItems b t ++ addFkItems b t).Perm (foundItems b t) := by
    unfold foundItems
    simp only [List.append_nil, List.append_assoc]
    refine List.perm_append_comm.trans ?_
    simp only [List.append_assoc]
    exact .refl _
  refine Reported.of_perm (Reported.of_perm ?_ hperm) (List.perm_insertionSort Item.le _).symm
  unfold migrationStmts
  refine (((Reported.append ?_ ?_).append ?_).append ?_).append ?_ |>.append ?_
  · exact reported_dropFks
  · exact reported_dropTables hb
  · exact reported_createSchemas
  · exact reported_createTables unicode source target ht
  · exact reported_alterTables unicode source target ht hbt htt
  · exact reported_addFks ht

variable {Oid Oid' : Type} [DecidableEq Oid] [DecidableEq Oid']

/-- **The risk report covers the migration.** Each statement of a migration to either dialect
    has an item of its category, severity and target, and the report is destructive exactly
    when a statement destroys. -/
theorem risk_report_covers (base : Snapshot Oid) (target : Snapshot Oid') (hbase : base.Typed)
    (htarget : target.Typed) (dialect : Dialect) :
    (∀ stmt ∈ snapshotDiffStmts unicode base target dialect, ∀ risk, stmt.risk = some risk →
      ∃ item ∈ (analyzeMigrationSafety base target).items,
        (item.category, item.severity, item.target) = risk) ∧
    ((analyzeMigrationSafety base target).summary.hasDestructive = true ↔
      ∃ stmt ∈ snapshotDiffStmts unicode base target dialect, stmt.destroys = true) := by
  have h := reported_migration unicode (snapshotSourceDialect unicode target) dialect
    (keyed_indexSnapshot base) (keyed_indexSnapshot target) hbase.index htarget.index
  refine ⟨h.covered, ?_⟩
  have hany : (analyzeMigrationSafety base target).summary.hasDestructive = true ↔
      ∃ item ∈ (analyzeMigrationSafety base target).items, item.severity = .destructive := by
    unfold analyzeMigrationSafety safetyReport
    simp
  rw [hany]
  constructor
  · rintro ⟨item, hm, hs⟩
    exact h.caused item hm hs
  · rintro ⟨stmt, hm, hd⟩
    obtain ⟨risk, hr, hs⟩ := risk_of_destroys hd
    obtain ⟨item, hi, he⟩ := h.covered stmt hm risk hr
    refine ⟨item, hi, ?_⟩
    rw [← hs, ← he]
    rfl

/-- `oneTable` with another type and without its primary key, and a table that refers to it. -/
def altered : Snapshot Nat where
  relations := [⟨some 1, some "s".toList, some "t".toList, none, some "r".toList⟩,
    ⟨some 2, some "s".toList, some "u".toList, none, some "r".toList⟩]
  columns := [⟨some 1, some "id".toList, some "bigint".toList, true⟩,
    ⟨some 2, some "t_id".toList, some "bigint".toList, false⟩]
  pkColumns := []
  fkEdges := [⟨some 7, some "u_fk".toList, some 2, some 1, some "t_id".toList,
    some "id".toList, some 1⟩]
  sourceDialect := none
  databaseDialect := none
  dialect := none

/-- `risk_report_covers` for a migration that changes a type and a key and adds a table. -/
theorem risk_report_covers_at_altered :
    (∀ stmt ∈ snapshotDiffStmts asciiUnicode oneTable altered .postgresql, ∀ risk,
      stmt.risk = some risk → ∃ item ∈ (analyzeMigrationSafety oneTable altered).items,
        (item.category, item.severity, item.target) = risk) ∧
    ((analyzeMigrationSafety oneTable altered).summary.hasDestructive = true ↔
      ∃ stmt ∈ snapshotDiffStmts asciiUnicode oneTable altered .postgresql,
        stmt.destroys = true) :=
  risk_report_covers asciiUnicode oneTable altered
    (by simp [Snapshot.Typed, oneTable]) (by simp [Snapshot.Typed, altered]) .postgresql

end PgErdCloud.Ddl
