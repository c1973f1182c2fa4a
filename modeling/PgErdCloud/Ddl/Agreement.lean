/-
  The migration and the diff agree on "nothing to do". The diff counts, the migration writes,
  each with a walk of its own over the two indexes. Both come to the same condition,
  `SameIndex`: the migration skips a foreign key only where a table is dropped or an end is
  missing, and every end of a key of an index is a table of it.

  `marker_iff_no_changes` is about all PostgreSQL snapshots whose types are texts: the marker is
  written exactly when the diff has no changes.
-/
import PgErdCloud.Ddl.MigrationFacts
import PgErdCloud.Ddl.RiskCoverage
import PgErdCloud.Diff.Completeness

namespace PgErdCloud.Diff

open Lib Lib.PyStr

/-! ## Columns and foreign keys of an index -/

/-- The type of every column is a string. -/
def Snapshot.TextTyped {Oid : Type} (s : Snapshot Oid) : Prop :=
  ∀ col ∈ s.columns, ∃ type, col.dataType = some type

/-- Every column of every table has a type, which is a text. -/
def Index.TextTyped (i : Index) : Prop :=
  ∀ key tbl name col, i.tables.get? key = some tbl → tbl.columns.get? name = some col →
    ∃ type, col.dataType = some type

/-- Both ends of every foreign key are tables. -/
def Index.Closed (i : Index) : Prop :=
  ∀ signature fk, i.fks.get? signature = some fk →
    fk.childTable ∈ i.tables.keys ∧ fk.parentTable ∈ i.tables.keys

variable {Oid : Type} [DecidableEq Oid]

theorem Snapshot.TextTyped.index {s : Snapshot Oid} (h : s.TextTyped) :
    (indexSnapshot s).TextTyped := by
  intro key tbl name col ht hc
  obtain ⟨row, hm, -, -, rfl⟩ := get?_columns _ ht hc
  exact h row hm

/-- An object id resolves to the key of a table. -/
theorem mem_keys_of_oidToTable {s : Snapshot Oid} {oid : Option Oid} {key : Str}
    (h : (oidToTable s.relations).get? oid = some key) :
    key ∈ (indexSnapshot s).tables.keys := by
  have hrel : ∃ rel ∈ s.relations, rel.relationOid = oid ∧ rel.key = key :=
    Dict.exists_of_get?_foldl_set h
  obtain ⟨rel, hm, -, hkey⟩ := hrel
  rw [indexSnapshot, keys_tables]
  exact (Dict.mem_keys_foldl_set _ _ _ _ _).mpr (.inr ⟨rel, hm, hkey⟩)

theorem closed_indexSnapshot (s : Snapshot Oid) : (indexSnapshot s).Closed := by
  intro signature fk hfk
  obtain ⟨-, group, hne, rfl⟩ := get?_fks _ hfk
  obtain ⟨edge, hedge⟩ := List.exists_mem_of_ne_nil _ hne
  have hgroup := of_decide_eq_true (List.mem_filter.mp hedge).2
  obtain ⟨child, hchild, hrest⟩ := Option.bind_eq_some_iff.mp hgroup
  obtain ⟨parent, hparent, rfl⟩ := Option.map_eq_some_iff.mp hrest
  exact ⟨mem_keys_of_oidToTable hchild, mem_keys_of_oidToTable hparent⟩

end PgErdCloud.Diff

namespace PgErdCloud.Ddl

open Lib Lib.PyStr Diff

variable (unicode : Unicode) {b t : Index}

/-! ## Nothing to do for one table -/

theorem colType_eq_iff {old col : Col} (hold : ∃ type, old.dataType = some type)
    (hcol : ∃ type, col.dataType = some type) :
    colType unicode .postgresql .postgresql old = colType unicode .postgresql .postgresql col ↔
      old.dataType = col.dataType := by
  obtain ⟨oldType, ho⟩ := hold
  obtain ⟨type, hc⟩ := hcol
  simp [colType, mappedDataType, ho, hc]

theorem alterColumnSql_eq_nil_iff (table : TableName) (name : Str) {old col : Col}
    (hold : ∃ type, old.dataType = some type) (hcol : ∃ type, col.dataType = some type) :
    alterColumnSql unicode .postgresql .postgresql table name old col = [] ↔ old = col := by
  unfold alterColumnSql
  rw [List.append_eq_nil_iff, Col.mk.injEq]
  apply and_congr
  · rw [← colType_eq_iff unicode hold hcol]
    simp
  · simp

/-- A table is left as it is exactly when the diff sees no difference. -/
theorem alterTableSql_eq_nil_iff {bt tt : Table}
    (hbt : ∀ name col, bt.columns.get? name = some col → ∃ type, col.dataType = some type)
    (htt : ∀ name col, tt.columns.get? name = some col → ∃ type, col.dataType = some type) :
    alterTableSql unicode .postgresql .postgresql bt tt = [] ↔ SameTable bt tt := by
  rw [List.eq_nil_iff_forall_not_mem]
  simp only [mem_alterTableSql]
  constructor
  · intro hnone
    refine ⟨fun name => ?_, ?_, ?_⟩
    · cases hb : bt.columns.get? name with
      | none =>
          cases ht : tt.columns.get? name with
          | none => rfl
          | some col =>
              have hnew : name ∉ bt.columns.keys := Dict.get?_eq_none_iff.mp hb
              exact absurd (.inl ⟨name, col, ht, hnew, rfl⟩) (hnone _)
      | some old =>
          cases ht : tt.columns.get? name with
          | none =>
              have hkept : name ∈ bt.columns.keys := Dict.mem_keys_iff.mpr ⟨old, hb⟩
              have hgone : name ∉ tt.columns.keys := Dict.get?_eq_none_iff.mp ht
              exact absurd (.inr (.inl ⟨name, hkept, hgone, rfl⟩)) (hnone _)
          | some col =>
              have hcol : alterColumnSql unicode .postgresql .postgresql (tableName tt) name old
                  col = [] := by
                rw [List.eq_nil_iff_forall_not_mem]
                intro stmt hm
                exact hnone stmt (.inr (.inr (.inl ⟨name, old, col, hb, ht, hm⟩)))
              rw [(alterColumnSql_eq_nil_iff unicode _ _ (hbt name old hb) (htt name col ht)).mp
                hcol]
    · by_contra hne
      exact hnone _ (.inr (.inr (.inr (.inl ⟨hne, rfl⟩))))
    · by_contra hne
      exact hnone _ (.inr (.inr (.inr (.inr ⟨hne, trivial, rfl⟩))))
  · rintro ⟨hcolumns, hpk, hcomment⟩ stmt hm
    rcases hm with ⟨name, col, ht, hb, -⟩ | ⟨name, hb, ht, -⟩ | ⟨name, old, col, hb, ht, hm⟩ |
      ⟨hne, -⟩ | ⟨hne, -⟩
    · rw [← hcolumns] at ht
      exact hb (Dict.mem_keys_iff.mpr ⟨col, ht⟩)
    · obtain ⟨old, hold⟩ := Dict.mem_keys_iff.mp hb
      rw [hcolumns] at hold
      exact ht (Dict.mem_keys_iff.mpr ⟨old, hold⟩)
    · have hsame : old = col := by
        rw [hcolumns, ht, Option.some.injEq] at hb
        exact hb.symm
      rw [(alterColumnSql_eq_nil_iff unicode _ _ (hbt name old (by rw [hcolumns, ht, hsame]))
        (htt name col ht)).mpr hsame] at hm
      exact List.not_mem_nil hm
    · exact hne hpk
    · exact hne hcomment

/-! ## Nothing to do -/

/-- A foreign key between tables that are there has its two ends. -/
theorem exists_fkEndpoints {i : Index} (hclosed : i.Closed) {signature : Str} {fk : Fk}
    (hfk : i.fks.get? signature = some fk) :
    ∃ child parent, fkEndpoints fk i.tables = some (child, parent) := by
  obtain ⟨hchild, hparent⟩ := hclosed signature fk hfk
  obtain ⟨child, hc⟩ := Dict.mem_keys_iff.mp hchild
  obtain ⟨parent, hp⟩ := Dict.mem_keys_iff.mp hparent
  exact ⟨tableName child, tableName parent,
    fkEndpoints_eq_some.mpr ⟨child, parent, hc, hp, rfl, rfl⟩⟩

/-- Every foreign key that is only in the base has a statement, unless it goes with a table. -/
theorem exists_dropFk (hclosed : b.Closed)
    (hkeys : ∀ key, key ∈ b.tables.keys → key ∈ t.tables.keys) {signature : Str}
    (hb : signature ∈ b.fks.keys) (ht : signature ∉ t.fks.keys) :
    ∃ stmt, stmt ∈ migrationStmts unicode .postgresql .postgresql b t := by
  obtain ⟨fk, hfk⟩ := Dict.mem_keys_iff.mp hb
  obtain ⟨child, parent, hends⟩ := exists_fkEndpoints hclosed hfk
  have hkept : dropsWithChild b t fk = false := by
    have hchild := hkeys _ (hclosed signature fk hfk).1
    simp [dropsWithChild, hchild]
  cases hname : fk.name with
  | none =>
      exact ⟨_, (noteUnnamedFk_mem unicode _ _ b t).mpr
        ⟨signature, fk, hfk, ht, hkept, hname, rfl, parent, hends⟩⟩
  | some name =>
      exact ⟨_, (dropConstraint_mem unicode _ _ b t).mpr
        ⟨signature, fk, hfk, ht, hkept, hname, parent, hends⟩⟩

/-- **A migration without statements is one between equal indexes.** -/
theorem migrationStmts_eq_nil_iff (hb : b.Closed) (ht : t.Closed) (hbt : b.TextTyped)
    (htt : t.TextTyped) :
    migrationStmts unicode .postgresql .postgresql b t = [] ↔ SameIndex b t := by
  rw [List.eq_nil_iff_forall_not_mem]
  constructor
  · intro hnone
    have hkept : ∀ key, key ∈ b.tables.keys → key ∈ t.tables.keys := by
      intro key hm
      by_contra hgone
      obtain ⟨bt, hbt⟩ := Dict.mem_keys_iff.mp hm
      exact hnone _ ((dropTable_mem unicode _ _ b t).mpr ⟨key, bt, hbt, hgone, rfl⟩)
    have hold : ∀ key, key ∈ t.tables.keys → key ∈ b.tables.keys := by
      intro key hm
      by_contra hnew
      obtain ⟨tt, htt⟩ := Dict.mem_keys_iff.mp hm
      exact hnone _ ((createTable_mem unicode _ _ b t).mpr ⟨key, tt, htt, hnew, rfl⟩)
    refine ⟨fun key => ⟨hkept key, hold key⟩, ?_, fun signature => ⟨?_, ?_⟩⟩
    · intro key bt tt hbase htarget
      rw [← alterTableSql_eq_nil_iff unicode (fun name col => hbt key bt name col hbase)
        (fun name col => htt key tt name col htarget), List.eq_nil_iff_forall_not_mem]
      intro stmt hm
      have hphase := phase_of_mem_alterTableSql unicode _ _ hm
      exact hnone stmt ((alterTables_mem unicode _ _ b t hphase).mpr
        ⟨key, bt, tt, hbase, htarget, hm⟩)
    · intro hm
      by_contra hgone
      obtain ⟨stmt, hstmt⟩ := exists_dropFk unicode hb hkept hm hgone
      exact hnone stmt hstmt
    · intro hm
      by_contra hnew
      obtain ⟨fk, hfk⟩ := Dict.mem_keys_iff.mp hm
      obtain ⟨child, parent, hends⟩ := exists_fkEndpoints ht hfk
      exact hnone _ ((addForeignKey_mem unicode _ _ b t).mpr
        ⟨signature, fk, hfk, hnew, hends, rfl, rfl, rfl⟩)
  · intro hsame stmt hm
    rw [mem_migrationStmts] at hm
    cases hphase : stmt.phase with
    | dropFks =>
        rw [hphase] at hm
        obtain ⟨e, he, -⟩ := List.mem_filterMap.mp hm
        have hcond := (List.mem_filter.mp he).2
        have hkey := (hsame.fks e.1).mp (List.mem_map_of_mem (List.mem_filter.mp he).1)
        simp [hkey] at hcond
    | dropTables =>
        rw [hphase] at hm
        obtain ⟨e, he, -⟩ := List.mem_map.mp hm
        have hcond := of_decide_eq_true (List.mem_filter.mp he).2
        exact hcond ((hsame.keys e.1).mp (List.mem_map_of_mem (List.mem_filter.mp he).1))
    | createSchemas =>
        rw [hphase] at hm
        obtain ⟨schema, hschema, -⟩ := List.mem_map.mp hm
        rw [mem_sortedStrs, List.mem_dedup] at hschema
        obtain ⟨e, he, -⟩ := List.mem_map.mp (List.mem_filter.mp hschema).1
        have hcond := of_decide_eq_true (List.mem_filter.mp he).2
        exact hcond ((hsame.keys e.1).mpr (List.mem_map_of_mem (List.mem_filter.mp he).1))
    | createTables =>
        rw [hphase] at hm
        obtain ⟨e, he, -⟩ := List.mem_map.mp hm
        have hcond := of_decide_eq_true (List.mem_filter.mp he).2
        exact hcond ((hsame.keys e.1).mpr (List.mem_map_of_mem (List.mem_filter.mp he).1))
    | alterTables =>
        rw [hphase] at hm
        obtain ⟨key, bt, tt, hbase, htarget, hm⟩ :=
          (mem_alterTableStmts unicode _ _ b t).mp hm
        rw [(alterTableSql_eq_nil_iff unicode (fun name col => hbt key bt name col hbase)
          (fun name col => htt key tt name col htarget)).mpr
          (hsame.tables key bt tt hbase htarget)] at hm
        exact List.not_mem_nil hm
    | addFks =>
        rw [hphase] at hm
        obtain ⟨e, he, -⟩ := List.mem_filterMap.mp hm
        have hcond := of_decide_eq_true (List.mem_filter.mp he).2
        exact hcond ((hsame.fks e.1).mpr (List.mem_map_of_mem (List.mem_filter.mp he).1))

variable {Oid Oid' : Type} [DecidableEq Oid] [DecidableEq Oid']

/-- The text is the marker exactly when there are no statements. -/
theorem snapshotDiffToMigrationSql_eq_marker_iff (base : Snapshot Oid) (target : Snapshot Oid')
    {targetDialect : Str} {dialect : Dialect}
    (hdialect : normalizeDialect unicode targetDialect = .ok dialect) :
    snapshotDiffToMigrationSql unicode base target targetDialect =
        .ok "-- No schema changes.\n".toList ↔
      snapshotDiffStmts unicode base target dialect = [] := by
  unfold snapshotDiffToMigrationSql
  rw [hdialect]
  show (if snapshotDiffStmts unicode base target dialect = [] then _ else _ : Except Str Str) =
    _ ↔ _
  split_ifs with h
  · exact iff_of_true rfl h
  · refine iff_of_false (fun he => ?_) h
    -- the texts differ in their fourth character
    have htext := Except.ok.inj he
    simp at htext

/-- **Diff and migration agree on "nothing to do".** The migration to PostgreSQL of two
    PostgreSQL snapshots is the marker exactly when the diff reports no change. -/
theorem marker_iff_no_changes (base : Snapshot Oid) (target : Snapshot Oid')
    (hbase : base.TextTyped) (htarget : target.TextTyped)
    (hsource : snapshotSourceDialect unicode target = .postgresql) {targetDialect : Str}
    (hdialect : normalizeDialect unicode targetDialect = .ok .postgresql) :
    snapshotDiffToMigrationSql unicode base target targetDialect =
        .ok "-- No schema changes.\n".toList ↔
      (diffSnapshots base target).summary.hasChanges = false := by
  rw [snapshotDiffToMigrationSql_eq_marker_iff unicode base target hdialect, snapshotDiffStmts,
    hsource, diffSnapshots, hasChanges_eq_false_iff]
  exact migrationStmts_eq_nil_iff unicode (closed_indexSnapshot base) (closed_indexSnapshot target)
    hbase.index htarget.index

/-- `marker_iff_no_changes` for a snapshot and one with another type, without a primary key and
    with a foreign key more. -/
theorem marker_iff_no_changes_at_altered :
    snapshotDiffToMigrationSql asciiUnicode oneTable altered "pg".toList =
        .ok "-- No schema changes.\n".toList ↔
      (diffSnapshots oneTable altered).summary.hasChanges = false :=
  marker_iff_no_changes asciiUnicode oneTable altered (by simp [Snapshot.TextTyped, oneTable])
    (by simp [Snapshot.TextTyped, altered]) rfl rfl

end PgErdCloud.Ddl
