/-
  Which statements a PostgreSQL script has, and what they create. The tables are written in
  the order of their rows; a row is one `CREATE TABLE`, which may need the parent's.
-/
import PgErdCloud.Ddl.Export
import PgErdCloud.Lib.Script

namespace PgErdCloud.Ddl

open Lib Lib.PyStr Diff

/-! ## What a statement creates and needs -/

/-- The table of a `CREATE TABLE`. -/
def ExportStmt.creates : ExportStmt → Set TableName
  | .createTable table _ _ _ | .createPartition table _ _ _ _ => {table}
  | _ => ∅

/-- The parent of a `CREATE TABLE … PARTITION OF`. -/
def ExportStmt.needsParent : ExportStmt → Set TableName
  | .createPartition _ parent _ _ _ => {parent}
  | _ => ∅

/-- The table of an `ALTER TABLE … ADD CONSTRAINT` or a `CREATE INDEX`. -/
def ExportStmt.needsTable : ExportStmt → Set TableName
  | .addConstraint table _ _ => {table}
  | .createIndex table _ _ _ => {t | table = some t}
  | _ => ∅

/-! ## The parts of a script -/

section
variable (unicode : Unicode) (s : ExportSnapshot)

theorem mem_renderSchemas {tables : List ExportRelation} {stmt : ExportStmt}
    (h : stmt ∈ renderSchemas tables) : stmt = .blank ∨ ∃ schema, stmt = .createSchema schema := by
  unfold renderSchemas at h
  rcases List.mem_append.mp h with h | h
  · obtain ⟨schema, -, rfl⟩ := List.mem_map.mp h
    exact .inr ⟨schema, rfl⟩
  · split_ifs at h
    · exact .inl (List.mem_singleton.mp h)
    · exact absurd h List.not_mem_nil

theorem mem_renderForeignKeys {constraints : List ExportConstraint} {stmt : ExportStmt} :
    stmt ∈ renderForeignKeys constraints →
      stmt = .blank ∨ stmt = .foreignKeysHeading ∨
      ∃ con ∈ constraints, con.constraintType = some "f".toList ∧ ∃ table name definition,
        tableOfRow con.schemaName con.relationName = some table ∧
        con.defined = some (name, definition) ∧ stmt = .addConstraint table name definition := by
  intro h
  unfold renderForeignKeys at h
  simp only at h
  split_ifs at h
  · exact absurd h List.not_mem_nil
  · simp only [List.cons_append, List.mem_cons, List.mem_append, List.mem_filterMap,
      List.mem_filter, decide_eq_true_eq, List.not_mem_nil, or_false] at h
    rcases h with rfl | ⟨con, ⟨hcon, htype⟩, hstmt⟩ | rfl
    · exact .inr (.inl rfl)
    · refine .inr (.inr ⟨con, hcon, htype, ?_⟩)
      cases htable : tableOfRow con.schemaName con.relationName with
      | none => simp [htable] at hstmt
      | some table =>
          cases hdef : con.defined with
          | none => simp [htable, hdef] at hstmt
          | some d =>
              obtain ⟨name, definition⟩ := d
              simp only [htable, hdef, Option.some.injEq] at hstmt
              exact ⟨table, name, definition, rfl, rfl, hstmt.symm⟩
    · exact .inl rfl

theorem mem_renderIndexesPg {indexes : List ExportIndex} {stmt : ExportStmt} :
    stmt ∈ renderIndexesPg unicode indexes ↔
      (indexes ≠ [] ∧ stmt = .indexesHeading .postgresql) ∨
      ∃ ix ∈ indexes, renderIndexPg unicode ix = some stmt := by
  unfold renderIndexesPg
  rw [List.mem_append, List.mem_filterMap]
  by_cases h : indexes = []
  · simp [h]
  · simp [h]

/-- The statement of an index row, if it has a definition. -/
theorem renderIndexPg_eq_some {ix : ExportIndex} {stmt : ExportStmt}
    (h : renderIndexPg unicode ix = some stmt) : ∃ definition tablespace,
      stmt = .createIndex (tableOfRow ix.tableSchemaName ix.tableName) ix.indexName definition
        tablespace := by
  obtain ⟨indexDef, -, rfl⟩ := Option.map_eq_some_iff.mp h
  exact ⟨_, _, rfl⟩

/-- What a row of a table creates. -/
def ExportRelation.creates (rel : ExportRelation) : Set TableName :=
  {table | tableOfRow rel.schemaName rel.relationName = some table ∧ rel.relationOid ≠ none}

/-- The parent that a row of a table needs. -/
def ExportRelation.needsParent (rel : ExportRelation) : Set TableName :=
  {parent | tableOfRow rel.schemaName rel.relationName ≠ none ∧ rel.relationOid ≠ none ∧
    ∃ bound, rel.partitionOf = some (parent, bound)}

/-- A row is written as a partition, as a table of its own, or not at all. -/
theorem renderTablePg_cases (rel : ExportRelation) :
    (renderTablePg unicode s rel = [] ∧ rel.creates = ∅ ∧ rel.needsParent = ∅) ∨
    (∃ table parent bound, rel.partitionOf = some (parent, bound) ∧
      renderTablePg unicode s rel =
        [.createPartition table parent bound rel.partitionKey rel.tablespaceName, .blank] ∧
      rel.creates = {table} ∧ rel.needsParent = {parent}) ∨
    ∃ table oid notes, rel.partitionOf = none ∧
      (∀ note ∈ notes, note = .notePartitioned table) ∧
      renderTablePg unicode s rel = notes ++
        [.createTable table
            (renderTableColumns unicode s oid .postgresql ++
              renderTableConstraintsPg s.constraints oid)
            (if rel.relationKind = some "p".toList then rel.partitionKey else none)
            rel.tablespaceName,
          .blank] ∧
      rel.relationOid = some oid ∧ rel.creates = {table} ∧ rel.needsParent = ∅ := by
  unfold renderTablePg ExportRelation.creates ExportRelation.needsParent
  cases htable : tableOfRow rel.schemaName rel.relationName with
  | none =>
      refine .inl ⟨rfl, ?_, ?_⟩
      · simp
      · simp
  | some table =>
      cases hoid : rel.relationOid with
      | none =>
          refine .inl ⟨rfl, ?_, ?_⟩
          · simp
          · simp
      | some oid =>
          cases hpart : rel.partitionOf with
          | some p =>
              obtain ⟨parent, bound⟩ := p
              refine .inr (.inl ⟨table, parent, bound, rfl, rfl, ?_, ?_⟩)
              · ext t
                simp [eq_comm]
              · ext t
                simp [eq_comm]
          | none =>
              refine .inr (.inr ⟨table, oid, _, rfl, ?_, rfl, rfl, ?_, ?_⟩)
              · intro note hm
                split_ifs at hm
                · exact List.mem_singleton.mp hm
                · exact absurd hm List.not_mem_nil
              · ext t
                simp [eq_comm]
              · ext t
                simp

theorem created_renderTablePg (rel : ExportRelation) :
    created ExportStmt.creates (renderTablePg unicode s rel) = rel.creates := by
  rcases renderTablePg_cases unicode s rel with ⟨hstmts, hcreates, -⟩ |
    ⟨table, parent, bound, -, hstmts, hcreates, -⟩ |
    ⟨table, oid, notes, -, hnotes, hstmts, -, hcreates, -⟩
  · rw [hstmts, hcreates, created_nil]
  · rw [hstmts, hcreates]
    simp [ExportStmt.creates]
  · have hnone : created ExportStmt.creates notes = ∅ := by
      ext t
      simp only [created, Set.mem_ofPred_eq, Set.mem_empty_iff_false, iff_false]
      rintro ⟨note, hm, ht⟩
      rw [hnotes note hm] at ht
      exact ht
    rw [hstmts, hcreates, created_append, hnone]
    simp [ExportStmt.creates]

/-- A row's statements are in order if its parent is there. -/
theorem ordered_renderTablePg (rel : ExportRelation) (seen : Set TableName) :
    Ordered ExportStmt.creates ExportStmt.needsParent seen (renderTablePg unicode s rel) ↔
      rel.needsParent ⊆ seen := by
  rcases renderTablePg_cases unicode s rel with ⟨hstmts, -, hneeds⟩ |
    ⟨table, parent, bound, -, hstmts, -, hneeds⟩ |
    ⟨table, oid, notes, -, hnotes, hstmts, -, -, hneeds⟩
  · rw [hstmts, hneeds]
    simp [Ordered]
  · rw [hstmts, hneeds]
    simp [Ordered, ExportStmt.needsParent]
  · rw [hstmts, hneeds]
    refine iff_of_true (ordered_of_subset _ _ _ fun stmt hm => ?_) (Set.empty_subset seen)
    have hempty : stmt.needsParent = ∅ := by
      rcases List.mem_append.mp hm with hm | hm
      · rw [hnotes stmt hm]
        rfl
      · simp only [List.mem_cons, List.not_mem_nil, or_false] at hm
        rcases hm with rfl | rfl
        · rfl
        · rfl
    rw [hempty]
    exact Set.empty_subset seen

/-- A script creates the tables of its rows. -/
theorem created_tables (rows : List ExportRelation) :
    created ExportStmt.creates (rows.flatMap (renderTablePg unicode s)) =
      created ExportRelation.creates rows := by
  induction rows with
  | nil => simp
  | cons rel rows ih =>
      rw [List.flatMap_cons, created_append, ih, created_renderTablePg, created_cons]

/-- The parts around the tables. -/
theorem postgresqlStmts_split : ∃ first last,
    postgresqlStmts unicode s =
      first ++ (snapshotTables s).flatMap (renderTablePg unicode s) ++ last ∧
    (∀ stmt ∈ first, stmt = .header .postgresql ∨ stmt = .blank ∨
      ∃ schema, stmt = .createSchema schema) ∧
    last = renderForeignKeys s.constraints ++ renderIndexesPg unicode s.indexes ++ [.blank] := by
  refine ⟨[.header .postgresql] ++ renderSchemas (snapshotTables s), _, ?_, ?_, rfl⟩
  · simp only [postgresqlStmts, List.append_assoc]
  · intro stmt hm
    rcases List.mem_append.mp hm with hm | hm
    · exact .inl (List.mem_singleton.mp hm)
    · exact .inr (mem_renderSchemas hm)

/-- A `CREATE TABLE` of its own comes from a row that is no partition. -/
theorem exists_row_of_createTable {table : TableName} {defs : List TableDef}
    {key tablespace : Option Str}
    (h : .createTable table defs key tablespace ∈ postgresqlStmts unicode s) :
    ∃ rel ∈ snapshotTables s, rel.partitionOf = none ∧ table ∈ rel.creates := by
  obtain ⟨first, last, hstmts, hfirst, rfl⟩ := postgresqlStmts_split unicode s
  rw [hstmts, List.mem_append, List.mem_append] at h
  rcases h with (h | h) | h
  · rcases hfirst _ h with h | h | ⟨schema, h⟩
    · exact absurd h (by simp)
    · exact absurd h (by simp)
    · exact absurd h (by simp)
  · obtain ⟨rel, hrel, hm⟩ := List.mem_flatMap.mp h
    rcases renderTablePg_cases unicode s rel with ⟨hnil, -⟩ | ⟨_, _, _, -, hpart, -⟩ |
      ⟨t, _, notes, hnone, hnotes, htable, -, hcreates, -⟩
    · rw [hnil] at hm
      exact absurd hm List.not_mem_nil
    · rw [hpart] at hm
      simp at hm
    · rw [htable, List.mem_append] at hm
      rcases hm with hm | hm
      · exact absurd (hnotes _ hm) (by simp)
      · simp only [List.mem_cons, List.not_mem_nil, or_false, reduceCtorEq,
          ExportStmt.createTable.injEq] at hm
        refine ⟨rel, hrel, hnone, ?_⟩
        rw [hcreates, hm.1]
        exact Set.mem_singleton _
  · rcases List.mem_append.mp h with h | h
    · rcases List.mem_append.mp h with h | h
      · rcases mem_renderForeignKeys h with h | h | ⟨_, _, _, _, _, _, _, _, h⟩
        · exact absurd h (by simp)
        · exact absurd h (by simp)
        · exact absurd h (by simp)
      · rcases (mem_renderIndexesPg unicode).mp h with ⟨-, h⟩ | ⟨ix, -, hix⟩
        · exact absurd h (by simp)
        · obtain ⟨definition, ts, h⟩ := renderIndexPg_eq_some unicode hix
          exact absurd h (by simp)
    · exact absurd (List.mem_singleton.mp h) (by simp)

/-- A row that is no partition is written with its constraints. -/
theorem createTable_mem_postgresqlStmts {rel : ExportRelation} (hrel : rel ∈ snapshotTables s)
    (hpart : rel.partitionOf = none) {table : TableName}
    (htable : tableOfRow rel.schemaName rel.relationName = some table) {oid : Int}
    (hoid : rel.relationOid = some oid) : ∃ key tablespace,
      .createTable table (renderTableColumns unicode s oid .postgresql ++
        renderTableConstraintsPg s.constraints oid) key tablespace ∈ postgresqlStmts unicode s := by
  obtain ⟨first, last, hstmts, -, -⟩ := postgresqlStmts_split unicode s
  refine ⟨if rel.relationKind = some "p".toList then rel.partitionKey else none,
    rel.tablespaceName, ?_⟩
  rw [hstmts]
  refine List.mem_append_left _ (List.mem_append_right _ (List.mem_flatMap.mpr ⟨rel, hrel, ?_⟩))
  unfold renderTablePg
  simp only [htable, hoid, hpart]
  exact List.mem_append_right _ List.mem_cons_self

/-- The constraints of a table's rows stand between its parentheses. -/
theorem mem_renderTableConstraintsPg {constraints : List ExportConstraint}
    {con : ExportConstraint} (hcon : con ∈ constraints) {oid : Int}
    (hoid : con.relationOid = some oid)
    (htype : con.constraintType ∈ [some "p".toList, some "u".toList, some "c".toList])
    {name definition : Str} (hdef : con.defined = some (name, definition)) :
    .constraint name definition ∈ renderTableConstraintsPg constraints oid := by
  unfold renderTableConstraintsPg groupByRelation
  rw [List.mem_filterMap]
  refine ⟨con, List.mem_filter.mpr ⟨hcon, decide_eq_true hoid⟩, ?_⟩
  rw [if_pos htype, hdef]
  rfl

/-- An index row with a definition is written. -/
theorem createIndex_mem_postgresqlStmts {ix : ExportIndex} (hix : ix ∈ s.indexes)
    {indexDef : Str} (hdef : ix.indexDef = some indexDef) : ∃ definition tablespace,
      .createIndex (tableOfRow ix.tableSchemaName ix.tableName) ix.indexName definition tablespace ∈
        postgresqlStmts unicode s := by
  obtain ⟨first, last, hstmts, -, rfl⟩ := postgresqlStmts_split unicode s
  have hstmt : ∃ stmt, renderIndexPg unicode ix = some stmt := by
    unfold renderIndexPg
    rw [hdef]
    exact ⟨_, rfl⟩
  obtain ⟨stmt, hstmt⟩ := hstmt
  obtain ⟨definition, tablespace, rfl⟩ := renderIndexPg_eq_some unicode hstmt
  refine ⟨definition, tablespace, ?_⟩
  rw [hstmts]
  exact List.mem_append_right _ (List.mem_append_left _ (List.mem_append_right _
    ((mem_renderIndexesPg unicode).mpr (.inr ⟨ix, hix, hstmt⟩))))

end

end PgErdCloud.Ddl
