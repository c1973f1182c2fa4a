/-
  Where the names of a snapshot stand in the generated SQL: in the scripts of both exporters
  and in the migration. The statements are well spaced, so their names are identifiers; the
  notes are comments to the end of the line, and their names stay in them exactly when they
  have no line break.
-/
import PgErdCloud.Ddl.Containment
import PgErdCloud.Ddl.ExportFacts
import PgErdCloud.Ddl.MigrationFacts
import PgErdCloud.Diff.Logical

namespace PgErdCloud.Ddl

open Lib Lib.PyStr LexState Diff

/-! ## Statements of the exporters -/

theorem spaced_tablespaceClause (tablespace : Option Str) :
    spaced false (tablespaceClause tablespace) = true := by
  cases tablespace with
  | none => rfl
  | some name => rfl

theorem spaced_partitionClause (key : Option Str) :
    spaced false (partitionClause key) = true := by
  cases key with
  | none => rfl
  | some key => rfl

/-- Lines with separators between them. -/
theorem spaced_intercalate {separator : Piece}
    (hseparator : ∀ pieces, spaced false (separator :: pieces) = spaced true pieces)
    {lines : List (List Piece)} (h : ∀ line ∈ lines, spaced true line = true) :
    spaced true ([separator].intercalate lines) = true := by
  induction lines with
  | nil => rfl
  | cons line lines ih =>
      have hline := h line List.mem_cons_self
      have hrest := ih fun l hl => h l (List.mem_cons_of_mem _ hl)
      cases lines with
      | nil => simpa [List.intercalate] using hline
      | cons next lines =>
          rw [intercalate_cons_cons]
          apply spaced_append hline
          rw [hseparator]
          exact hrest

theorem spaced_namePieces (names : List Str) : spaced true (namePieces names) = true := by
  unfold namePieces
  apply spaced_intercalate
  · intro pieces
    rfl
  · intro line hline
    obtain ⟨name, -, rfl⟩ := List.mem_map.mp hline
    rfl

theorem spaced_tableDef (d : TableDef) : spaced true d.pieces = true := by
  cases d with
  | column name type default isNotNull =>
      cases default with
      | none => cases isNotNull <;> rfl
      | some expr => cases isNotNull <;> rfl
  | constraint name definition => rfl
  | keyConstraint name isPrimary columns =>
      have hlist : spaced true (namePieces columns ++ [sql ")"]) = true :=
        spaced_append (spaced_namePieces columns) rfl
      cases isPrimary with
      | false => exact hlist
      | true => exact hlist

theorem spaced_defsPieces (defs : List TableDef) : spaced true (defsPieces defs) = true := by
  unfold defsPieces
  apply spaced_intercalate
  · intro pieces
    rfl
  · intro line hline
    obtain ⟨d, -, rfl⟩ := List.mem_map.mp hline
    exact spaced_tableDef d

/-- The names in a note. -/
def ExportStmt.commentNames : ExportStmt → List Str
  | .notePartitioned table | .noteSkippedPartition table => [table.schema, table.name]
  | .noteSkippedCheck name table | .noteSkippedTablespace name table | .noteIndex name table =>
      [name, table.schema, table.name]
  | _ => []

/-- The names of a table in a note, before a last text. -/
theorem namesUnbroken_table (table : TableName) (text : String) :
    NamesUnbroken (tablePieces table ++ [sql text]) ↔
      ∀ name ∈ [table.schema, table.name], Unbroken name := by
  unfold tablePieces
  rw [List.cons_append, List.cons_append, List.cons_append, List.nil_append,
    namesUnbroken_cons_some rfl, namesUnbroken_cons_sql, namesUnbroken_cons_some rfl,
    namesUnbroken_cons_sql, List.forall_mem_cons, List.forall_mem_cons]
  simp [namesUnbroken_nil]

theorem inNote_table (table : TableName) {text : String} (h : Unbroken text.toList) :
    ∀ piece ∈ tablePieces table ++ [sql text], piece.inNote = true := by
  unfold tablePieces
  simp only [List.cons_append, List.nil_append, List.forall_mem_cons]
  exact ⟨rfl, rfl, rfl, decide_eq_true h, fun _ hm => absurd hm List.not_mem_nil⟩

/-- A note about a table. -/
theorem lineSpec_noteTable (table : TableName) {first last : String}
    (hfirst : lex .base first.toList = .lineComment) (hlast : Unbroken last.toList) :
    LineSpec (sql first :: tablePieces table ++ [sql last])
      (∀ name ∈ [table.schema, table.name], Unbroken name) := by
  rw [← namesUnbroken_table table last]
  exact lineSpec_note hfirst (inNote_table table hlast)

/-- A note about something of a table. -/
theorem lineSpec_noteNamed (name : Str) (table : TableName) {first last : String}
    (hfirst : lex .base first.toList = .lineComment) (hlast : Unbroken last.toList) :
    LineSpec ([sql first, .name name, sql " on "] ++ tablePieces table ++ [sql last])
      (∀ n ∈ [name, table.schema, table.name], Unbroken n) := by
  have hnames : NamesUnbroken (.name name :: sql " on " :: (tablePieces table ++ [sql last])) ↔
      ∀ n ∈ [name, table.schema, table.name], Unbroken n := by
    rw [namesUnbroken_cons_some rfl, namesUnbroken_cons_sql, namesUnbroken_table]
    exact List.forall_mem_cons.symm
  rw [← hnames]
  have hrest : ∀ piece ∈ Piece.name name :: sql " on " :: (tablePieces table ++ [sql last]),
      piece.inNote = true := by
    rw [List.forall_mem_cons, List.forall_mem_cons]
    exact ⟨rfl, rfl, inNote_table table hlast⟩
  exact lineSpec_note hfirst hrest

/-- **A line of an export** is well-spaced SQL or a note. -/
theorem ExportStmt.lineSpec (stmt : ExportStmt)
    (hfragments : ∀ text, .fragment text ∈ stmt.pieces → SelfContained text) :
    LineSpec stmt.pieces (∀ name ∈ stmt.commentNames, Unbroken name) := by
  have htrue : ∀ pieces : List Piece, LineSpec pieces True →
      LineSpec pieces (∀ name ∈ ([] : List Str), Unbroken name) := by
    intro pieces h
    simpa using h
  cases stmt with
  | header target =>
      cases target with
      | postgresql => exact htrue _ (lineSpec_text rfl)
      | snowflake => exact htrue _ (lineSpec_text rfl)
  | blank => exact htrue _ lineSpec_blank
  | createSchema schema => exact htrue _ (lineSpec_code rfl hfragments)
  | notePartitioned table => exact lineSpec_noteTable table rfl (by decide)
  | createTable table defs partitionKey tablespace =>
      have hopen : spaced true (sql "CREATE TABLE IF NOT EXISTS " :: tablePieces table ++
          [sql " ("] ++ defsPieces defs) = true := spaced_defsPieces defs
      exact htrue _ (lineSpec_code (spaced_append (spaced_append (spaced_append
        (spaced_append hopen rfl) (spaced_partitionClause partitionKey))
        (spaced_tablespaceClause tablespace)) rfl) hfragments)
  | createPartition table parent bound partitionKey tablespace =>
      have hopen : spaced true (sql "CREATE TABLE IF NOT EXISTS " :: tablePieces table ++
          [sql " PARTITION OF "] ++ tablePieces parent ++ [sql " ", .fragment bound]) = true := rfl
      exact htrue _ (lineSpec_code (spaced_append (spaced_append (spaced_append hopen
        (spaced_partitionClause partitionKey)) (spaced_tablespaceClause tablespace)) rfl)
        hfragments)
  | foreignKeysHeading => exact htrue _ (lineSpec_text rfl)
  | addConstraint table name definition => exact htrue _ (lineSpec_code rfl hfragments)
  | indexesHeading target =>
      cases target with
      | postgresql => exact htrue _ (lineSpec_text rfl)
      | snowflake => exact htrue _ (lineSpec_text rfl)
  | createIndex table name definition tablespace =>
      have hopen : spaced true [.fragment definition] = true := rfl
      exact htrue _ (lineSpec_code (spaced_append (spaced_append hopen
        (spaced_tablespaceClause tablespace)) rfl) hfragments)
  | noteSkippedCheck name table => exact lineSpec_noteNamed name table rfl (by decide)
  | noteSkippedTablespace name table => exact lineSpec_noteNamed name table rfl (by decide)
  | noteSkippedPartition table => exact lineSpec_noteTable table rfl (by decide)
  | noteIndex name table => exact lineSpec_noteNamed name table rfl (by decide)
  | noteIndexMetadata => exact htrue _ (lineSpec_text rfl)

/-! ## Scripts of the exporters -/

section
variable (unicode : Unicode) (s : ExportSnapshot)

/-- The pieces of a script. -/
def exportPieces (target : Dialect) : List Piece :=
  scriptPieces ((exportStmts unicode s target).map ExportStmt.pieces)

theorem piecesText_exportPieces (target : Dialect) :
    piecesText (exportPieces unicode s target) = exportText (exportStmts unicode s target) := by
  unfold exportPieces exportText
  rw [piecesText_scriptPieces, List.map_map]
  rfl

theorem contained_exportPieces {target : Dialect}
    (hfragments : ∀ text, .fragment text ∈ exportPieces unicode s target → SelfContained text) :
    Contained (exportPieces unicode s target) ↔
      NotesUnbroken ExportStmt.commentNames (exportStmts unicode s target) := by
  rw [contained_iff]
  refine containedFrom_script (fun stmt hstmt => stmt.lineSpec fun text htext => ?_) (by simp)
  exact hfragments text (mem_scriptPieces (List.mem_map_of_mem hstmt) htext)

theorem notesUnbroken_renderSchemas (tables : List ExportRelation) :
    NotesUnbroken ExportStmt.commentNames (renderSchemas tables) := by
  apply notesUnbroken_of_none
  intro stmt hm
  rcases mem_renderSchemas hm with rfl | ⟨schema, rfl⟩
  · rfl
  · rfl

theorem notesUnbroken_renderForeignKeys (constraints : List ExportConstraint) :
    NotesUnbroken ExportStmt.commentNames (renderForeignKeys constraints) := by
  apply notesUnbroken_of_none
  intro stmt hm
  rcases mem_renderForeignKeys hm with rfl | rfl | ⟨_, _, _, _, _, _, _, _, rfl⟩
  · rfl
  · rfl
  · rfl

theorem notesUnbroken_renderIndexesPg (indexes : List ExportIndex) :
    NotesUnbroken ExportStmt.commentNames (renderIndexesPg unicode indexes) := by
  apply notesUnbroken_of_none
  intro stmt hm
  rcases (mem_renderIndexesPg unicode).mp hm with ⟨-, rfl⟩ | ⟨ix, -, hix⟩
  · rfl
  · obtain ⟨definition, tablespace, rfl⟩ := renderIndexPg_eq_some unicode hix
    rfl

/-- No line break in the names of a table. -/
def TableUnbroken (table : TableName) : Prop := Unbroken table.schema ∧ Unbroken table.name

instance (table : TableName) : Decidable (TableUnbroken table) :=
  inferInstanceAs (Decidable (_ ∧ _))

theorem namedUnbroken_iff (name : Str) (table : TableName) :
    (∀ n ∈ [name, table.schema, table.name], Unbroken n) ↔
      Unbroken name ∧ TableUnbroken table := by
  simp [TableUnbroken]

/-- The PostgreSQL exporter writes the names of a table in a comment: of a partitioned table
    without a partition key. -/
def PostgresqlNotesUnbroken : Prop :=
  ∀ rel ∈ snapshotTables s, ∀ table,
    tableOfRow rel.schemaName rel.relationName = some table → rel.relationOid ≠ none →
    rel.partitionOf = none → rel.relationKind = some "p".toList → rel.partitionKey = none →
      TableUnbroken table

theorem notesUnbroken_renderTablePg (rel : ExportRelation) :
    NotesUnbroken ExportStmt.commentNames (renderTablePg unicode s rel) ↔
      ∀ table, tableOfRow rel.schemaName rel.relationName = some table →
        rel.relationOid ≠ none → rel.partitionOf = none →
        rel.relationKind = some "p".toList → rel.partitionKey = none → TableUnbroken table := by
  unfold renderTablePg
  cases htable : tableOfRow rel.schemaName rel.relationName with
  | none => simp [NotesUnbroken]
  | some table =>
      cases hoid : rel.relationOid with
      | none => simp [NotesUnbroken]
      | some oid =>
          cases hpart : rel.partitionOf with
          | some p => simp [NotesUnbroken, ExportStmt.commentNames]
          | none =>
              rw [notesUnbroken_append]
              have htable : NotesUnbroken ExportStmt.commentNames [.createTable table
                  (renderTableColumns unicode s oid .postgresql ++
                    renderTableConstraintsPg s.constraints oid)
                  (if rel.relationKind = some "p".toList then rel.partitionKey else none)
                  rel.tablespaceName, .blank] := by
                simp [NotesUnbroken, ExportStmt.commentNames]
              rw [and_iff_left htable]
              split_ifs with h
              · simp [NotesUnbroken, h, ExportStmt.commentNames, TableUnbroken]
              · have hrest : rel.relationKind = some "p".toList → rel.partitionKey ≠ none :=
                  fun hkind hkey => h ⟨hkind, hkey⟩
                refine iff_of_true (notesUnbroken_of_none fun _ hm => absurd hm List.not_mem_nil) ?_
                intro _ _ _ _ hkind hkey
                exact absurd hkey (hrest hkind)

theorem postgresqlNotes_iff :
    NotesUnbroken ExportStmt.commentNames (postgresqlStmts unicode s) ↔
      PostgresqlNotesUnbroken s := by
  unfold postgresqlStmts PostgresqlNotesUnbroken
  simp only [notesUnbroken_append, notesUnbroken_flatMap, notesUnbroken_renderTablePg,
    notesUnbroken_renderSchemas, notesUnbroken_renderForeignKeys, notesUnbroken_renderIndexesPg,
    and_true]
  have hends : NotesUnbroken ExportStmt.commentNames [.header .postgresql] ∧
      NotesUnbroken ExportStmt.commentNames [.blank] := by
    simp [NotesUnbroken, ExportStmt.commentNames]
  rw [and_iff_right hends.1, and_iff_left hends.2]

/-- The Snowflake exporter writes names in comments: of checks, tablespaces, partitions, and
    indexes. -/
def SnowflakeNotesUnbroken : Prop :=
  (∀ rel ∈ snapshotTables s, ∀ table oid,
    tableOfRow rel.schemaName rel.relationName = some table → rel.relationOid = some oid →
      (∀ con ∈ s.constraints, con.relationOid = some oid → con.constraintType = some "c".toList →
        ∀ d, con.defined = some d → Unbroken d.1 ∧ TableUnbroken table) ∧
      (∀ tablespace, rel.tablespaceName = some tablespace →
        Unbroken tablespace ∧ TableUnbroken table) ∧
      (rel.relationKind = some "p".toList ∨ rel.isPartition = true → TableUnbroken table)) ∧
  ∀ ix ∈ s.indexes, ∀ name table, ix.indexName = some name →
    tableOfRow ix.tableSchemaName ix.tableName = some table → Unbroken name ∧ TableUnbroken table

theorem mem_skippedChecks {constraints : List ExportConstraint} {name : Str} :
    name ∈ skippedChecks constraints ↔ ∃ con ∈ constraints,
      con.constraintType = some "c".toList ∧ ∃ d, con.defined = some d ∧ d.1 = name := by
  unfold skippedChecks
  rw [List.mem_filterMap]
  apply exists_congr
  intro con
  apply and_congr_right
  intro _
  split_ifs with h
  · rw [and_iff_right h, Option.map_eq_some_iff]
  · exact iff_of_false (by simp) fun hcon => h hcon.1

theorem notesUnbroken_renderTableSnowflake (rel : ExportRelation) :
    NotesUnbroken ExportStmt.commentNames (renderTableSnowflake unicode s rel) ↔
      ∀ table oid, tableOfRow rel.schemaName rel.relationName = some table →
        rel.relationOid = some oid →
          (∀ con ∈ s.constraints, con.relationOid = some oid →
            con.constraintType = some "c".toList →
              ∀ d, con.defined = some d → Unbroken d.1 ∧ TableUnbroken table) ∧
          (∀ tablespace, rel.tablespaceName = some tablespace →
            Unbroken tablespace ∧ TableUnbroken table) ∧
          (rel.relationKind = some "p".toList ∨ rel.isPartition = true →
            TableUnbroken table) := by
  unfold renderTableSnowflake
  cases htable : tableOfRow rel.schemaName rel.relationName with
  | none => simp [NotesUnbroken]
  | some table =>
      cases hoid : rel.relationOid with
      | none => simp [NotesUnbroken]
      | some oid =>
          have hchecks : NotesUnbroken ExportStmt.commentNames ((skippedChecks
              (groupByRelation ExportConstraint.relationOid s.constraints oid)).map
                (.noteSkippedCheck · table)) ↔
              ∀ con ∈ s.constraints, con.relationOid = some oid →
                con.constraintType = some "c".toList →
                  ∀ d, con.defined = some d → Unbroken d.1 ∧ TableUnbroken table := by
            unfold NotesUnbroken
            rw [List.forall_mem_map]
            simp only [ExportStmt.commentNames, namedUnbroken_iff, mem_skippedChecks,
              groupByRelation, List.mem_filter, decide_eq_true_eq]
            constructor
            · intro h con hcon hoid htype d hd
              exact h d.1 ⟨con, ⟨hcon, hoid⟩, htype, d, hd, rfl⟩
            · rintro h name ⟨con, ⟨hcon, hoid⟩, htype, d, hd, rfl⟩
              exact h con hcon hoid htype d hd
          have htablespace : NotesUnbroken ExportStmt.commentNames
              (rel.tablespaceName.map (.noteSkippedTablespace · table)).toList ↔
              ∀ tablespace, rel.tablespaceName = some tablespace →
                Unbroken tablespace ∧ TableUnbroken table := by
            unfold NotesUnbroken
            simp [ExportStmt.commentNames, TableUnbroken]
          have hpartition : NotesUnbroken ExportStmt.commentNames
              (if rel.relationKind = some "p".toList ∨ rel.isPartition then
                [.noteSkippedPartition table] else []) ↔
              (rel.relationKind = some "p".toList ∨ rel.isPartition = true →
                TableUnbroken table) := by
            unfold NotesUnbroken
            split_ifs with h
            · rw [forall_prop_of_true h]
              simp [ExportStmt.commentNames, TableUnbroken]
            · exact iff_of_true (fun _ hm => absurd hm List.not_mem_nil) fun hn => absurd hn h
          have hends (defs : List TableDef) :
              NotesUnbroken ExportStmt.commentNames [.createTable table defs none none] ∧
                NotesUnbroken ExportStmt.commentNames [.blank] := by
            simp [NotesUnbroken, ExportStmt.commentNames]
          simp only [notesUnbroken_append, hchecks, htablespace, hpartition]
          rw [and_iff_left (hends []).2, and_iff_right (hends _).1, and_assoc]
          constructor
          · rintro h t o ht ho
            obtain rfl := Option.some.inj ht
            obtain rfl := Option.some.inj ho
            exact h
          · intro h
            exact h table oid rfl rfl

theorem notesUnbroken_renderIndexesSnowflake (indexes : List ExportIndex) :
    NotesUnbroken ExportStmt.commentNames (renderIndexesSnowflake indexes) ↔
      ∀ ix ∈ indexes, ∀ name table, ix.indexName = some name →
        tableOfRow ix.tableSchemaName ix.tableName = some table →
          Unbroken name ∧ TableUnbroken table := by
  unfold renderIndexesSnowflake
  have hheading : NotesUnbroken ExportStmt.commentNames
      (if indexes = [] then [] else [.indexesHeading .snowflake]) := by
    apply notesUnbroken_of_none
    intro stmt hm
    split_ifs at hm
    · exact absurd hm List.not_mem_nil
    · rw [List.mem_singleton.mp hm]
      rfl
  rw [notesUnbroken_append, and_iff_right hheading]
  unfold NotesUnbroken
  rw [List.forall_mem_map]
  apply forall₂_congr
  intro ix _
  unfold renderIndexSnowflake
  cases ix.indexName with
  | none => simp [ExportStmt.commentNames]
  | some name =>
      cases tableOfRow ix.tableSchemaName ix.tableName with
      | none => simp [ExportStmt.commentNames]
      | some table => simp [ExportStmt.commentNames, TableUnbroken]

theorem snowflakeNotes_iff :
    NotesUnbroken ExportStmt.commentNames (snowflakeStmts unicode s) ↔
      SnowflakeNotesUnbroken s := by
  unfold snowflakeStmts SnowflakeNotesUnbroken
  simp only [notesUnbroken_append, notesUnbroken_flatMap, notesUnbroken_renderTableSnowflake,
    notesUnbroken_renderSchemas, notesUnbroken_renderForeignKeys,
    notesUnbroken_renderIndexesSnowflake, and_true]
  have hends : NotesUnbroken ExportStmt.commentNames [.header .snowflake] ∧
      NotesUnbroken ExportStmt.commentNames [.blank] := by
    simp [NotesUnbroken, ExportStmt.commentNames]
  rw [and_iff_right hends.1, and_iff_left hends.2]

end

end PgErdCloud.Ddl
