/-
  Names within the text of a migration. Its statements are well spaced; its notes, of a foreign
  key without a name and of a primary key that changed, are comments to the end of the line.

  `names_contained_iff` is about all snapshots: names stay within their token exactly when those
  in notes have no line break. It is assumed that the fragments copied from a snapshot are
  complete sequences of tokens.
-/
import PgErdCloud.Ddl.NameContainment
import PgErdCloud.Ddl.MigrationFacts

namespace PgErdCloud.Ddl

open Lib Lib.PyStr LexState Diff

/-! ## Pieces of a migration -/

/-- What is written for a column. -/
def ColumnClause.pieces (clause : ColumnClause) : List Piece :=
  [.name clause.name, sql " ", .fragment clause.type] ++
    if clause.isNotNull then [sql " NOT NULL"] else []

/-- How the statements on a table begin. -/
def alterTablePieces (table : TableName) : List Piece := sql "ALTER TABLE " :: tablePieces table

/-- The lines between the parentheses of a `CREATE TABLE`. -/
def createTableLines (columns : List ColumnClause) (pk : List Str) : List (List Piece) :=
  columns.map (fun clause => sql "  " :: clause.pieces) ++
    if pk ≠ [] then [sql "  PRIMARY KEY (" :: namePieces pk ++ [sql ")"]] else []

/-- What is written for a statement or a note. -/
def Stmt.pieces (target : Dialect) : Stmt → List Piece
  | .dropConstraint child name =>
      alterTablePieces child ++ [sql " DROP CONSTRAINT ", .name name, sql ";"]
  | .noteUnnamedFk child childColumns =>
      sql "-- FOREIGN KEY on " :: (tablePieces child ++ [sql " ("] ++ namePieces childColumns ++
        [sql ") was removed but has no constraint name; drop it manually."])
  | .dropTable table => sql "DROP TABLE IF EXISTS " :: tablePieces table ++ [sql ";"]
  | .createSchema schema => [sql "CREATE SCHEMA IF NOT EXISTS ", .name schema, sql ";"]
  | .createTable table columns pk =>
      sql "CREATE TABLE " :: tablePieces table ++ [sql " (\n"] ++
        [sql ",\n"].intercalate (createTableLines columns pk) ++ [sql "\n);"]
  | .addColumn table clause =>
      alterTablePieces table ++ [sql " ADD COLUMN "] ++ clause.pieces ++ [sql ";"]
  | .dropColumn table column =>
      alterTablePieces table ++ [sql " DROP COLUMN ", .name column, sql ";"]
  | .alterType table column type =>
      let action := match target with
        | .snowflake => " SET DATA TYPE "
        | .postgresql => " TYPE "
      alterTablePieces table ++
        [sql " ALTER COLUMN ", .name column, sql action, .fragment type, sql ";"]
  | .setNotNull table column =>
      alterTablePieces table ++ [sql " ALTER COLUMN ", .name column, sql " SET NOT NULL;"]
  | .dropNotNull table column =>
      alterTablePieces table ++ [sql " ALTER COLUMN ", .name column, sql " DROP NOT NULL;"]
  | .notePrimaryKey table pk =>
      sql "-- PRIMARY KEY of " :: (tablePieces table ++ [sql " changed to ("] ++
        [sql ", "].intercalate (pk.map fun name => [.bare name]) ++
        [sql "); review before applying."])
  | .commentOn table comment =>
      sql "COMMENT ON TABLE " :: tablePieces table ++ match comment with
        | some text => [sql " IS ", .literal text, sql ";"]
        | none => [sql " IS NULL;"]
  | .addForeignKey child name childColumns parent parentColumns =>
      let constraint := match name with
        | some name => [sql "CONSTRAINT ", .name name, sql " "]
        | none => []
      alterTablePieces child ++ [sql " ADD "] ++ constraint ++ [sql "FOREIGN KEY ("] ++
        namePieces childColumns ++ [sql ") REFERENCES "] ++ tablePieces parent ++ [sql " ("] ++
        namePieces parentColumns ++ [sql ");"]

theorem piecesText_namePieces (names : List Str) :
    piecesText (namePieces names) = quotedList names := by
  unfold namePieces quotedList
  rw [piecesText_intercalate, List.map_map]
  have hpiece : (piecesText ∘ fun name => [Piece.name name]) = q := by
    funext name
    exact List.append_nil _
  rw [hpiece]
  rfl

theorem piecesText_tablePieces (table : TableName) :
    piecesText (tablePieces table) = tableText table := by
  simp [tablePieces, tableText, qname, sql, Piece.text]

theorem piecesText_columnClause (clause : ColumnClause) :
    piecesText clause.pieces = clause.text := by
  unfold ColumnClause.pieces ColumnClause.text
  cases clause.isNotNull with
  | false => simp [sql, Piece.text]
  | true => simp [sql, Piece.text]

theorem piecesText_cons_sql (text : String) (pieces : List Piece) :
    piecesText (sql text :: pieces) = text.toList ++ piecesText pieces := rfl

theorem piecesText_cons_name (ident : Str) (pieces : List Piece) :
    piecesText (.name ident :: pieces) = q ident ++ piecesText pieces := rfl

theorem piecesText_cons_fragment (text : Str) (pieces : List Piece) :
    piecesText (.fragment text :: pieces) = text ++ piecesText pieces := rfl

theorem piecesText_alterTable (table : TableName) :
    piecesText (alterTablePieces table) = alterTable table := by
  unfold alterTablePieces alterTable
  rw [piecesText_cons_sql, piecesText_tablePieces]

theorem piecesText_createTableLines (columns : List ColumnClause) (pk : List Str) :
    (createTableLines columns pk).map piecesText =
      columns.map (fun clause => "  ".toList ++ clause.text) ++
        if pk ≠ [] then ["  PRIMARY KEY (".toList ++ quotedList pk ++ ")".toList] else [] := by
  unfold createTableLines
  rw [List.map_append, List.map_map]
  congr 1
  · apply List.map_congr_left
    intro clause _
    show piecesText (sql "  " :: clause.pieces) = _
    rw [piecesText_cons_sql, piecesText_columnClause]
  · split_ifs
    · simp only [List.map_cons, List.map_nil, List.cons_append, piecesText_cons_sql,
        piecesText_append, piecesText_namePieces, piecesText_nil, List.append_nil,
        List.append_assoc]
    · rfl

/-- The pieces of a statement are its text. -/
theorem piecesText_stmt (target : Dialect) (stmt : Stmt) :
    piecesText (stmt.pieces target) = stmt.text target := by
  cases stmt with
  | dropConstraint child name =>
      show piecesText (alterTablePieces child ++ _) =
        alterTable child ++ " DROP CONSTRAINT ".toList ++ q name ++ ";".toList
      simp only [piecesText_append, piecesText_cons_sql, piecesText_cons_name,
        piecesText_alterTable, piecesText_nil, List.append_assoc, List.append_nil]
  | noteUnnamedFk child childColumns =>
      show piecesText (sql "-- FOREIGN KEY on " :: (tablePieces child ++ _ ++ _ ++ _)) =
        "-- FOREIGN KEY on ".toList ++ tableText child ++ " (".toList ++
          quotedList childColumns ++
          ") was removed but has no constraint name; drop it manually.".toList
      simp only [piecesText_append, piecesText_cons_sql, piecesText_tablePieces,
        piecesText_namePieces, piecesText_nil, List.append_assoc, List.append_nil]
  | dropTable table =>
      show piecesText (sql "DROP TABLE IF EXISTS " :: (tablePieces table ++ _)) =
        "DROP TABLE IF EXISTS ".toList ++ tableText table ++ ";".toList
      simp only [piecesText_append, piecesText_cons_sql, piecesText_tablePieces, piecesText_nil,
        List.append_assoc, List.append_nil]
  | createSchema schema =>
      show piecesText ([sql "CREATE SCHEMA IF NOT EXISTS ", .name schema, sql ";"]) =
        "CREATE SCHEMA IF NOT EXISTS ".toList ++ q schema ++ ";".toList
      simp only [piecesText_cons_sql, piecesText_cons_name, piecesText_nil, List.append_assoc,
        List.append_nil]
  | createTable table columns pk =>
      have hseparator : (sql ",\n").text = ",\n".toList := rfl
      show piecesText (sql "CREATE TABLE " :: (tablePieces table ++ [sql " (\n"] ++
          [sql ",\n"].intercalate (createTableLines columns pk) ++ [sql "\n);"])) =
        "CREATE TABLE ".toList ++ tableText table ++ " (\n".toList ++ join ",\n".toList _ ++
          "\n);".toList
      simp only [piecesText_append, piecesText_cons_sql, piecesText_tablePieces,
        piecesText_intercalate, piecesText_createTableLines, hseparator, piecesText_nil,
        List.append_assoc, List.append_nil]
  | addColumn table clause =>
      show piecesText (alterTablePieces table ++ _ ++ _ ++ _) =
        alterTable table ++ " ADD COLUMN ".toList ++ clause.text ++ ";".toList
      simp only [piecesText_append, piecesText_cons_sql, piecesText_alterTable,
        piecesText_columnClause, piecesText_nil, List.append_assoc, List.append_nil]
  | dropColumn table column =>
      show piecesText (alterTablePieces table ++ _) =
        alterTable table ++ " DROP COLUMN ".toList ++ q column ++ ";".toList
      simp only [piecesText_append, piecesText_cons_sql, piecesText_cons_name,
        piecesText_alterTable, piecesText_nil, List.append_assoc, List.append_nil]
  | alterType table column type =>
      cases target with
      | postgresql =>
          show piecesText (alterTablePieces table ++
              [sql " ALTER COLUMN ", .name column, sql " TYPE ", .fragment type, sql ";"]) =
            alterTable table ++ " ALTER COLUMN ".toList ++ q column ++ " TYPE ".toList ++ type ++
              ";".toList
          simp only [piecesText_append, piecesText_cons_sql, piecesText_cons_name,
            piecesText_cons_fragment, piecesText_alterTable, piecesText_nil, List.append_assoc,
            List.append_nil]
      | snowflake =>
          show piecesText (alterTablePieces table ++ [sql " ALTER COLUMN ", .name column,
              sql " SET DATA TYPE ", .fragment type, sql ";"]) =
            alterTable table ++ " ALTER COLUMN ".toList ++ q column ++
              " SET DATA TYPE ".toList ++ type ++ ";".toList
          simp only [piecesText_append, piecesText_cons_sql, piecesText_cons_name,
            piecesText_cons_fragment, piecesText_alterTable, piecesText_nil, List.append_assoc,
            List.append_nil]
  | setNotNull table column =>
      show piecesText (alterTablePieces table ++ _) =
        alterTable table ++ " ALTER COLUMN ".toList ++ q column ++ " SET NOT NULL;".toList
      simp only [piecesText_append, piecesText_cons_sql, piecesText_cons_name,
        piecesText_alterTable, piecesText_nil, List.append_assoc, List.append_nil]
  | dropNotNull table column =>
      show piecesText (alterTablePieces table ++ _) =
        alterTable table ++ " ALTER COLUMN ".toList ++ q column ++ " DROP NOT NULL;".toList
      simp only [piecesText_append, piecesText_cons_sql, piecesText_cons_name,
        piecesText_alterTable, piecesText_nil, List.append_assoc, List.append_nil]
  | notePrimaryKey table pk =>
      have hseparator : (sql ", ").text = ", ".toList := rfl
      have hpiece : (piecesText ∘ fun name => [Piece.bare name]) = id := by
        funext name
        exact List.append_nil _
      show piecesText (sql "-- PRIMARY KEY of " :: (tablePieces table ++ _ ++
          [sql ", "].intercalate (pk.map fun name => [.bare name]) ++ _)) =
        "-- PRIMARY KEY of ".toList ++ tableText table ++ " changed to (".toList ++
          join ", ".toList pk ++ "); review before applying.".toList
      simp only [piecesText_append, piecesText_cons_sql, piecesText_tablePieces,
        piecesText_intercalate, List.map_map, hpiece, List.map_id, hseparator, piecesText_nil,
        List.append_assoc, List.append_nil]
  | commentOn table comment =>
      cases comment with
      | none =>
          show piecesText (sql "COMMENT ON TABLE " :: (tablePieces table ++ _)) =
            "COMMENT ON TABLE ".toList ++ tableText table ++ " IS NULL;".toList
          simp only [piecesText_append, piecesText_cons_sql, piecesText_tablePieces, piecesText_nil,
            List.append_assoc, List.append_nil]
      | some text =>
          have hliteral : piecesText [sql " IS ", .literal text, sql ";"] =
              " IS '".toList ++ replaceChar '\'' "''".toList text ++ "';".toList := by
            simp only [piecesText_cons, piecesText_nil, Piece.text, sql, List.append_assoc,
              List.append_nil]
            rfl
          show piecesText (sql "COMMENT ON TABLE " :: (tablePieces table ++
              [sql " IS ", .literal text, sql ";"])) =
            "COMMENT ON TABLE ".toList ++ tableText table ++
              (" IS '".toList ++ replaceChar '\'' "''".toList text ++ "';".toList)
          simp only [piecesText_append, piecesText_cons_sql, piecesText_tablePieces, hliteral,
            List.append_assoc]
  | addForeignKey child name childColumns parent parentColumns =>
      cases name with
      | none =>
          show piecesText (alterTablePieces child ++ _ ++ [] ++ _ ++ _ ++ _ ++ tablePieces parent ++
              _ ++ _ ++ _) =
            alterTable child ++ " ADD ".toList ++ [] ++
              "FOREIGN KEY (".toList ++ quotedList childColumns ++ ") REFERENCES ".toList ++
              tableText parent ++ " (".toList ++ quotedList parentColumns ++ ");".toList
          simp only [piecesText_append, piecesText_cons_sql, piecesText_alterTable,
            piecesText_tablePieces, piecesText_namePieces, piecesText_nil, List.append_assoc,
            List.append_nil]
      | some name =>
          show piecesText (alterTablePieces child ++ _ ++
              [sql "CONSTRAINT ", .name name, sql " "] ++ _ ++ _ ++ _ ++ tablePieces parent ++
              _ ++ _ ++ _) =
            alterTable child ++ " ADD ".toList ++ ("CONSTRAINT ".toList ++ q name ++ " ".toList) ++
              "FOREIGN KEY (".toList ++ quotedList childColumns ++ ") REFERENCES ".toList ++
              tableText parent ++ " (".toList ++ quotedList parentColumns ++ ");".toList
          simp only [piecesText_append, piecesText_cons_sql, piecesText_cons_name,
            piecesText_alterTable, piecesText_tablePieces, piecesText_namePieces, piecesText_nil,
            List.append_assoc, List.append_nil]

/-! ## Lines of a migration -/

/-- The names in a note. -/
def Stmt.commentNames : Stmt → List Str
  | .noteUnnamedFk table names | .notePrimaryKey table names => table.schema :: table.name :: names
  | _ => []

theorem spaced_columnClause (clause : ColumnClause) : spaced true clause.pieces = true := by
  unfold ColumnClause.pieces
  cases clause.isNotNull with
  | false => rfl
  | true => rfl

theorem spaced_createTableLines (columns : List ColumnClause) (pk : List Str) :
    ∀ line ∈ createTableLines columns pk, spaced true line = true := by
  unfold createTableLines
  intro line hline
  rcases List.mem_append.mp hline with hline | hline
  · obtain ⟨clause, -, rfl⟩ := List.mem_map.mp hline
    exact spaced_columnClause clause
  · split_ifs at hline
    · rw [List.mem_singleton.mp hline]
      exact spaced_append (spaced_namePieces pk) rfl
    · exact absurd hline List.not_mem_nil

/-- A list of names in a note. -/
theorem note_names {f : Str → Piece} (hf : ∀ name, (f name).ident? = some name)
    (names : List Str) :
    (NamesUnbroken ([sql ", "].intercalate (names.map fun name => [f name])) ↔
      ∀ name ∈ names, Unbroken name) ∧
    ∀ piece ∈ [sql ", "].intercalate (names.map fun name => [f name]), piece.inNote = true := by
  have hnote : ∀ name, (f name).inNote = true := by
    intro name
    have h := hf name
    cases hpiece : f name with
    | name ident => rfl
    | bare ident => rfl
    | _ => simp [hpiece, Piece.ident?] at h
  induction names with
  | nil => exact ⟨iff_of_true namesUnbroken_nil (by simp), by simp [List.intercalate]⟩
  | cons name names ih =>
      obtain ⟨hnames, hnotes⟩ := ih
      cases names with
      | nil =>
          have hsingle : [sql ", "].intercalate ([name].map fun name => [f name]) = [f name] := by
            simp [List.intercalate]
          rw [hsingle, namesUnbroken_cons_some (hf name), List.forall_mem_singleton,
            List.forall_mem_singleton]
          exact ⟨and_iff_left namesUnbroken_nil, hnote name⟩
      | cons next rest =>
          have hcons : [sql ", "].intercalate ((name :: next :: rest).map fun name => [f name]) =
              f name :: sql ", " ::
                [sql ", "].intercalate ((next :: rest).map fun name => [f name]) :=
            intercalate_cons_cons _ _ _ _
          rw [hcons, namesUnbroken_cons_some (hf name), namesUnbroken_cons_sql, hnames,
            List.forall_mem_cons (a := name), List.forall_mem_cons (a := f name),
            List.forall_mem_cons (a := sql ", ")]
          exact ⟨Iff.rfl, hnote name, rfl, hnotes⟩

/-- A note about a table and a list of names. -/
theorem lineSpec_noteList (table : TableName) {names : List Str} {f : Str → Piece}
    (hf : ∀ name, (f name).ident? = some name) {first middle last : String}
    (hfirst : lex .base first.toList = .lineComment) (hmiddle : Unbroken middle.toList)
    (hlast : Unbroken last.toList) :
    LineSpec (sql first :: (tablePieces table ++ [sql middle] ++
        [sql ", "].intercalate (names.map fun name => [f name]) ++ [sql last]))
      (∀ name ∈ table.schema :: table.name :: names, Unbroken name) := by
  obtain ⟨hnames, hnotes⟩ := note_names hf names
  have hclean : NamesUnbroken (tablePieces table ++ [sql middle] ++
      [sql ", "].intercalate (names.map fun name => [f name]) ++ [sql last]) ↔
      ∀ name ∈ table.schema :: table.name :: names, Unbroken name := by
    rw [namesUnbroken_append, namesUnbroken_append, namesUnbroken_table, hnames,
      namesUnbroken_cons_sql, and_iff_left namesUnbroken_nil, List.forall_mem_cons,
      List.forall_mem_cons, List.forall_mem_cons, List.forall_mem_cons]
    simp [and_assoc]
  rw [← hclean]
  apply lineSpec_note hfirst
  rw [List.forall_mem_append, List.forall_mem_append, List.forall_mem_singleton]
  exact ⟨⟨inNote_table table hmiddle, hnotes⟩, decide_eq_true hlast⟩

/-- **A line of a migration** is well-spaced SQL or a note. -/
theorem Stmt.lineSpec (target : Dialect) (stmt : Stmt)
    (hfragments : ∀ text, .fragment text ∈ stmt.pieces target → SelfContained text) :
    LineSpec (stmt.pieces target) (∀ name ∈ stmt.commentNames, Unbroken name) := by
  have hcode : ∀ pieces : List Piece, spaced true pieces = true →
      (∀ text, .fragment text ∈ pieces → SelfContained text) →
      LineSpec pieces (∀ name ∈ ([] : List Str), Unbroken name) := by
    intro pieces h hfragments
    simpa using lineSpec_code h hfragments
  cases stmt with
  | dropConstraint child name => exact hcode _ rfl hfragments
  | noteUnnamedFk child names =>
      exact lineSpec_noteList child (fun _ => rfl) rfl (by decide) (by decide)
  | dropTable table => exact hcode _ rfl hfragments
  | createSchema schema => exact hcode _ rfl hfragments
  | createTable table columns pk =>
      have hopen : spaced true (sql "CREATE TABLE " :: (tablePieces table ++ [sql " (\n"] ++
          [sql ",\n"].intercalate (createTableLines columns pk))) = true :=
        spaced_intercalate (fun _ => rfl) (spaced_createTableLines columns pk)
      exact hcode _ (spaced_append hopen rfl) hfragments
  | addColumn table clause =>
      have hopen : spaced true (alterTablePieces table ++ [sql " ADD COLUMN "] ++
          clause.pieces) = true := spaced_columnClause clause
      exact hcode _ (spaced_append hopen rfl) hfragments
  | dropColumn table column => exact hcode _ rfl hfragments
  | alterType table column type =>
      cases target with
      | postgresql => exact hcode _ rfl hfragments
      | snowflake => exact hcode _ rfl hfragments
  | setNotNull table column => exact hcode _ rfl hfragments
  | dropNotNull table column => exact hcode _ rfl hfragments
  | notePrimaryKey table names =>
      exact lineSpec_noteList table (fun _ => rfl) rfl (by decide) (by decide)
  | commentOn table comment =>
      cases comment with
      | none => exact hcode _ rfl hfragments
      | some text => exact hcode _ rfl hfragments
  | addForeignKey child name childColumns parent parentColumns =>
      -- the text up to the first list of columns depends on the name
      have hrest : ∀ start : List Piece, spaced true (start ++ [sql "FOREIGN KEY ("]) = true →
          spaced true (start ++ [sql "FOREIGN KEY ("] ++ namePieces childColumns ++
            [sql ") REFERENCES "] ++ tablePieces parent ++ [sql " ("] ++
            namePieces parentColumns ++ [sql ");"]) = true := by
        intro start hstart
        have htable : spaced true (tablePieces parent) = true := rfl
        have hchild := spaced_append_open hstart rfl (spaced_namePieces childColumns)
        have hreferences : spaced false [sql ") REFERENCES "] = true := rfl
        have hparent := spaced_append_open (spaced_append hchild hreferences) rfl htable
        have hparen : spaced false [sql " ("] = true := rfl
        exact spaced_append (spaced_append_open (spaced_append hparent hparen) rfl
          (spaced_namePieces parentColumns)) rfl
      cases name with
      | none => exact hcode _ (hrest _ rfl) hfragments
      | some name => exact hcode _ (hrest _ rfl) hfragments

/-! ## The text of a migration -/

/-- The pieces of a migration with these statements. -/
def migrationPieces (target : Dialect) (stmts : List Stmt) : List Piece :=
  if stmts = [] then [sql "-- No schema changes.\n"]
  else .sql ("-- Migration (".toList ++ target.text ++ "): base -> target\n".toList) ::
    scriptPieces (stmts.map (Stmt.pieces target)) ++ [sql "\n"]

theorem piecesText_migrationPieces (target : Dialect) (stmts : List Stmt) :
    piecesText (migrationPieces target stmts) =
      if stmts = [] then "-- No schema changes.\n".toList
      else "-- Migration (".toList ++ target.text ++ "): base -> target\n".toList ++
        join "\n".toList (stmts.map (Stmt.text target)) ++ "\n".toList := by
  have hlines : (stmts.map (Stmt.pieces target)).map piecesText =
      stmts.map (Stmt.text target) := by
    rw [List.map_map]
    exact List.map_congr_left fun stmt _ => piecesText_stmt target stmt
  unfold migrationPieces
  split_ifs
  · rfl
  · rw [List.cons_append, piecesText_cons, piecesText_append, piecesText_scriptPieces, hlines,
      piecesText_cons_sql, piecesText_nil, List.append_nil, Piece.text]
    simp only [List.append_assoc]

theorem contained_migrationPieces {target : Dialect} {stmts : List Stmt}
    (hfragments : ∀ text, .fragment text ∈ migrationPieces target stmts → SelfContained text) :
    Contained (migrationPieces target stmts) ↔ NotesUnbroken Stmt.commentNames stmts := by
  rw [contained_iff]
  unfold migrationPieces at hfragments ⊢
  split_ifs at hfragments ⊢ with h
  · rw [h]
    refine iff_of_true ⟨fun hname => absurd rfl hname, trivial⟩ ?_
    exact fun stmt hm => absurd hm List.not_mem_nil
  · -- behind the heading the script starts afresh
    have hheading : lex .base ("-- Migration (".toList ++ target.text ++
        "): base -> target\n".toList) = .base := by
      cases target with
      | postgresql => rfl
      | snowflake => rfl
    rw [List.cons_append, ContainedFrom]
    show _ ∧ ContainedFrom (lex .base (_ ++ target.text ++ _)) _ [] ↔ _
    rw [hheading, containedFrom_append]
    have hlines : ∀ stmt ∈ stmts, LineSpec (stmt.pieces target)
        (∀ name ∈ stmt.commentNames, Unbroken name) := by
      intro stmt hstmt
      apply stmt.lineSpec target
      intro text htext
      apply hfragments
      rw [List.cons_append]
      exact List.mem_cons_of_mem _
        (List.mem_append_left _ (mem_scriptPieces (List.mem_map_of_mem hstmt) htext))
    rw [containedFrom_script hlines (by decide)]
    constructor
    · rintro ⟨-, hnotes, -⟩
      exact hnotes
    · intro hnotes
      exact ⟨fun hname => absurd rfl hname, hnotes, fun hname => absurd rfl hname, trivial⟩

/-! ## The notes of a migration -/

/-- A migration writes names in comments: of a foreign key without a name that is dropped, and
    of a primary key that changed. -/
def MigrationNotesUnbroken (b t : Index) : Prop :=
  (∀ signature fk, b.fks.get? signature = some fk → signature ∉ t.fks.keys →
    dropsWithChild b t fk = false → fk.name = none →
    ∀ child parent, fkEndpoints fk b.tables = some (child, parent) →
      TableUnbroken child ∧ ∀ column ∈ fk.childColumns, Unbroken column) ∧
  ∀ key bt tt, b.tables.get? key = some bt → t.tables.get? key = some tt → bt.pk ≠ tt.pk →
    TableUnbroken (tableName tt) ∧ ∀ column ∈ tt.pk, Unbroken column

/-- The names in the notes of a migration. -/
theorem migrationNotes_iff (unicode : Unicode) (source target : Dialect) (b t : Index) :
    NotesUnbroken Stmt.commentNames (migrationStmts unicode source target b t) ↔
      MigrationNotesUnbroken b t := by
  have htable : ∀ (table : TableName) (names : List Str),
      (∀ name ∈ table.schema :: table.name :: names, Unbroken name) ↔
        TableUnbroken table ∧ ∀ name ∈ names, Unbroken name := by
    intro table names
    rw [List.forall_mem_cons, List.forall_mem_cons, ← and_assoc]
    exact Iff.rfl
  constructor
  · intro h
    constructor
    · intro signature fk hfk hsig hdrops hname child parent hends
      exact (htable child fk.childColumns).mp (h (.noteUnnamedFk child fk.childColumns)
        ((noteUnnamedFk_mem unicode source target b t).mpr
          ⟨signature, fk, hfk, hsig, hdrops, hname, rfl, parent, hends⟩))
    · intro key bt tt hbt htt hpk
      exact (htable (tableName tt) tt.pk).mp (h (.notePrimaryKey (tableName tt) tt.pk)
        ((alterTables_mem unicode source target b t rfl).mpr
          ⟨key, bt, tt, hbt, htt,
            (notePrimaryKey_mem unicode source target).mpr ⟨rfl, hpk, rfl⟩⟩))
  · rintro ⟨hfks, hpks⟩ stmt hm
    cases stmt with
    | noteUnnamedFk child childColumns =>
        obtain ⟨signature, fk, hfk, hsig, hdrops, hname, rfl, parent, hends⟩ :=
          (noteUnnamedFk_mem unicode source target b t).mp hm
        exact (htable child fk.childColumns).mpr
          (hfks signature fk hfk hsig hdrops hname child parent hends)
    | notePrimaryKey table pk =>
        obtain ⟨key, bt, tt, hbt, htt, hnote⟩ :=
          (alterTables_mem unicode source target b t rfl).mp hm
        obtain ⟨rfl, hpk, rfl⟩ := (notePrimaryKey_mem unicode source target).mp hnote
        exact (htable (tableName tt) tt.pk).mpr (hpks key bt tt hbt htt hpk)
    | _ => exact fun name hname => absurd hname List.not_mem_nil

/-! ## Containment -/

section
variable {Oid Oid' : Type} [DecidableEq Oid] [DecidableEq Oid']

/-- **Where names leave their token.** The names of the exports and of a migration stand
    within identifiers and comments exactly when the names in the notes have no line break. -/
theorem names_contained_iff (unicode : Unicode) (s : ExportSnapshot) (base : Snapshot Oid)
    (target : Snapshot Oid')
    (hexport : ∀ dialect text, .fragment text ∈ exportPieces unicode s dialect →
      SelfContained text)
    (hmigration : ∀ dialect text, .fragment text ∈
      migrationPieces dialect (snapshotDiffStmts unicode base target dialect) →
        SelfContained text) :
    (∀ name, snapshotJsonToSql unicode s name = (normalizeDialect unicode name).map
      fun dialect => piecesText (exportPieces unicode s dialect)) ∧
    (∀ name, snapshotDiffToMigrationSql unicode base target name =
      (normalizeDialect unicode name).map fun dialect =>
        piecesText (migrationPieces dialect (snapshotDiffStmts unicode base target dialect))) ∧
    ((∀ dialect, Contained (exportPieces unicode s dialect) ∧
        Contained (migrationPieces dialect (snapshotDiffStmts unicode base target dialect))) ↔
      PostgresqlNotesUnbroken s ∧ SnowflakeNotesUnbroken s ∧
        MigrationNotesUnbroken (indexSnapshot base) (indexSnapshot target)) := by
  refine ⟨?_, ?_, ?_⟩
  · intro name
    unfold snapshotJsonToSql
    simp only [piecesText_exportPieces]
    cases normalizeDialect unicode name with
    | error message => rfl
    | ok dialect => rfl
  · intro name
    unfold snapshotDiffToMigrationSql
    simp only [piecesText_migrationPieces]
    cases normalizeDialect unicode name with
    | error message => rfl
    | ok dialect =>
        show (if _ then _ else _) = Except.ok (if _ then _ else _)
        split_ifs
        · rfl
        · rfl
  · have hpostgresql := contained_exportPieces unicode s (hexport .postgresql)
    have hsnowflake := contained_exportPieces unicode s (hexport .snowflake)
    have hnotes := fun dialect => contained_migrationPieces (hmigration dialect)
    constructor
    · intro h
      refine ⟨?_, ?_, ?_⟩
      · rw [← postgresqlNotes_iff unicode s]
        exact hpostgresql.mp (h .postgresql).1
      · rw [← snowflakeNotes_iff unicode s]
        exact hsnowflake.mp (h .snowflake).1
      · exact (migrationNotes_iff unicode _ _ _ _).mp ((hnotes .postgresql).mp (h .postgresql).2)
    · rintro ⟨hpg, hsf, hm⟩ dialect
      refine ⟨?_, (hnotes dialect).mpr ((migrationNotes_iff unicode _ _ _ _).mpr hm)⟩
      cases dialect with
      | postgresql => exact hpostgresql.mpr ((postgresqlNotes_iff unicode s).mpr hpg)
      | snowflake => exact hsnowflake.mpr ((snowflakeNotes_iff unicode s).mpr hsf)

end

/-- A table in a schema with a quote in its name, and an index. -/
def exportedTable (indexName indexDef : String) : ExportSnapshot where
  relations := [⟨some "a\"b".toList, some "t".toList, some 1, some "r".toList, none, none, none,
    none, none, false⟩]
  columns := [⟨some 1, some 1, some "id".toList, ⟨some "integer".toList, none, false⟩, false,
    none, true⟩]
  constraints := []
  indexes := [⟨some indexName.toList, some "a\"b".toList, some "t".toList, none,
    some indexDef.toList⟩]
  sourceDialect := none
  databaseDialect := none
  dialect := none

/-- A snapshot without rows. -/
def noTables : Snapshot Nat := ⟨[], [], [], [], none, none, none⟩

/-- A table in a schema whose name has a double quote. -/
def quotedSchema : Snapshot Nat where
  relations := [⟨some 1, some "a\"b".toList, some "t".toList, none, some "r".toList⟩]
  columns := [⟨some 1, some "id".toList, some "integer".toList, true⟩]
  pkColumns := []
  fkEdges := []
  sourceDialect := none
  databaseDialect := none
  dialect := none

set_option maxRecDepth 8000 in
/-- The names of one table in an export and in a migration. -/
theorem names_contained_quotedSchema :
    Contained (exportPieces asciiUnicode
      (exportedTable "t_id" "CREATE INDEX t_id ON \"a\"\"b\".t (id)") .snowflake) ∧
    Contained (migrationPieces .postgresql
      (snapshotDiffStmts asciiUnicode noTables quotedSchema .postgresql)) := by
  have hexport : ∀ dialect, ∀ text ∈ fragments (exportPieces asciiUnicode
      (exportedTable "t_id" "CREATE INDEX t_id ON \"a\"\"b\".t (id)") dialect),
      SelfContained text := by
    intro dialect
    cases dialect with
    | postgresql => decide
    | snowflake => decide
  have hmigration : ∀ dialect, ∀ text ∈ fragments (migrationPieces dialect
      (snapshotDiffStmts asciiUnicode noTables quotedSchema dialect)), SelfContained text := by
    intro dialect
    cases dialect with
    | postgresql => decide
    | snowflake => decide
  have hiff := (names_contained_iff asciiUnicode _ noTables quotedSchema
    (fun dialect text hm => hexport dialect text (mem_fragments.mpr hm))
    (fun dialect text hm => hmigration dialect text (mem_fragments.mpr hm))).2.2
  suffices h : _ from ⟨((hiff.mpr h) .snowflake).1, ((hiff.mpr h) .postgresql).2⟩
  refine ⟨?_, ?_, ?_⟩
  · intro rel hrel table _ _ _ hkind
    obtain rfl := List.mem_singleton.mp hrel
    exact absurd hkind (by decide)
  · constructor
    · intro rel hrel table oid _ _
      obtain rfl := List.mem_singleton.mp hrel
      refine ⟨fun con hcon => absurd hcon List.not_mem_nil, fun tablespace h => ?_, fun h => ?_⟩
      · exact absurd h (Option.some_ne_none tablespace).symm
      · exact absurd h (by decide)
    · intro ix hix name table hname htable
      obtain rfl := List.mem_singleton.mp hix
      obtain rfl := Option.some.inj hname
      obtain rfl := Option.some.inj htable
      decide
  · have hbase : indexSnapshot noTables = ⟨.empty, .empty⟩ := rfl
    rw [hbase]
    constructor
    · intro signature fk hfk
      exact absurd hfk (by simp)
    · intro key bt tt hbt
      exact absurd hbt (by simp)

set_option maxRecDepth 8000 in
/-- **The name of an index ends its comment** in a script for Snowflake: what follows the line
    break is SQL. -/
theorem index_name_leaves_comment :
    ¬ Contained (exportPieces asciiUnicode (exportedTable "i\nDROP TABLE t; --"
      "CREATE INDEX \"i\nDROP TABLE t; --\" ON \"a\"\"b\".t (id)") .snowflake) := by
  have hfragments : ∀ text ∈ fragments (exportPieces asciiUnicode (exportedTable
      "i\nDROP TABLE t; --" "CREATE INDEX \"i\nDROP TABLE t; --\" ON \"a\"\"b\".t (id)")
      .snowflake), SelfContained text := by decide
  rw [contained_exportPieces _ _ fun text hm => hfragments text (mem_fragments.mpr hm)]
  intro hnotes
  have hname := hnotes (.noteIndex "i\nDROP TABLE t; --".toList ⟨"a\"b".toList, "t".toList⟩)
    (by decide) "i\nDROP TABLE t; --".toList List.mem_cons_self
  exact absurd hname (by decide)

end PgErdCloud.Ddl
