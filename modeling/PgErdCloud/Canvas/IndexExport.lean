/-
  The indexes that the wizard proposes (erd/cardinality.ts) and the user applies, and the
  `CREATE INDEX` statements of the SQL export. The export writes each name once, whatever the
  table, and writes names without the blanks around them.

  `createdIndexes_exportDDL` reads the statements back from the text, for every diagram;
  `every_index_exported_iff` says when they are those of the applied indexes.
-/
import PgErdCloud.Canvas.Editor
import PgErdCloud.Canvas.TableShape
import PgErdCloud.Lib.SqlStatements
import PgErdCloud.Lib.Firsts

namespace PgErdCloud.Canvas

open Lib Lib.PyStr Lib.LexState
open Lib.ParenList (readName quoteName)

/-! ## Names of indexes -/

/-- `MAX_INDEX_NAME_LENGTH` -/
def maxIndexNameLength : Nat := 63

/-- `s.replace(/[^A-Za-z0-9_]+/g, "_")`; whether the character before was replaced. -/
def collapseOthers : Bool → Str → Str
  | _, [] => []
  | replaced, ch :: s =>
      if JsStr.isWordChar ch then ch :: collapseOthers false s
      else if replaced then collapseOthers true s
      else '_' :: collapseOthers true s

/-- `sanitizeIdentifierPart` -/
def sanitizeIdentifierPart (value : Str) : Str :=
  let unquoted := (JsStr.trim value).filter fun ch => ch ≠ '"' && ch ≠ '\''
  let normalized := (stripChars ['_'] (collapseOthers false unquoted)).map Char.toLower
  JsStr.orElse normalized "col".toList

/-- `tableIdentifierPart`: a title without its schema. -/
def tableIdentifierPart (tableName : Str) : Str :=
  sanitizeIdentifierPart (JsStr.orElse ((split '.' tableName).getLastD []) tableName)

/-- `buildIndexName` -/
def buildIndexName (tableName : Str) (columns : List Str) : Str :=
  ("idx_".toList ++ tableIdentifierPart tableName ++ "_".toList ++
    join ['_'] (columns.map sanitizeIdentifierPart)).take maxIndexNameLength

example : buildIndexName "sales.Order Items".toList ["Unit (net)".toList] =
    "idx_order_items_unit_net".toList := by decide

/-- What the wizard proposes for columns of a table. -/
def buildRecommendation (node : TableNode) (columns : List Str) (strength : Strength) :
    IndexRecommendation :=
  ⟨buildIndexName node.title columns, columns, strength⟩

/-! ## What is exported -/

/-- The applied indexes, each with its table. -/
def appliedIndexes (nodes : List TableNode) : List (TableNode × IndexRecommendation) :=
  nodes.flatMap fun node => node.indexes.map fun index => (node, index)

theorem ddlIndexes_eq (nodes : List TableNode) :
    ddlIndexes nodes = (appliedIndexes nodes).foldl
      (keepFirst (fun entry => entry.2.indexName) fun entry => entry.2.columns = []) [] := rfl

theorem mem_appliedIndexes {nodes : List TableNode} {entry : TableNode × IndexRecommendation} :
    entry ∈ appliedIndexes nodes ↔ entry.1 ∈ nodes ∧ entry.2 ∈ entry.1.indexes := by
  constructor
  · intro h
    obtain ⟨node, hnode, hentry⟩ := List.mem_flatMap.mp h
    obtain ⟨index, hindex, rfl⟩ := List.mem_map.mp hentry
    exact ⟨hnode, hindex⟩
  · rintro ⟨hnode, hindex⟩
    exact List.mem_flatMap.mpr ⟨entry.1, hnode, List.mem_map.mpr ⟨entry.2, hindex, rfl⟩⟩

/-! ## Statements of a text -/

/-- A `CREATE INDEX` as it is read: its names, without their quotes. -/
structure SqlIndex where
  name : Str
  table : Str
  columns : List Str
  deriving DecidableEq

/-- A statement that makes an index; its list of columns is its end. -/
def readIndex (s : Str) : Option SqlIndex := do
  let s ← dropStart "CREATE INDEX CONCURRENTLY ".toList s
  let (name, s) ← (dropStart "\"".toList s).bind (readName false)
  let s ← dropStart " ON ".toList s
  let (table, s) ← (dropStart "\"".toList s).bind (readName false)
  let s ← dropStart " USING btree (".toList s
  let (columns, s) ← readNames s.length s
  if s = ")".toList then some ⟨name, table, columns⟩ else none

/-- A statement that makes an index, behind blanks and comments. -/
def createdIndex? (s : Str) : Option SqlIndex := readIndex (skipBlank false s)

/-- The indexes that the statements of a text make, of which a part has been read. -/
def createdFrom (read s : Str) : List SqlIndex := (statements .base read s).filterMap createdIndex?

/-- The indexes that a script creates, in the order of their statements. -/
def createdIndexes (sql : Str) : List SqlIndex := createdFrom [] sql

/-- Blanks and comments before a statement. -/
structure Lead (lead : Str) : Prop where
  within : Within .base lead
  base : lex .base lead = .base
  skipped : ∀ s, skipBlank false (lead ++ s) = skipBlank false s

theorem createdFrom_lead {lead : Str} (h : Lead lead) (read s : Str) :
    createdFrom read (lead ++ s) = createdFrom (read ++ lead) s := by
  rw [createdFrom, statements_append h.within, h.base]
  rfl

/-- A sealed text with a semicolon behind it is a statement. -/
theorem createdFrom_sealed {text : Str} (h : Sealed text) (read s : Str) :
    createdFrom read (text ++ ';' :: s) =
      (createdIndex? (read ++ text)).toList ++ createdFrom [] s := by
  rw [createdFrom, h.statements_eq, List.filterMap_cons]
  cases createdIndex? (read ++ text) <;> rfl

theorem lead_header : Lead "-- Generated DDL\n\n".toList := ⟨by decide, by decide, fun _ => rfl⟩

theorem lead_blankLine : Lead "\n\n".toList := ⟨by decide, by decide, fun _ => rfl⟩

theorem lead_break : Lead "\n".toList := ⟨by decide, by decide, fun _ => rfl⟩

theorem lead_indexes : Lead "-- Indexes\n".toList := ⟨by decide, by decide, fun _ => rfl⟩

theorem Lead.append {a b : Str} (ha : Lead a) (hb : Lead b) : Lead (a ++ b) where
  within := within_append.mpr ⟨ha.within, by rw [ha.base]; exact hb.within⟩
  base := by rw [lex_append, ha.base, hb.base]
  skipped := fun s => by rw [List.append_assoc, ha.skipped, hb.skipped]

/-! ## What the export writes -/

/-- A name as it is written in quotes. -/
def writtenName (value : Str) : Str := JsStr.orElse (JsStr.trim value) "unnamed".toList

theorem quoteSqlIdentifier_eq (value : Str) :
    quoteSqlIdentifier value = quoteName (writtenName value) :=
  rfl

theorem sealed_quoteSqlIdentifier (value : Str) : Sealed (quoteSqlIdentifier value) :=
  sealed_quoteName _

theorem sealed_sqlDataType (value : Str) : Sealed (sqlDataType value) := by
  refine sealed_of_plain ?_
  dsimp only [sqlDataType]
  split_ifs with htype
  · rw [isSqlDataType, Bool.and_eq_true] at htype
    refine List.all_eq_true.mpr fun c hc => ?_
    have hchar := List.all_eq_true.mp htype.2 c hc
    rw [Bool.or_eq_true, decide_eq_true_eq] at hchar
    rcases hchar with hword | hmark
    · have hne : c ≠ ';' := by
        rintro rfl
        exact absurd hword (by decide)
      have hword : (c.isAlpha = true ∨ c.isDigit = true) ∨ c = '_' := by
        simpa [JsStr.isWordChar, Char.isAlphanum] using hword
      rcases hword with (hword | hword) | rfl
      · simp [isPlain, hword, hne]
      · simp [isPlain, hword, hne]
      · rfl
    · have hmarks : (" .,[]()".toList.all fun c => isPlain c && c ≠ ';') = true := by decide
      exact List.all_eq_true.mp hmarks c hmark
  · decide

/-- Names with commas between them. -/
theorem sealed_nameList (names : List Str) :
    Sealed (join ", ".toList (names.map quoteSqlIdentifier)) := by
  refine sealed_join (fun piece hpiece => ?_) (by decide) rfl rfl
  obtain ⟨name, -, rfl⟩ := List.mem_map.mp hpiece
  exact sealed_quoteSqlIdentifier name

theorem sealed_columnDefinition (c : Column) : Sealed (columnDefinition c) := by
  have hnotNull : Sealed (if c.isNotNull then " NOT NULL".toList else []) ∧
      (if c.isNotNull then " NOT NULL".toList else []).head?.all parts = true := by
    split_ifs
    · exact ⟨by decide, rfl⟩
    · exact ⟨sealed_nil, rfl⟩
  have hname : Sealed ("  ".toList ++ quoteSqlIdentifier c.columnName) :=
    (sealed_quoteSqlIdentifier _).after (by decide) rfl
  have htype : Sealed (" ".toList ++ sqlDataType c.dataType) :=
    (sealed_sqlDataType _).after (by decide) rfl
  rw [columnDefinition, List.append_assoc (_ ++ _) " ".toList]
  exact (hname.append htype rfl).append hnotNull.1 hnotNull.2

theorem sealed_primaryKeyClause {columns : List Column} {clause : Str}
    (h : clause ∈ primaryKeyClause columns) : Sealed clause := by
  dsimp only [primaryKeyClause] at h
  split_ifs at h with hnone
  · exact absurd h List.not_mem_nil
  · have hcols : ((columns.filter Column.isPk).map fun c => quoteSqlIdentifier c.columnName) =
        ((columns.filter Column.isPk).map Column.columnName).map quoteSqlIdentifier := by
      rw [List.map_map]
      rfl
    rw [List.mem_singleton.mp h, hcols, List.append_assoc]
    exact ((sealed_nameList _).append (by decide) rfl).after (by decide) rfl

/-- A table is a statement, up to its semicolon. -/
theorem ddlTable_sealed (node : TableNode) :
    ∃ text, Sealed ("CREATE TABLE ".toList ++ text) ∧
      ddlTable node = "CREATE TABLE ".toList ++ text ++ ";\n\n".toList := by
  have hlines : Sealed (join ",\n".toList
      (node.columns.map columnDefinition ++ primaryKeyClause node.columns)) := by
    refine sealed_join (fun piece hpiece => ?_) (by decide) rfl rfl
    rcases List.mem_append.mp hpiece with hpiece | hpiece
    · obtain ⟨c, -, rfl⟩ := List.mem_map.mp hpiece
      exact sealed_columnDefinition c
    · exact sealed_primaryKeyClause hpiece
  refine ⟨quoteSqlIdentifier (tableTitle node) ++ (" (\n".toList ++ join ",\n".toList
    (node.columns.map columnDefinition ++ primaryKeyClause node.columns) ++ "\n)".toList), ?_, ?_⟩
  · refine Sealed.after ?_ (by decide) rfl
    exact (sealed_quoteSqlIdentifier _).append
      ((hlines.after (by decide) rfl).append (by decide) rfl) rfl
  · rw [ddlTable_def]
    simp only [List.append_assoc]
    rfl

/-- A foreign key of two nodes is a statement, up to its semicolon. -/
theorem ddlForeignKey_sealed (nodes : List TableNode) (edge : Edge) :
    ddlForeignKey nodes edge = [] ∨ ∃ text, Sealed ("ALTER TABLE ".toList ++ text) ∧
      ddlForeignKey nodes edge = "ALTER TABLE ".toList ++ text ++ ";\n\n".toList := by
  rw [ddlForeignKey]
  split
  next sourceNode targetNode _ _ =>
    set fkColumns := fkColumnsForEdge edge sourceNode targetNode
    set constraintName := JsStr.orElse (edge.label.getD [])
      ("fk_".toList ++ edge.source ++ "_".toList ++ edge.target)
    have hlist (comment : Str) (hcomment : Sealed comment) (side : FkColumns → List Str) :
        Sealed (fkColumns.elim comment fun columns =>
          join ", ".toList ((side columns).map quoteSqlIdentifier)) := by
      cases fkColumns with
      | none => exact hcomment
      | some columns => exact sealed_nameList _
    have hsource := hlist "/* source columns */".toList (by decide) Prod.fst
    have htarget := hlist "/* target columns */".toList (by decide) Prod.snd
    have hend := Sealed.between " (".toList (sealed_quoteSqlIdentifier (tableTitle targetNode))
      (htarget.append (b := ")".toList) (by decide) rfl) (by decide) rfl rfl
    have hreferences := Sealed.between ")\n  REFERENCES ".toList hsource hend (by decide) rfl rfl
    have hkey := Sealed.between "\n  FOREIGN KEY (".toList
      (sealed_quoteSqlIdentifier constraintName) hreferences (by decide) rfl rfl
    have hall := Sealed.between "\n  ADD CONSTRAINT ".toList
      (sealed_quoteSqlIdentifier (tableTitle sourceNode)) hkey (by decide) rfl rfl
    refine .inr ⟨_, hall.after (by decide) rfl, ?_⟩
    simp only [List.append_assoc]
    rfl
  next => exact .inl rfl

/-- The index that a statement of the export makes. -/
def writtenIndex (entry : TableNode × IndexRecommendation) : SqlIndex where
  name := writtenName entry.2.indexName
  table := writtenName (tableTitle entry.1)
  columns := entry.2.columns.map writtenName

theorem length_le_join_quoteName (names : List Str) :
    names.length ≤ (join ", ".toList (names.map quoteName)).length := by
  induction names with
  | nil => exact Nat.zero_le _
  | cons name names ih =>
      have hname : 1 ≤ (quoteName name).length := by
        simp [quoteName]
      by_cases hnames : names = []
      · subst hnames
        rw [List.map_singleton, join_singleton, List.length_singleton]
        exact hname
      · rw [List.map_cons, join_cons_of_ne_nil _ _ (by simpa using hnames), List.length_append,
          List.length_append, List.length_cons]
        omega

/-- **The statement of an index** makes the index with the names as they are written. -/
theorem ddlIndex_sealed (entry : TableNode × IndexRecommendation) (h : entry.2.columns ≠ []) :
    ∃ text, Sealed text ∧ ddlIndex entry = text ++ ";".toList ∧
      createdIndex? text = some (writtenIndex entry) := by
  have hwritten : entry.2.columns.map quoteSqlIdentifier =
      (writtenIndex entry).columns.map quoteName := by
    rw [writtenIndex, List.map_map]
    rfl
  have hlist : Sealed (join ", ".toList ((writtenIndex entry).columns.map quoteName)) :=
    hwritten ▸ sealed_nameList _
  refine ⟨"CREATE INDEX CONCURRENTLY ".toList ++ (quoteName (writtenIndex entry).name ++
    (" ON ".toList ++ (quoteName (writtenIndex entry).table ++ (" USING btree (".toList ++
      (join ", ".toList ((writtenIndex entry).columns.map quoteName) ++ ")".toList))))), ?_, ?_, ?_⟩
  · refine Sealed.after ?_ (by decide) rfl
    refine Sealed.between " ON ".toList (sealed_quoteName _) ?_ (by decide) rfl rfl
    exact Sealed.between " USING btree (".toList (sealed_quoteName _)
      (hlist.append (by decide) rfl) (by decide) rfl rfl
  · have hend : ");".toList = ")".toList ++ ";".toList := by decide
    have htext : ddlIndex entry = "CREATE INDEX CONCURRENTLY ".toList ++
        quoteSqlIdentifier entry.2.indexName ++ " ON ".toList ++
        quoteSqlIdentifier (tableTitle entry.1) ++ " USING btree (".toList ++
        join ", ".toList (entry.2.columns.map quoteSqlIdentifier) ++ ");".toList := rfl
    rw [htext, hwritten, hend, quoteSqlIdentifier_eq, quoteSqlIdentifier_eq]
    simp only [List.append_assoc, writtenIndex]
  · have hne : (writtenIndex entry).columns ≠ [] := by simpa [writtenIndex] using h
    have hfuel : (writtenIndex entry).columns.length ≤ (join ", ".toList
        ((writtenIndex entry).columns.map quoteName) ++ ")".toList).length := by
      rw [List.length_append]
      exact (length_le_join_quoteName _).trans (Nat.le_add_right _ _)
    have hskip (s : Str) : skipBlank false ("CREATE INDEX CONCURRENTLY ".toList ++ s) =
        "CREATE INDEX CONCURRENTLY ".toList ++ s := rfl
    have hread := readNames_join hne hfuel []
    rw [createdIndex?, hskip, readIndex, dropStart_append]
    simp only [Option.bind_eq_bind, Option.bind_some]
    rw [readName_quoteName _ (by simp)]
    simp only [Option.bind_some, dropStart_append]
    rw [readName_quoteName _ (by simp)]
    simp only [Option.bind_some, dropStart_append]
    rw [show ")".toList = [')'] from rfl] at hread ⊢
    rw [hread]
    rfl

/-! ## The statements of the export -/

theorem Lead.createdIndex? {lead : Str} (h : Lead lead) (text : Str) :
    createdIndex? (lead ++ text) = createdIndex? text :=
  congrArg readIndex (h.skipped text)

/-- A statement that makes no index, with a blank line behind it. -/
theorem createdFrom_other {lead text : Str} (hlead : Lead lead) (htext : Sealed text)
    (hnone : createdIndex? text = none) (s : Str) :
    createdFrom lead (text ++ ";\n\n".toList ++ s) = createdFrom "\n\n".toList s := by
  have hsplit : text ++ ";\n\n".toList ++ s = text ++ ';' :: ("\n\n".toList ++ s) := by
    rw [List.append_assoc]
    rfl
  rw [hsplit, createdFrom_sealed htext, hlead.createdIndex?, hnone, createdFrom_lead lead_blankLine]
  rfl

theorem createdFrom_tables (nodes : List TableNode) {lead : Str} (hlead : Lead lead) (s : Str) :
    ∃ lead', Lead lead' ∧ createdFrom lead (nodes.flatMap ddlTable ++ s) = createdFrom lead' s := by
  induction nodes generalizing lead with
  | nil => exact ⟨lead, hlead, rfl⟩
  | cons node nodes ih =>
      obtain ⟨text, hsealed, htext⟩ := ddlTable_sealed node
      obtain ⟨lead', hlead', hrest⟩ := ih lead_blankLine
      refine ⟨lead', hlead', ?_⟩
      rw [List.flatMap_cons, htext, List.append_assoc (_ ++ ";\n\n".toList),
        createdFrom_other hlead hsealed rfl, hrest]

theorem createdFrom_foreignKeys (nodes : List TableNode) (edges : List Edge) {lead : Str}
    (hlead : Lead lead) (s : Str) :
    ∃ lead', Lead lead' ∧
      createdFrom lead (edges.flatMap (ddlForeignKey nodes) ++ s) = createdFrom lead' s := by
  induction edges generalizing lead with
  | nil => exact ⟨lead, hlead, rfl⟩
  | cons edge edges ih =>
      rw [List.flatMap_cons]
      rcases ddlForeignKey_sealed nodes edge with hnone | ⟨text, hsealed, htext⟩
      · rw [hnone, List.nil_append]
        exact ih hlead
      · obtain ⟨lead', hlead', hrest⟩ := ih lead_blankLine
        refine ⟨lead', hlead', ?_⟩
        rw [htext, List.append_assoc (_ ++ ";\n\n".toList), createdFrom_other hlead hsealed rfl,
          hrest]

theorem createdFrom_indexes {entries : List (TableNode × IndexRecommendation)}
    (h : ∀ entry ∈ entries, entry.2.columns ≠ []) (hne : entries ≠ []) {lead : Str}
    (hlead : Lead lead) :
    createdFrom lead (join "\n".toList (entries.map ddlIndex) ++ "\n\n".toList) =
      entries.map writtenIndex := by
  induction entries generalizing lead with
  | nil => exact absurd rfl hne
  | cons entry entries ih =>
      obtain ⟨text, hsealed, htext, hmakes⟩ := ddlIndex_sealed entry (h entry List.mem_cons_self)
      have hstep (s : Str) : createdFrom lead (ddlIndex entry ++ s) =
          writtenIndex entry :: createdFrom [] s := by
        rw [htext, List.append_assoc]
        exact (createdFrom_sealed hsealed lead s).trans (by rw [hlead.createdIndex?, hmakes]; rfl)
      by_cases hentries : entries = []
      · subst hentries
        rw [List.map_singleton, join_singleton, hstep]
        rfl
      · rw [List.map_cons, join_cons_of_ne_nil _ _ (by simpa using hentries), List.append_assoc,
          hstep, List.append_assoc, createdFrom_lead lead_break, List.nil_append,
          ih (fun e he => h e (List.mem_cons_of_mem entry he)) hentries lead_break, List.map_cons]

/-- **The indexes that the statements of the export make** are those that it emits, with their
    names as they are written. -/
theorem createdIndexes_exportDDL (nodes : List TableNode) (edges : List Edge) :
    createdIndexes (exportDDL nodes edges) = (ddlIndexes nodes).map writtenIndex := by
  have hcolumns : ∀ entry ∈ ddlIndexes nodes, entry.2.columns ≠ [] := by
    have hemitted : Firsts (fun entry => entry.2.indexName) (fun entry => entry.2.columns = [])
        (appliedIndexes nodes) (ddlIndexes nodes) := ddlIndexes_eq nodes ▸ firsts_foldl _
    exact fun entry hentry => (hemitted.read entry hentry).2
  set indexes := if (ddlIndexes nodes).map ddlIndex = [] then []
    else "-- Indexes\n".toList ++ join "\n".toList ((ddlIndexes nodes).map ddlIndex) ++
      "\n\n".toList with hindexes
  have htext : exportDDL nodes edges = "-- Generated DDL\n\n".toList ++ nodes.flatMap ddlTable ++
      edges.flatMap (ddlForeignKey nodes) ++ indexes := rfl
  obtain ⟨lead, hlead, htables⟩ := createdFrom_tables nodes lead_header
    (edges.flatMap (ddlForeignKey nodes) ++ indexes)
  obtain ⟨lead', hlead', hkeys⟩ := createdFrom_foreignKeys nodes edges hlead indexes
  rw [createdIndexes, htext, List.append_assoc, List.append_assoc, createdFrom_lead lead_header,
    List.nil_append, htables, hkeys, hindexes]
  split_ifs with hnone
  · have hread := hlead'.createdIndex? []
    rw [List.append_nil] at hread
    rw [List.map_eq_nil_iff.mp hnone, List.map_nil, createdFrom, statements, List.filterMap_cons,
      hread]
    rfl
  · rw [List.append_assoc, createdFrom_lead lead_indexes]
    exact createdFrom_indexes hcolumns (by simpa using hnone) (hlead'.append lead_indexes)

/-! ## Exported indexes -/

/-- The pairs of a table and one of its applied indexes that has columns. -/
def indexPairs (nodes : List TableNode) : List (TableNode × IndexRecommendation) :=
  ((appliedIndexes nodes).filter fun entry => entry.2.columns ≠ []).dedup

/-- The index of a pair: on that table, with those columns, under its name. -/
def appliedIndex (entry : TableNode × IndexRecommendation) : SqlIndex where
  name := entry.2.indexName
  table := tableTitle entry.1
  columns := entry.2.columns

/-- The text has exactly one `CREATE INDEX` for each pair of a table and an applied index that
    has columns, on that table and with those columns, and no other. -/
def IndexesExported (nodes : List TableNode) (sql : Str) : Prop :=
  (createdIndexes sql).Perm ((indexPairs nodes).map appliedIndex)

/-- A name with no blank at either end. -/
def Unpadded (name : Str) : Prop :=
  (∃ ch ∈ name.head?, JsStr.isSpace ch = false) ∧ ∃ ch ∈ name.getLast?, JsStr.isSpace ch = false

/-- What is written has no blank at either end, since blanks are trimmed off. -/
theorem unpadded_writtenName (name : Str) : Unpadded (writtenName name) := by
  by_cases htrim : JsStr.trim name = []
  · rw [writtenName, JsStr.orElse, if_pos htrim]
    exact ⟨⟨'u', rfl, rfl⟩, 'd', rfl, rfl⟩
  · rw [writtenName, JsStr.orElse, if_neg htrim]
    exact ⟨⟨_, List.head?_eq_some_head htrim, JsStr.isSpace_head_trim name _
        (List.head?_eq_some_head htrim)⟩,
      _, List.getLast?_eq_some_getLast htrim, JsStr.isSpace_getLast_trim name _
        (List.getLast?_eq_some_getLast htrim)⟩

/-- **A name is written as it is** where no blank is at either end of it. -/
theorem writtenName_eq_self_iff {name : Str} : writtenName name = name ↔ Unpadded name := by
  constructor
  · intro h
    exact h ▸ unpadded_writtenName name
  · rintro ⟨⟨first, hfirst, hvisible⟩, last, hlast, hvisible'⟩
    have htrim : JsStr.trim name = name := by
      refine JsStr.trim_of_ends (fun ch hch => ?_) fun ch hch => ?_
      · rwa [Option.some.inj (hch.symm.trans hfirst)]
      · rwa [Option.some.inj (hch.symm.trans hlast)]
    have hne : name ≠ [] := by
      rintro rfl
      exact absurd hfirst (by simp)
    rw [writtenName, htrim, JsStr.orElse, if_neg hne]

/-- The names of an index, its table and its columns have no blank at either end. -/
def NamesUnpadded (entry : TableNode × IndexRecommendation) : Prop :=
  Unpadded entry.2.indexName ∧ Unpadded (tableTitle entry.1) ∧
    ∀ column ∈ entry.2.columns, Unpadded column

theorem writtenIndex_eq_iff {entry : TableNode × IndexRecommendation} :
    writtenIndex entry = appliedIndex entry ↔ NamesUnpadded entry := by
  rw [writtenIndex, appliedIndex, SqlIndex.mk.injEq, writtenName_eq_self_iff,
    writtenName_eq_self_iff, NamesUnpadded]
  refine and_congr_right fun _ => and_congr_right fun _ => ?_
  have hsame : entry.2.columns.map writtenName = entry.2.columns ↔
      ∀ column ∈ entry.2.columns, writtenName column = column := by
    conv_lhs => rw [← List.map_id entry.2.columns, List.map_map]
    exact List.map_inj_left
  rw [hsame]
  exact forall₂_congr fun column _ => writtenName_eq_self_iff

/-- The names of what is written have no blank at either end. -/
theorem namesUnpadded_of_written {entry other : TableNode × IndexRecommendation}
    (h : writtenIndex other = appliedIndex entry) : NamesUnpadded entry := by
  rw [writtenIndex, appliedIndex, SqlIndex.mk.injEq] at h
  obtain ⟨hname, htable, hcolumns⟩ := h
  refine ⟨hname ▸ unpadded_writtenName _, htable ▸ unpadded_writtenName _, fun column hcolumn => ?_⟩
  obtain ⟨written, -, rfl⟩ := List.mem_map.mp (hcolumns ▸ hcolumn)
  exact unpadded_writtenName written

theorem mem_indexPairs {nodes : List TableNode} {entry : TableNode × IndexRecommendation} :
    entry ∈ indexPairs nodes ↔ entry.1 ∈ nodes ∧ entry.2 ∈ entry.1.indexes ∧
      entry.2.columns ≠ [] := by
  rw [indexPairs, List.mem_dedup, List.mem_filter, mem_appliedIndexes, decide_eq_true_eq, and_assoc]

/-- **Every applied index is exported**, exactly once, on its table and with its columns, exactly
    when the names have no blank at their ends and no two applied indexes with columns have one
    name. -/
theorem every_index_exported_iff (nodes : List TableNode) (edges : List Edge) :
    IndexesExported nodes (exportDDL nodes edges) ↔
      (∀ entry ∈ indexPairs nodes, NamesUnpadded entry) ∧
        ∀ entry ∈ indexPairs nodes, ∀ other ∈ indexPairs nodes,
          entry.2.indexName = other.2.indexName → entry = other := by
  have hemitted : Firsts (fun entry => entry.2.indexName) (fun entry => entry.2.columns = [])
      (appliedIndexes nodes) (ddlIndexes nodes) := ddlIndexes_eq nodes ▸ firsts_foldl _
  have hnodup : (ddlIndexes nodes).Nodup := List.Nodup.of_map _ hemitted.keys
  have hpairs (entry) (h : entry ∈ ddlIndexes nodes) : entry ∈ indexPairs nodes := by
    obtain ⟨happlied, hcolumns⟩ := hemitted.read entry h
    exact mem_indexPairs.mpr (and_assoc.mp ⟨mem_appliedIndexes.mp happlied, hcolumns⟩)
  rw [IndexesExported, createdIndexes_exportDDL]
  constructor
  · intro hperm
    have hunpadded (entry) (h : entry ∈ indexPairs nodes) : NamesUnpadded entry := by
      obtain ⟨other, -, hother⟩ := List.mem_map.mp
        (hperm.mem_iff.mpr (List.mem_map_of_mem (f := appliedIndex) h))
      exact namesUnpadded_of_written hother
    -- all pairs are emitted, as there are no more of them
    have hall : (ddlIndexes nodes).Perm (indexPairs nodes) := by
      refine (List.subperm_of_subset hnodup hpairs).perm_of_length_le ?_
      have hlength := hperm.length_eq
      rw [List.length_map, List.length_map] at hlength
      exact hlength.ge
    refine ⟨hunpadded, fun entry hentry other hother hname => ?_⟩
    exact List.inj_on_of_nodup_map hemitted.keys (hall.mem_iff.mpr hentry)
      (hall.mem_iff.mpr hother) hname
  · rintro ⟨hunpadded, hdistinct⟩
    have hall : (ddlIndexes nodes).Perm (indexPairs nodes) := by
      refine (List.perm_ext_iff_of_nodup hnodup (List.nodup_dedup _)).mpr fun entry =>
        ⟨hpairs entry, fun hentry => ?_⟩
      obtain ⟨hnode, hindex, hcolumns⟩ := mem_indexPairs.mp hentry
      obtain ⟨other, hother, hname⟩ := hemitted.covered entry
        (mem_appliedIndexes.mpr ⟨hnode, hindex⟩) hcolumns
      rwa [hdistinct entry hentry other (hpairs other hother) hname.symm]
    have hwritten : (ddlIndexes nodes).map writtenIndex = (ddlIndexes nodes).map appliedIndex :=
      List.map_congr_left fun entry hentry =>
        writtenIndex_eq_iff.mpr (hunpadded entry (hpairs entry hentry))
    rw [hwritten]
    exact hall.map _

/-! ## One name in two schemas -/

/-- A table of users in each of two schemas. -/
def twoSchemas : SnapshotJson :=
  { relations := [⟨1, "r".toList, "sales".toList, "users".toList, none⟩,
      ⟨2, "r".toList, "crm".toList, "users".toList, none⟩]
    columns := [⟨1, "email".toList, "text".toList, true, none⟩,
      ⟨2, "email".toList, "text".toList, true, none⟩]
    pkColumns := []
    fkEdges := []
    constraints := [] }

/-- The recommendation for the e-mail of each of them is applied. -/
def applyBoth : List Action :=
  [.loadSnapshot twoSchemas,
    .applyIndex "1".toList
      (buildRecommendation (snapshotNode twoSchemas ⟨1, "r".toList, "sales".toList,
        "users".toList, none⟩) ["email".toList] .recommended),
    .applyIndex "2".toList
      (buildRecommendation (snapshotNode twoSchemas ⟨2, "r".toList, "crm".toList,
        "users".toList, none⟩) ["email".toList] .recommended)]

/-- The second table's index is not exported. -/
theorem not_every_index_exported :
    ¬ ∀ actions s, run (step appendNewEdge) Editor.initial actions = some s →
      IndexesExported s.nodes (exportDDL s.nodes s.edges) := by
  intro hall
  obtain ⟨s, hs, hemitted, hpairs⟩ : ∃ s,
      run (step appendNewEdge) Editor.initial applyBoth = some s ∧
      (ddlIndexes s.nodes).length = 1 ∧ (indexPairs s.nodes).length = 2 :=
    ⟨_, rfl, by decide, by decide⟩
  have hlength := (hall applyBoth s hs).length_eq
  rw [createdIndexes_exportDDL, List.length_map, List.length_map, hemitted, hpairs] at hlength
  exact absurd hlength (by decide)

end PgErdCloud.Canvas
