/-
  Two exporters of the diagram: SQL (`exportDDL` of erd/export.ts) and DBML (`exportDbml` of
  erd/dbml.ts).

  `exportDbml_eq` gives the whole text of the DBML export: it is the tables and then the
  references, with the columns that `refColumns` names.
-/
import PgErdCloud.Canvas.Graph

namespace PgErdCloud.Canvas

open Lib Lib.PyStr

/-! ## SQL -/

/-- `quoteSqlIdentifier`: a name is trimmed before it is quoted. -/
def quoteSqlIdentifier (value : Str) : Str :=
  let text := JsStr.orElse (JsStr.trim value) "unnamed".toList
  "\"".toList ++ replaceChar '"' "\"\"".toList text ++ "\"".toList

/-- `SQL_DATA_TYPE_RE` -/
def isSqlDataType (text : Str) : Bool :=
  text ≠ [] && text.all fun ch => JsStr.isWordChar ch || ch ∈ " .,[]()".toList

/-- `sqlDataType`: a type with other characters becomes `text`. -/
def sqlDataType (value : Str) : Str :=
  let text := JsStr.trim value
  if isSqlDataType text then text else "text".toList

/-- The columns of a foreign key on both sides. -/
abbrev FkColumns := List Str × List Str

/-- The column of a node that has the handle. A name that is empty is falsy. -/
def columnOfHandle (handleId : Str → Str) (columns : List Column) (handle : Option Str) :
    Option Str :=
  ((columns.find? fun column => some (handleId column.columnName) = handle).map
    Column.columnName).filter (· ≠ [])

/-- The columns that the data of an edge names. -/
def fkColumnsOfData (edge : Edge) : Option FkColumns :=
  let sourceColumns := ((edge.data.bind EdgeData.sourceColumns).getD []).filter (· ≠ [])
  let targetColumns := ((edge.data.bind EdgeData.targetColumns).getD []).filter (· ≠ [])
  if sourceColumns ≠ [] ∧ sourceColumns.length = targetColumns.length then
    some (sourceColumns, targetColumns)
  else none

/-- The columns that have the handles of an edge. -/
def fkColumnsOfHandles (edge : Edge) (sourceNode targetNode : TableNode) : Option FkColumns :=
  match columnOfHandle sourceColumnHandleId sourceNode.columns edge.sourceHandle,
    columnOfHandle targetColumnHandleId targetNode.columns edge.targetHandle with
  | some sourceColumn, some targetColumn => some ([sourceColumn], [targetColumn])
  | _, _ => none

/-- The columns of the source that are no key, and the key of the target. -/
def fkColumnsOfKeys (sourceNode targetNode : TableNode) : Option FkColumns :=
  let source := (sourceNode.columns.filter fun column => !column.isPk).map Column.columnName
  let target := (targetNode.columns.filter Column.isPk).map Column.columnName
  if source ≠ [] ∧ source.length = target.length then some (source, target) else none

/-- `fkColumnsForEdge`: the data, the handles, or a guess from the keys. -/
def fkColumnsForEdge (edge : Edge) (sourceNode targetNode : TableNode) : Option FkColumns :=
  (fkColumnsOfData edge).or
    ((fkColumnsOfHandles edge sourceNode targetNode).or (fkColumnsOfKeys sourceNode targetNode))

/-- `node.data.title || node.id` -/
def tableTitle (node : TableNode) : Str := JsStr.orElse node.title node.id

/-- The statement of a table. -/
def ddlTable (node : TableNode) : Str :=
  let line (c : Column) : Str :=
    "  ".toList ++ quoteSqlIdentifier c.columnName ++ " ".toList ++ sqlDataType c.dataType ++
      if c.isNotNull then " NOT NULL".toList else []
  let pkCols := (node.columns.filter Column.isPk).map fun c => quoteSqlIdentifier c.columnName
  let colLines := node.columns.map line ++
    if pkCols = [] then []
    else ["  PRIMARY KEY (".toList ++ join ", ".toList pkCols ++ ")".toList]
  "CREATE TABLE ".toList ++ quoteSqlIdentifier (tableTitle node) ++ " (\n".toList ++
    join ",\n".toList colLines ++ "\n);\n\n".toList

/-- The statement of an edge between tables that are there, or a note where its columns are not
    known. -/
def ddlForeignKey (nodes : List TableNode) (edge : Edge) : Str :=
  match nodeById nodes edge.source, nodeById nodes edge.target with
  | some sourceNode, some targetNode =>
      let fkColumns := fkColumnsForEdge edge sourceNode targetNode
      let constraintName := JsStr.orElse (edge.label.getD [])
        ("fk_".toList ++ edge.source ++ "_".toList ++ edge.target)
      let list (columns : List Str) := join ", ".toList (columns.map quoteSqlIdentifier)
      "ALTER TABLE ".toList ++ quoteSqlIdentifier (tableTitle sourceNode) ++
        "\n  ADD CONSTRAINT ".toList ++ quoteSqlIdentifier constraintName ++
        "\n  FOREIGN KEY (".toList ++
        fkColumns.elim "/* source columns */".toList (fun columns => list columns.1) ++
        ")\n  REFERENCES ".toList ++ quoteSqlIdentifier (tableTitle targetNode) ++ " (".toList ++
        fkColumns.elim "/* target columns */".toList (fun columns => list columns.2) ++
        ");\n\n".toList
  | _, _ => []

/-- The indexes that are emitted: those with columns, each name once. -/
def ddlIndexes (nodes : List TableNode) : List (TableNode × IndexRecommendation) :=
  let all := nodes.flatMap fun node => node.indexes.map fun index => (node, index)
  all.foldl (fun emitted entry =>
    if entry.2.columns = [] ∨ emitted.any fun other => other.2.indexName = entry.2.indexName then
      emitted
    else emitted ++ [entry]) []

/-- The access method of a recommendation is always btree. -/
def ddlIndex (entry : TableNode × IndexRecommendation) : Str :=
  "CREATE INDEX CONCURRENTLY ".toList ++ quoteSqlIdentifier entry.2.indexName ++ " ON ".toList ++
    quoteSqlIdentifier (tableTitle entry.1) ++ " USING btree (".toList ++
    join ", ".toList (entry.2.columns.map quoteSqlIdentifier) ++ ");".toList

/-- `exportDDL` -/
def exportDDL (nodes : List TableNode) (edges : List Edge) : Str :=
  let indexLines := (ddlIndexes nodes).map ddlIndex
  "-- Generated DDL\n\n".toList ++ nodes.flatMap ddlTable ++ edges.flatMap (ddlForeignKey nodes) ++
    if indexLines = [] then []
    else "-- Indexes\n".toList ++ join "\n".toList indexLines ++ "\n\n".toList

/-! ## DBML -/

/-- `escapeString` -/
def escapeString (str : Str) : Str := replaceChar '\'' "''".toList str

/-- `safeId`: a name that is no identifier is quoted. -/
def safeId (str : Str) : Str :=
  if str = [] then []
  else if JsStr.isIdentifier str then str
  else "\"".toList ++ replaceChar '"' "\"\"".toList str ++ "\"".toList

/-- The schema and the name that a title with a dot consists of. -/
def titleParts (title : Str) : Option (Str × Str) :=
  match split '.' title with
  | schemaName :: part :: parts => some (schemaName, join ".".toList (part :: parts))
  | _ => none

/-- The name in a table header. -/
def dbmlHeaderName (title : Str) : Str :=
  match titleParts title with
  | none => safeId title
  | some (schemaName, tableName) =>
      if schemaName = [] then safeId tableName
      else safeId schemaName ++ ".".toList ++ safeId tableName

/-- The name in a reference. -/
def dbmlRefName (title : Str) : Str :=
  match titleParts title with
  | none => safeId title
  | some (schemaName, tableName) => safeId schemaName ++ ".".toList ++ safeId tableName

/-- The settings of a column. -/
def dbmlSettings (col : Column) : List Str :=
  let comment := col.columnComment.getD []
  (if col.isPk then ["pk".toList] else []) ++
    (if col.isNotNull && !col.isPk then ["not null".toList] else []) ++
    if comment = [] then [] else ["note: '".toList ++ escapeString comment ++ "'".toList]

/-- The line of a column. -/
def dbmlColumn (col : Column) : Str :=
  let settings := dbmlSettings col
  "  ".toList ++ safeId col.columnName ++ " ".toList ++
    JsStr.orElse col.dataType "varchar".toList ++
    (if settings = [] then [] else " [".toList ++ join ", ".toList settings ++ "]".toList) ++
    "\n".toList

/-- The lines of a table. -/
def dbmlTable (node : TableNode) : Str :=
  let comment := node.comment.getD []
  "Table ".toList ++ dbmlHeaderName node.title ++ " \x7b\n".toList ++
    node.columns.flatMap dbmlColumn ++
    (if comment = [] then [] else "  Note: '".toList ++ escapeString comment ++ "'\n".toList) ++
    "\x7d\n\n".toList

/-- The columns of an edge before they are printed. -/
def refColumnsOfEdge (edge : Edge) : FkColumns :=
  match edge.data.bind EdgeData.sourceColumns, edge.data.bind EdgeData.targetColumns with
  | some sourceColumns, some targetColumns => (sourceColumns, targetColumns)
  | _, _ =>
      let sourceHandle := edge.sourceHandle.getD []
      let targetHandle := edge.targetHandle.getD []
      if sourceHandle ≠ [] ∧ targetHandle ≠ [] then
        ([JsStr.removeFirst "src-".toList sourceHandle],
          [JsStr.removeFirst "tgt-".toList targetHandle])
      else ([], [])

/-- The columns that the `Ref` line of an edge names; `none` when it has no line. -/
def refColumns (edge : Edge) : Option FkColumns :=
  match refColumnsOfEdge edge with
  | ([], _) | (_, []) => none
  | ([source], target :: _) => some ([source], [target])
  | (sources, targets) => some (sources, targets)

/-- The line of a reference, where both tables are there and its columns are known. -/
def dbmlRef (nodes : List TableNode) (edge : Edge) : Str :=
  match nodeById nodes edge.source, nodeById nodes edge.target, refColumns edge with
  | some sourceNode, some targetNode, some (sources, targets) =>
      let list (columns : List Str) : Str :=
        let names := join ", ".toList (columns.map safeId)
        if sources.length = 1 then names else "(".toList ++ names ++ ")".toList
      "Ref: ".toList ++ dbmlRefName sourceNode.title ++ ".".toList ++ list sources ++
        " > ".toList ++ dbmlRefName targetNode.title ++ ".".toList ++ list targets ++ "\n".toList
  | _, _, _ => []

/-- `exportDbml` -/
def exportDbml (nodes : List TableNode) (edges : List Edge) : Str :=
  if nodes = [] then []
  else JsStr.trim (nodes.flatMap dbmlTable ++ edges.flatMap (dbmlRef nodes)) ++ "\n".toList

/-! ## The text of the DBML export -/

/-- A text that ends in a visible character. -/
def EndsVisibly (text : Str) : Prop := ∃ stem ch, text = stem ++ [ch] ∧ JsStr.isSpace ch = false

theorem EndsVisibly.append {text : Str} (h : EndsVisibly text) (before : Str) :
    EndsVisibly (before ++ text) := by
  obtain ⟨stem, ch, rfl, hch⟩ := h
  exact ⟨before ++ stem, ch, (List.append_assoc before stem [ch]).symm, hch⟩

theorem endsVisibly_safeId {before : Str} (h : EndsVisibly before) (name : Str) :
    EndsVisibly (before ++ safeId name) := by
  unfold safeId
  split_ifs with hnil hident
  · rwa [List.append_nil]
  · obtain ⟨stem, ch, hname⟩ := (List.eq_nil_or_concat' name).resolve_left hnil
    refine EndsVisibly.append ⟨stem, ch, hname, JsStr.isSpace_of_isWordChar ?_⟩ before
    exact JsStr.isWordChar_of_isIdentifier hident (hname ▸ List.mem_concat_self)
  · exact EndsVisibly.append ⟨_, '"', rfl, by decide⟩ before

/-- The names on one side of a reference. -/
theorem endsVisibly_list {before : Str} (h : EndsVisibly before) (one : Prop) [Decidable one]
    {columns : List Str} (hone : one → columns.length = 1) :
    EndsVisibly (before ++ if one then join ", ".toList (columns.map safeId)
      else "(".toList ++ join ", ".toList (columns.map safeId) ++ ")".toList) := by
  split_ifs with hcolumns
  · obtain ⟨column, rfl⟩ := List.length_eq_one_iff.mp (hone hcolumns)
    rw [List.map_singleton, join_singleton]
    exact endsVisibly_safeId h column
  · exact EndsVisibly.append ⟨_, ')', rfl, by decide⟩ before

theorem length_target_of_refColumns {edge : Edge} {sources targets : List Str}
    (h : refColumns edge = some (sources, targets)) (hone : sources.length = 1) :
    targets.length = 1 := by
  unfold refColumns at h
  split at h
  · cases h
  · cases h
  · obtain ⟨-, rfl⟩ := Prod.mk.inj (Option.some.inj h)
    rfl
  · next hne hfirst _ =>
    obtain ⟨rfl, rfl⟩ := Prod.mk.inj (Option.some.inj h)
    obtain ⟨source, rfl⟩ := List.length_eq_one_iff.mp hone
    obtain ⟨target, rest, rfl⟩ := List.exists_cons_of_ne_nil hne
    exact (hfirst source target rest rfl rfl).elim

/-- A reference is a line that ends in a visible character. -/
theorem exists_dbmlRef_line {nodes : List TableNode} {edge : Edge} (h : dbmlRef nodes edge ≠ []) :
    ∃ line, dbmlRef nodes edge = line ++ "\n".toList ∧ EndsVisibly line := by
  unfold dbmlRef at h ⊢
  split at h
  · next source target sources targets hsource htarget hcolumns =>
    exact ⟨_, rfl, endsVisibly_list ⟨_, '.', rfl, by decide⟩ _
      (length_target_of_refColumns hcolumns)⟩
  · exact absurd rfl h

theorem exists_refs_end {nodes : List TableNode} {edges : List Edge}
    (h : edges.flatMap (dbmlRef nodes) ≠ []) :
    ∃ text, edges.flatMap (dbmlRef nodes) = text ++ "\n".toList ∧ EndsVisibly text := by
  induction edges using List.reverseRecOn with
  | nil => exact absurd rfl h
  | append_singleton edges edge ih =>
      rw [List.flatMap_append, List.flatMap_singleton] at h ⊢
      by_cases hedge : dbmlRef nodes edge = []
      · rw [hedge, List.append_nil] at h ⊢
        exact ih h
      · obtain ⟨line, hline, hend⟩ := exists_dbmlRef_line hedge
        exact ⟨edges.flatMap (dbmlRef nodes) ++ line, by rw [hline, List.append_assoc],
          hend.append _⟩

/-- Only blanks are trimmed from tables and references. -/
theorem trim_tables {nodes : List TableNode} (h : nodes ≠ []) {refs text blank : Str}
    (htext : nodes.flatMap dbmlTable ++ refs = text ++ blank) (hend : EndsVisibly text)
    (hblank : ∀ ch ∈ blank, JsStr.isSpace ch = true) :
    JsStr.trim (nodes.flatMap dbmlTable ++ refs) = text := by
  obtain ⟨stem, last, rfl, hlast⟩ := hend
  obtain ⟨node, rest, rfl⟩ := List.exists_cons_of_ne_nil h
  have hhead : (stem ++ [last] ++ blank).head? = some 'T' := by
    rw [← htext, List.flatMap_cons]
    rfl
  rw [htext]
  refine JsStr.trim_append_of_ends (by simp) ?_ ?_ hblank
  · intro ch hch
    rw [List.head?_append, Option.mem_def.mp hch, Option.some_or] at hhead
    rw [Option.some.inj hhead]
    rfl
  · intro ch hch
    rw [List.getLast?_concat] at hch
    rwa [← Option.some.inj hch]

theorem exists_tables_end {nodes : List TableNode} (h : nodes ≠ []) :
    ∃ text, nodes.flatMap dbmlTable = text ++ "\n\n".toList ∧ EndsVisibly text := by
  obtain ⟨rest, node, rfl⟩ := (List.eq_nil_or_concat' nodes).resolve_left h
  obtain ⟨body, hbody⟩ : ∃ body, dbmlTable node = body ++ ("\x7d".toList ++ "\n\n".toList) :=
    ⟨_, rfl⟩
  refine ⟨rest.flatMap dbmlTable ++ body ++ "\x7d".toList, ?_, ⟨_, '\x7d', rfl, by decide⟩⟩
  rw [List.flatMap_append, List.flatMap_singleton, hbody]
  simp only [List.append_assoc]

/-- **The text of the export** is the tables and then the references, with the columns that
    `refColumns` names; where there is no reference, one of the line breaks at its end is
    dropped. -/
theorem exportDbml_eq {nodes : List TableNode} (edges : List Edge) (h : nodes ≠ []) :
    exportDbml nodes edges ++
        (if edges.flatMap (dbmlRef nodes) = [] then "\n".toList else []) =
      nodes.flatMap dbmlTable ++ edges.flatMap (dbmlRef nodes) := by
  have hbreak : ∀ ch ∈ "\n".toList, JsStr.isSpace ch = true :=
    fun ch hch => List.mem_singleton.mp hch ▸ rfl
  rw [exportDbml, if_neg h]
  split_ifs with hrefs
  · obtain ⟨text, htext, hend⟩ := exists_tables_end h
    have htrim := trim_tables h ((List.append_nil _).trans htext) hend
      (List.forall_mem_append.mpr ⟨hbreak, hbreak⟩)
    rw [hrefs, htrim, List.append_nil, htext, List.append_assoc]
    rfl
  · obtain ⟨refs, htext, hend⟩ := exists_refs_end hrefs
    have hbody : nodes.flatMap dbmlTable ++ edges.flatMap (dbmlRef nodes) =
        nodes.flatMap dbmlTable ++ refs ++ "\n".toList := by
      rw [htext, List.append_assoc]
    rw [trim_tables h hbody (hend.append _) hbreak, List.append_nil, hbody]

end PgErdCloud.Canvas
